import AdaptiveEval.Evaluation

/-!
# Call targets

A root node with the state that its activations share. A target that was interpreted often enough
counts as compiled against the current code generation, until that generation or an assumption it
depends on has changed.
-/

namespace AdaptiveEval

/-- A word that packs the tier, as zero or as one more than the generation, means the same until the
generation reaches the last word of 64 bits. What that word would be taken for is left out. -/
inductive Tier where
  | interpreted
  | compiled (generation : Nat)
  deriving DecidableEq, Inhabited

/-- The counters are those of a target's events. They do not wrap, which those of 64 bits would do
after `2 ^ 64` events. -/
structure Tiering where
  tier : Tier := .interpreted
  warmth : Nat := 0
  /-- Broken dependencies when the target was last compiled. -/
  brokenAtCompile : Nat := 0
  invocations : Nat := 0
  compilations : Nat := 0
  deoptimizations : Nat := 0
  deriving DecidableEq, Inhabited

namespace Tiering

def compile (tiering : Tiering) (generation broken : Nat) : Tiering :=
  { tiering with
    tier := .compiled generation
    brokenAtCompile := broken
    compilations := tiering.compilations + 1 }

def deoptimize (tiering : Tiering) : Tiering :=
  { tiering with
    tier := .interpreted
    warmth := 0
    deoptimizations := tiering.deoptimizations + 1 }

/-- Chooses the tier before a body runs. Assumptions never recover, so more broken ones than at
compile time mean that one broke since. -/
def update (tiering : Tiering) (threshold generation broken : Nat) : Tiering :=
  match tiering.tier with
  | .compiled compiledAt =>
      if compiledAt ≠ generation ∨ tiering.brokenAtCompile < broken then
        tiering.deoptimize
      else
        tiering
  | .interpreted =>
      let warmed := { tiering with warmth := tiering.warmth + 1 }
      if threshold ≤ warmed.warmth then warmed.compile generation broken else warmed

def enter (tiering : Tiering) (threshold generation broken : Nat) : Tiering :=
  { tiering with invocations := tiering.invocations + 1 }.update threshold generation broken

end Tiering

inductive Dependency where
  | assumption (id : Nat)
  | flag (id : Nat)
  deriving DecidableEq

structure Target where
  root : Root SiteId
  engine : Nat
  options : Options
  dependencies : List Dependency
  tiering : Tiering := {}
  state : TargetState

namespace Target

def ofRoot (root : Root SiteId) (engine : Nat) (registry : Registry) (options : Options)
    (dependencies : List Dependency) : Target :=
  { root, engine, options, dependencies
    state :=
      { descriptor := .ofSize root.frameSize
        nameCache := registry.freshCache
        shapes := .ofLimit registry.cacheLimit } }

def freshFrame (target : Target) : Frame :=
  .ofDescriptor target.state.descriptor

def drive {α : Type} (target : Target) (action : Eval α) (context : Context) (frame : Frame)
    (depth : Nat) (sites : Sites) : Except Fault α × Frame × Nat × Target × Sites :=
  match action context { frame, depth, target := target.state, sites } with
  | (result, machine) =>
      (result, machine.frame, machine.depth, { target with state := machine.target },
        machine.sites)

/-- Runs the root on a fresh frame, after the tier is chosen. -/
def invoke (target : Target) (context : Context) (broken : Nat) (sites : Sites) :
    Except Fault Value × Target × Sites :=
  let tiering :=
    target.tiering.enter target.options.compileThreshold target.state.generation broken
  match ({ target with tiering } : Target).drive target.root.run context target.freshFrame 0
      sites with
  | (result, _, _, target, sites) => (result, target, sites)

def invalidateCaches (target : Target) : Target :=
  { target with
    state :=
      { target.state with
        nameCache := target.state.nameCache.invalidate
        shapes := target.state.shapes.invalidate } }

/-- Retires any compilation made so far. -/
def bump (target : Target) : Target :=
  { target with state := { target.state with generation := target.state.generation + 1 } }

end Target

/-- The text of a fault names the target in which it arose. -/
def Fault.messageIn (fault : Fault) (target : String) : String :=
  fault.message ++ " (in `" ++ target ++ "`)"

end AdaptiveEval
