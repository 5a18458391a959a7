import AdaptiveEval.CallTarget

/-!
# Hosts

Engines, flags, assumptions and call targets that run together. Names of things are indices, which
stay valid for good.
-/

namespace AdaptiveEval

def defaultCacheLimit : Nat := 2

structure EngineOptions where
  execution : Options := {}
  cacheLimit : Nat := defaultCacheLimit
  deriving DecidableEq, Inhabited

/-- A registry shared by call targets, with their default options. -/
structure Engine where
  options : EngineOptions
  registry : Registry

def Engine.ofOptions (options : EngineOptions) : Engine :=
  { options, registry := .ofLimit options.cacheLimit }

/-- One invocation in progress, between the steps by which it is driven. -/
structure Activation where
  target : Nat
  arguments : Array Value
  frame : Frame
  depth : Nat := 0

inductive RunError where
  | foreignTarget (name : String)
  | fault (fault : Fault)
  deriving DecidableEq

def RunError.name : RunError → String
  | .foreignTarget _ => "Api"
  | .fault (.runtime _) => "Runtime"
  | .fault (.stackOverflow _ _) => "ResourceExceeded"
  | .fault other => other.name

def RunError.message : RunError → String
  | .foreignTarget name =>
      "API error: Call target `" ++ name ++ "` was created by a different engine"
  | .fault (.runtime error) => "Runtime error: " ++ error.message
  | .fault (.stackOverflow depth maxDepth) =>
      "Resource limit exceeded: " ++ (Fault.stackOverflow depth maxDepth).message
  | .fault other => other.message

structure Host where
  engines : Array Engine := #[]
  flags : Array Flag := #[]
  assumptions : Array Assumption := #[]
  targets : Array Target := #[]
  sites : Sites := {}
  nextSite : Nat := 0

namespace Host

def addEngine (host : Host) (options : EngineOptions) : Nat × Host :=
  (host.engines.size, { host with engines := host.engines.push (.ofOptions options) })

def addFlag (host : Host) (name : String) : Nat × Host :=
  (host.flags.size, { host with flags := host.flags.push (.ofName name) })

def addAssumption (host : Host) (name : String) : Nat × Host :=
  (host.assumptions.size, { host with assumptions := host.assumptions.push { name } })

def setFlag (host : Host) (flag : Nat) (value : Bool) : Host :=
  { host with flags := host.flags.modify flag (·.set value) }

def assumption? (host : Host) : Dependency → Option Assumption
  | .assumption id => host.assumptions[id]?
  | .flag id => host.flags[id]?.map Flag.unchanged

def invalidate (host : Host) : Dependency → Host
  | .assumption id =>
      { host with assumptions := host.assumptions.modify id fun assumption =>
          assumption.invalidate.2 }
  | .flag id =>
      { host with flags := host.flags.modify id fun flag => flag.invalidate.2 }

def isBroken (host : Host) (dependency : Dependency) : Bool :=
  match host.assumption? dependency with
  | some assumption => !assumption.valid
  | none => false

/-- Repeated dependencies count repeatedly. -/
def broken (host : Host) (dependencies : List Dependency) : Nat :=
  dependencies.countP host.isBroken

def map (host : Host) (engine : Nat) (name : String) (id : Int64) : Host :=
  { host with engines := host.engines.modify engine fun engine =>
      { engine with registry := engine.registry.map name id } }

def label {α : Type} (host : Host) (node : StateM Nat α) : α × Host :=
  match node host.nextSite with
  | (labelled, nextSite) => (labelled, { host with nextSite })

def addTarget (host : Host) (engine : Nat) (root : RootShape) (options : Options)
    (dependencies : List Dependency) : Option (Nat × Host) := do
  let registry := (← host.engines[engine]?).registry
  let (root, host) := host.label root.label
  let target := Target.ofRoot root engine registry options dependencies
  return (host.targets.size, { host with targets := host.targets.push target })

def context (host : Host) (fuel : Nat) (registry : Registry) (options : Options)
    (arguments : Array Value) : Context :=
  { arguments, options, registry, flags := host.flags, fuel }

def invoke (host : Host) (fuel id : Nat) (arguments : Array Value) :
    Option (Except Fault Value × Host) := do
  let target ← host.targets[id]?
  let engine ← host.engines[target.engine]?
  let context := host.context fuel engine.registry target.options arguments
  let (result, target, sites) :=
    target.invoke context (host.broken target.dependencies) host.sites
  return (result, { host with targets := host.targets.setIfInBounds id target, sites })

/-- Runs a target of the given engine; the target of another one is refused. -/
def run (host : Host) (fuel engine id : Nat) (arguments : Array Value) :
    Option (Except RunError Value × Host) := do
  let target ← host.targets[id]?
  if target.engine = engine then
    let (result, host) ← host.invoke fuel id arguments
    return (result.mapError .fault, host)
  else
    return (.error (.foreignTarget target.root.name), host)

def activate (host : Host) (id : Nat) (arguments : Array Value) : Option Activation := do
  let target ← host.targets[id]?
  return { target := id, arguments, frame := target.freshFrame }

def resume (host : Host) (id : Nat) (arguments : Array Value) (frame : Frame) :
    Option Activation := do
  let _ ← host.targets[id]?
  return { target := id, arguments, frame }

def drive {α : Type} (host : Host) (fuel : Nat) (activation : Activation) (action : Eval α) :
    Option (Except Fault α × Activation × Host) := do
  let target ← host.targets[activation.target]?
  let engine ← host.engines[target.engine]?
  let context := host.context fuel engine.registry target.options activation.arguments
  let (result, frame, depth, driven, sites) :=
    target.drive action context activation.frame activation.depth host.sites
  return (result, { activation with frame, depth },
    { host with targets := host.targets.setIfInBounds activation.target driven, sites })

def modifyTarget (host : Host) (id : Nat) (change : Target → Target) : Host :=
  { host with targets := host.targets.modify id change }

end Host

end AdaptiveEval
