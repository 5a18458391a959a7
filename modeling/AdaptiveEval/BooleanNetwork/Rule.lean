import AdaptiveEval.BooleanNetwork.Basic

/-!
# Update rules

Update functions written as formulas, and a sample network.
-/

namespace AdaptiveEval.BooleanNetwork

inductive Rule where
  | const (truth : Bool)
  /-- The variable that is being updated. -/
  | own
  | atom (other : Nat)
  | not (rule : Rule)
  | and (rules : List Rule)
  | or (rules : List Rule)
  /-- True when an odd number of the rules hold. -/
  | xor (rules : List Rule)

mutual

def Rule.holds (literal : Literal) (var : Nat) : Rule → Bool
  | .const truth => truth
  | .own => valueAt literal var
  | .atom other => valueAt literal other
  | .not rule => !rule.holds literal var
  | .and rules => (holdsAll literal var rules).all id
  | .or rules => (holdsAll literal var rules).any id
  | .xor rules => (holdsAll literal var rules).foldl Bool.xor false

def holdsAll (literal : Literal) (var : Nat) : List Rule → List Bool
  | [] => []
  | rule :: rules => rule.holds literal var :: holdsAll literal var rules

end

/-- Rules are used in turn; without any, a variable keeps its value. -/
def updateOfRules (rules : Array Rule) : Update :=
  fun state var =>
    match rules[var % rules.size]? with
    | some rule => rule.holds state.literal var
    | none => valueAt state.literal var

namespace Pathway

def growthSignal : Nat := 0

def receptor : Nat := 1

def kinase : Nat := 2

def transcription : Nat := 3

def apoptosis : Nat := 4

def arity : Nat := 5

/-- A growth signal activates a receptor, which drives a kinase into transcription; apoptosis
fires when transcription runs without the signal and shuts the kinase down. -/
def update : Update :=
  fun state var =>
    if var = growthSignal then valueAt state.literal growthSignal
    else if var = receptor then valueAt state.literal growthSignal
    else if var = kinase then valueAt state.literal receptor && !valueAt state.literal apoptosis
    else if var = transcription then valueAt state.literal kinase
    else if var = apoptosis then
      valueAt state.literal transcription && !valueAt state.literal growthSignal
    else valueAt state.literal var

def network : Network :=
  .build arity update

end Pathway

end AdaptiveEval.BooleanNetwork
