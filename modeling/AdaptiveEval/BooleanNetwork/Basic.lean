/-!
# Boolean networks

The asynchronous transition graph of a network: a state has one successor for each variable whose
update disagrees with its value. The whole graph is built at once, and each state has one tag,
which belongs to the accessor that wrote it last.
-/

namespace AdaptiveEval.BooleanNetwork

/-- Bit `v` of a literal is the value of variable `v`. -/
abbrev Literal := Nat

/-- Variables past the width of a literal are false. -/
def valueAt (literal : Literal) (var : Nat) : Bool :=
  decide (var < 32) && literal.testBit var

def flip (literal : Literal) (var : Nat) : Literal :=
  literal ^^^ (1 <<< var)

structure State where
  literal : Literal
  successors : List Literal
  deriving DecidableEq, Inhabited

/-- A state whose successors are still to be listed. -/
def State.ofLiteral (literal : Literal) : State :=
  { literal, successors := [] }

def maxVariables : Nat := 30

structure TooManyVariables where
  arity : Nat
  deriving DecidableEq

def TooManyVariables.message (error : TooManyVariables) : String :=
  "Cannot create a boolean network with 2^" ++ toString error.arity ++
    " states (at most " ++ toString maxVariables ++ " variables)"

inductive TagValue where
  | int (number : Int64)
  | text (text : String)
  | distance (steps : Nat)
  deriving DecidableEq

structure Tag where
  accessor : Nat
  value : TagValue
  deriving DecidableEq

/-- The next value of a variable in a state. An update sees all of a state that is public, so also
the successors that are listed in it by then. The tags are not public: they are read through
accessors, and change under a state that stays the same. -/
abbrev Update := State → Nat → Bool

structure Network where
  arity : Nat
  states : Array State
  tags : Array (Option Tag)

namespace Network

/-- One successor for each variable whose update disagrees with its value in the state. -/
def successorsOf (arity : Nat) (update : Update) (literal : Literal) (state : State) :
    List Literal :=
  ((List.range arity).filter fun var =>
    update state var != valueAt state.literal var).map (flip literal)

/-- Lists the successors of one state in place; the update reads the state as it stands. -/
def fill (arity : Nat) (update : Update) (states : Array State) (literal : Literal) :
    Array State :=
  states.modify literal fun state =>
    { state with successors := successorsOf arity update literal state }

def build (arity : Nat) (update : Update) : Network :=
  { arity
    states := (List.range (1 <<< arity)).foldl (fill arity update)
      ((Array.range (1 <<< arity)).map State.ofLiteral)
    tags := Array.replicate (1 <<< arity) none }

def ofUpdate (arity : Nat) (update : Update) : Except TooManyVariables Network :=
  if maxVariables < arity then .error { arity } else .ok (build arity update)

def state? (network : Network) (literal : Literal) : Option State :=
  network.states[literal]?

def edgeCount (network : Network) : Nat :=
  network.states.foldl (fun count state => count + state.successors.length) 0

def next (network : Network) (literal : Literal) : List State :=
  match network.state? literal with
  | some state => state.successors.filterMap network.state?
  | none => []

/-- Claims the tag of a state for an accessor. -/
def store (network : Network) (accessor : Nat) (literal : Literal) (value : TagValue) : Network :=
  { network with tags := network.tags.setIfInBounds literal (some { accessor, value }) }

/-- A tag that another accessor wrote reads as missing. -/
def tag? (network : Network) (accessor : Nat) (literal : Literal) : Option TagValue :=
  match network.tags[literal]? with
  | some (some tag) => if tag.accessor = accessor then some tag.value else none
  | _ => none

end Network

/-- States agree by their literals, in whatever networks they lie. -/
def State.same (left right : State) : Bool :=
  left.literal == right.literal

structure Handle where
  network : Nat
  state : State
  deriving DecidableEq

/-- Handles agree only within one network. -/
def Handle.same (left right : Handle) : Bool :=
  left.network == right.network && left.state.same right.state

def binaryText (number : Nat) : String :=
  "0b" ++ String.ofList (Nat.toDigits 2 number)

def State.inspect (state : State) : String :=
  "State \x7b literal: " ++ binaryText state.literal ++ ", successors: [" ++
    ", ".intercalate (state.successors.map toString) ++ "] \x7d"

end AdaptiveEval.BooleanNetwork
