import AdaptiveEval.Arithmetic.Site
import AdaptiveEval.Assumption
import AdaptiveEval.ElementAccess
import AdaptiveEval.Frame
import AdaptiveEval.Graph.Labelling
import AdaptiveEval.Registry
import Std.Data.HashMap

/-!
# Machine state

What an activation reads and changes while it runs, and the steps by which it does so. A change
stays when the activation fails.
-/

namespace AdaptiveEval

open Chain

inductive Fault where
  | runtime (error : RuntimeError)
  | stackOverflow (depth maxDepth : Nat)
  | breach (outside : Breach)
  | outOfFuel
  deriving DecidableEq

def Fault.name : Fault → String
  | .runtime error => error.name
  | .stackOverflow _ _ => "StackOverflow"
  | .breach _ => "Panic"
  | .outOfFuel => "OutOfFuel"

def Fault.message : Fault → String
  | .runtime error => error.message
  | .stackOverflow depth maxDepth =>
      "Evaluation stack overflow: depth " ++ toString depth ++ " exceeds maximum of " ++
        toString maxDepth
  | .breach outside => outside.message
  | .outOfFuel => "out of fuel"

structure Options where
  maxDepth : Nat := 1000
  compileThreshold : Nat := 1000
  osrThreshold : Nat := 10000
  deriving DecidableEq, Inhabited

/-- The adaptive state of all nodes; a site that no node has used yet is fresh. -/
structure Sites where
  arithmetic : Std.HashMap SiteId ArithmeticSite := ∅
  names : Std.HashMap SiteId Head := ∅
  elements : Std.HashMap SiteId ElementSite := ∅

namespace Sites

def arithmeticAt (sites : Sites) (site : SiteId) : ArithmeticSite :=
  sites.arithmetic.getD site {}

def nameAt (sites : Sites) (site : SiteId) : Head :=
  sites.names.getD site {}

def elementAt (sites : Sites) (site : SiteId) : ElementSite :=
  sites.elements.getD site {}

end Sites

/-- The state that all activations of one call target share. The generation and the hand-overs are
counted without a bound, so past the `2 ^ 64` events at which counters of 64 bits would wrap. -/
structure TargetState where
  descriptor : Descriptor
  generation : Nat := 0
  nameCache : NameCache
  shapes : ShapeArena
  osrEntries : Nat := 0

structure Context where
  arguments : Array Value
  options : Options
  registry : Registry
  flags : Array Flag
  /-- How many iterations a loop may take once it was handed over. -/
  fuel : Nat

def Context.flag (context : Context) (flag : Nat) : Bool :=
  (context.flags[flag]?.map Flag.get).getD false

structure Machine where
  frame : Frame
  depth : Nat
  target : TargetState
  sites : Sites

def Eval (α : Type) : Type :=
  Context → Machine → Except Fault α × Machine

namespace Eval

variable {α β : Type}

@[always_inline, inline]
protected def pure (value : α) : Eval α :=
  fun _ machine => (.ok value, machine)

@[always_inline, inline]
protected def bind (action : Eval α) (next : α → Eval β) : Eval β :=
  fun context machine =>
    match action context machine with
    | (.ok value, machine) => next value context machine
    | (.error fault, machine) => (.error fault, machine)

instance : Monad Eval where
  pure := Eval.pure
  bind := Eval.bind

def raise (fault : Fault) : Eval α :=
  fun _ machine => (.error fault, machine)

def fail (error : RuntimeError) : Eval α :=
  raise (.runtime error)

def ofExcept (result : Except RuntimeError α) : Eval α :=
  match result with
  | .ok value => pure value
  | .error error => fail error

@[always_inline, inline]
def context : Eval Context :=
  fun context machine => (.ok context, machine)

/-- Runs a node one level deeper, up to the depth limit. The level is left again when the node
fails, but not when an index outside a progression stops the activation where it stands. -/
@[inline]
def nested (body : Eval α) : Eval α :=
  fun context machine =>
    if context.options.maxDepth ≤ machine.depth then
      (.error (.stackOverflow machine.depth context.options.maxDepth), machine)
    else
      match body context { machine with depth := machine.depth + 1 } with
      | (.error (.breach outside), machine) => (.error (.breach outside), machine)
      | (result, machine) => (result, { machine with depth := machine.depth - 1 })

def argument (index : Nat) : Eval Value :=
  fun context machine =>
    match context.arguments[index]? with
    | some value => (.ok value, machine)
    | none =>
        (.error (.runtime (.argumentOutOfBounds index context.arguments.size)), machine)

def read (slot : Nat) (expect : Expectation) : Eval Value :=
  fun context machine => ofExcept (machine.frame.read slot expect) context machine

def write (slot : Nat) (value : Value) : Eval Unit :=
  fun _ machine =>
    match machine.frame.write machine.target.descriptor machine.target.generation slot value with
    | .ok (frame, descriptor, generation) =>
        (.ok (), { machine with frame, target := { machine.target with descriptor, generation } })
    | .error error => (.error (.runtime error), machine)

def arith (site : SiteId) (op : ArithmeticOp) (left right : Value) : Eval Value :=
  fun context machine =>
    let (result, state, generation) :=
      (machine.sites.arithmeticAt site).evaluate op left right machine.target.generation
    ofExcept result context
      { machine with
        target := { machine.target with generation }
        sites := { machine.sites with arithmetic := machine.sites.arithmetic.insert site state } }

def resolve (site : SiteId) (name : String) : Eval (Option Int64) :=
  fun context machine =>
    let (id, nameCache, head) :=
      context.registry.resolve machine.target.nameCache (machine.sites.nameAt site) name
    (.ok id,
      { machine with
        target := { machine.target with nameCache }
        sites := { machine.sites with names := machine.sites.names.insert site head } })

def element (site : SiteId) (array : ArrayValue) (index : Int64) : Eval (Option Value) :=
  fun _ machine =>
    let (item, state, shapes) :=
      (machine.sites.elementAt site).get machine.target.shapes array index
    (item.mapError .breach,
      { machine with
        target := { machine.target with shapes }
        sites := { machine.sites with elements := machine.sites.elements.insert site state } })

def enterOsr : Eval Unit :=
  fun _ machine =>
    (.ok (),
      { machine with
        target := { machine.target with osrEntries := machine.target.osrEntries + 1 } })

def expectArray (value : Value) : Eval ArrayValue :=
  match value with
  | .array items => pure items
  | _ => fail (.notAnArray value.kind)

def expectIndex (value : Value) : Eval Int64 :=
  match value with
  | .int index => pure index
  | _ => fail (.notAnIndex value.kind)

def expectBool (value : Value) : Eval Bool :=
  match value with
  | .bool truth => pure truth
  | _ => fail (.notABoolean value.kind)

end Eval

end AdaptiveEval
