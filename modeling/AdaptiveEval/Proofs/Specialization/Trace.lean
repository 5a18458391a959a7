import AdaptiveEval.Evaluation

/-!
# Traced evaluation

The evaluation of a graph together with the machines that it passes: one after each step that it
takes, in order, also when it fails on the way.
-/

namespace AdaptiveEval

/-- An evaluation, and what it passes from a machine on. -/
structure Traced (α : Type) where
  action : Eval α
  passed : Context → Machine → List Machine

namespace Traced

variable {α β : Type}

protected def pure (value : α) : Traced α :=
  { action := pure value, passed := fun _ _ => [] }

protected def bind (traced : Traced α) (next : α → Traced β) : Traced β :=
  { action := traced.action >>= fun value => (next value).action
    passed := fun context machine =>
      traced.passed context machine ++
        match traced.action context machine with
        | (.ok value, reached) => (next value).passed context reached
        | (.error _, _) => [] }

instance : Monad Traced where
  pure := Traced.pure
  bind := Traced.bind

def step (action : Eval α) : Traced α :=
  { action, passed := fun context machine => [(action context machine).2] }

/-- A node that is too deep takes no step. -/
def nested (body : Traced α) : Traced α :=
  { action := Eval.nested body.action
    passed := fun context machine =>
      if context.options.maxDepth ≤ machine.depth then
        []
      else
        body.passed context { machine with depth := machine.depth + 1 } }

def loopStep (condition : Traced Value) (body : Traced Flow) : Traced Progress := do
  let condition ← condition
  let entered ← step (Eval.expectBool condition)
  if entered then
    let flow ← body
    match flow with
    | .normal => pure .running
    | .ret value => pure (.done (.ret value))
  else
    pure (.done .normal)

def runFor (iteration : Traced Progress) : Nat → Traced Progress
  | 0 => pure .running
  | budget + 1 => do
      let progress ← iteration
      match progress with
      | .running => runFor iteration budget
      | .done flow => pure (.done flow)

def runToEnd (iteration : Traced Progress) : Nat → Traced Flow
  | 0 => step (Eval.raise .outOfFuel)
  | fuel + 1 => do
      let progress ← iteration
      match progress with
      | .running => runToEnd iteration fuel
      | .done flow => pure flow

def executeLoop (iteration : Traced Progress) : Traced Flow := do
  let context ← step Eval.context
  let progress ← runFor iteration context.options.osrThreshold
  match progress with
  | .done flow => pure flow
  | .running => do
      step Eval.enterOsr
      runToEnd iteration context.fuel

end Traced

open Traced (step)

def Expr.traced : Expr SiteId → Traced Value := fun expr =>
  Traced.nested <| match expr with
  | .const value => pure value
  | .arg index => step (Eval.argument index)
  | .read slot expect => step (Eval.read slot expect)
  | .arith site op left right => do
      let left ← left.traced
      let right ← right.traced
      step (Eval.arith site op left right)
  | .compare op left right => do
      let left ← left.traced
      let right ← right.traced
      let holds ← step (Eval.ofExcept (op.holds left right))
      pure (.bool holds)
  | .conditional condition accept reject => do
      let condition ← condition.traced
      let accepted ← step (Eval.expectBool condition)
      if accepted then accept.traced else reject.traced
  | .resolve site name => do
      let id ← step (Eval.resolve site name)
      pure (match id with
        | some id => .int id
        | none => .undefined)
  | .element site array index => do
      let array ← array.traced
      let array ← step (Eval.expectArray array)
      let index ← index.traced
      let index ← step (Eval.expectIndex index)
      let item ← step (Eval.element site array index)
      match item with
      | some value => pure value
      | none => step (Eval.fail (.indexOutOfBounds index array.length))
  | .length array => do
      let array ← array.traced
      let array ← step (Eval.expectArray array)
      pure array.lengthValue
  | .format template argument => do
      let argument ← argument.traced
      pure (.str (String.ofList (fillTemplate argument.display.toList template.toList)))
  | .flag id => do
      let context ← step Eval.context
      pure (.bool (context.flag id))

mutual

def Stmt.traced : Stmt SiteId → Traced Flow := fun stmt =>
  Traced.nested <| match stmt with
  | .block body => tracedAll body
  | .write slot value => do
      let value ← value.traced
      step (Eval.write slot value)
      pure .normal
  | .loop condition body => Traced.executeLoop (Traced.loopStep condition.traced body.traced)
  | .ret value => do
      let value ← value.traced
      pure (.ret value)
  | .eval value => do
      let _ ← value.traced
      pure .normal

def tracedAll : List (Stmt SiteId) → Traced Flow
  | [] => pure .normal
  | stmt :: rest => do
      let flow ← stmt.traced
      match flow with
      | .normal => tracedAll rest
      | .ret value => pure (.ret value)

end

def Root.traced (root : Root SiteId) : Traced Value :=
  match root.body with
  | .expr node => node.traced
  | .stmt node => do
      let flow ← node.traced
      match flow with
      | .normal => pure .undefined
      | .ret value => pure value

end AdaptiveEval
