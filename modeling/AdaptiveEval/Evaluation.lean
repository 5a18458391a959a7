import AdaptiveEval.Machine
import AdaptiveEval.Value.Display

/-!
# Evaluation

Graph nodes as evaluations. Every node runs one level below the node that holds it.
-/

namespace AdaptiveEval

/-- Lengths past the largest integer read as that integer. -/
def ArrayValue.lengthValue (array : ArrayValue) : Value :=
  .int (Int64.ofNat (min array.length 0x7fffffffffffffff))

/-- Operands are evaluated from left to right. -/
def Expr.eval : Expr SiteId → Eval Value := fun expr =>
  Eval.nested <| match expr with
  | .const value => pure value
  | .arg index => Eval.argument index
  | .read slot expect => Eval.read slot expect
  | .arith site op left right => do
      let left ← left.eval
      let right ← right.eval
      Eval.arith site op left right
  | .compare op left right => do
      let left ← left.eval
      let right ← right.eval
      let holds ← Eval.ofExcept (op.holds left right)
      pure (.bool holds)
  | .conditional condition accept reject => do
      let condition ← condition.eval
      let accepted ← Eval.expectBool condition
      if accepted then accept.eval else reject.eval
  | .resolve site name => do
      let id ← Eval.resolve site name
      pure (match id with
        | some id => .int id
        | none => .undefined)
  | .element site array index => do
      let array ← array.eval
      let array ← Eval.expectArray array
      let index ← index.eval
      let index ← Eval.expectIndex index
      let item ← Eval.element site array index
      match item with
      | some value => pure value
      | none => Eval.fail (.indexOutOfBounds index array.length)
  | .length array => do
      let array ← array.eval
      let array ← Eval.expectArray array
      pure array.lengthValue
  | .format template argument => do
      let argument ← argument.eval
      pure (.str (String.ofList (fillTemplate argument.display.toList template.toList)))
  | .flag id => do
      let context ← Eval.context
      pure (.bool (context.flag id))

/-- One iteration: the guard, then the body. -/
def loopStep (condition : Eval Value) (body : Eval Flow) : Eval Progress := do
  let condition ← condition
  let entered ← Eval.expectBool condition
  if entered then
    let flow ← body
    match flow with
    | .normal => pure .running
    | .ret value => pure (.done (.ret value))
  else
    pure (.done .normal)

def runFor (step : Eval Progress) : Nat → Eval Progress
  | 0 => pure .running
  | budget + 1 => do
      let progress ← step
      match progress with
      | .running => runFor step budget
      | .done flow => pure (.done flow)

/-- Runs a loop to its end, which `fuel` iterations have to reach. -/
def runToEnd (step : Eval Progress) : Nat → Eval Flow
  | 0 => Eval.raise .outOfFuel
  | fuel + 1 => do
      let progress ← step
      match progress with
      | .running => runToEnd step fuel
      | .done flow => pure flow

def runLoop (step : Eval Progress) (budget : Option Nat) : Eval Progress :=
  match budget with
  | some budget => runFor step budget
  | none => do
      let context ← Eval.context
      let flow ← runToEnd step context.fuel
      pure (.done flow)

/-- Interprets a loop up to the threshold, then hands the live frame over. -/
def executeLoop (step : Eval Progress) : Eval Flow := do
  let context ← Eval.context
  let progress ← runFor step context.options.osrThreshold
  match progress with
  | .done flow => pure flow
  | .running => do
      Eval.enterOsr
      runToEnd step context.fuel

mutual

def Stmt.exec : Stmt SiteId → Eval Flow := fun stmt =>
  Eval.nested <| match stmt with
  | .block body => execAll body
  | .write slot value => do
      let value ← value.eval
      Eval.write slot value
      pure .normal
  | .loop condition body => executeLoop (loopStep condition.eval body.exec)
  | .ret value => do
      let value ← value.eval
      pure (.ret value)
  | .eval value => do
      let _ ← value.eval
      pure .normal

def execAll : List (Stmt SiteId) → Eval Flow
  | [] => pure .normal
  | stmt :: rest => do
      let flow ← stmt.exec
      match flow with
      | .normal => execAll rest
      | .ret value => pure (.ret value)

end

/-- A statement body that completes normally yields the undefined value. -/
def Root.run (root : Root SiteId) : Eval Value :=
  match root.body with
  | .expr node => node.eval
  | .stmt node => do
      let flow ← node.exec
      match flow with
      | .normal => pure .undefined
      | .ret value => pure value

end AdaptiveEval
