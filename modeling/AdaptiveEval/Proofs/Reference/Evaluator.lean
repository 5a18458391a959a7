import AdaptiveEval.Evaluation

/-!
# The reference evaluator

Evaluation without any adaptation. Names are read from the map, items by the general access,
arithmetic goes through the table, a frame is a list of optional values, and a loop iterates until
it is done. Of a target only the depth limit and the sizes are left.
-/

namespace AdaptiveEval.Reference

structure Context where
  arguments : Array Value
  maxDepth : Nat
  /-- The size of the target's descriptor, which bounds the slots that can be written. -/
  slots : Nat
  ids : Std.HashMap String Int64
  flags : Array Bool
  fuel : Nat

structure Locals where
  cells : List (Option Value)
  depth : Nat

def Run (α : Type) : Type :=
  Context → Locals → Except Fault α × Locals

namespace Run

variable {α β : Type}

protected def pure (value : α) : Run α :=
  fun _ locals => (.ok value, locals)

protected def bind (action : Run α) (next : α → Run β) : Run β :=
  fun context locals =>
    match action context locals with
    | (.ok value, locals) => next value context locals
    | (.error fault, locals) => (.error fault, locals)

instance : Monad Run where
  pure := Run.pure
  bind := Run.bind

def raise (fault : Fault) : Run α :=
  fun _ locals => (.error fault, locals)

def ofExcept (result : Except RuntimeError α) : Run α :=
  match result with
  | .ok value => pure value
  | .error error => raise (.runtime error)

def context : Run Context :=
  fun context locals => (.ok context, locals)

def expect (view : Value → Option α) (error : ValueKind → RuntimeError) (value : Value) : Run α :=
  match view value with
  | some content => pure content
  | none => raise (.runtime (error value.kind))

/-- Runs a node one level deeper. An index outside a progression stops the run where it stands. -/
def nested (body : Run α) : Run α :=
  fun context locals =>
    if context.maxDepth ≤ locals.depth then
      (.error (.stackOverflow locals.depth context.maxDepth), locals)
    else
      match body context { locals with depth := locals.depth + 1 } with
      | (.error (.breach outside), locals) => (.error (.breach outside), locals)
      | (result, locals) => (result, { locals with depth := locals.depth - 1 })

def argument (index : Nat) : Run Value :=
  fun context locals =>
    match context.arguments[index]? with
    | some value => (.ok value, locals)
    | none => (.error (.runtime (.argumentOutOfBounds index context.arguments.size)), locals)

def read (slot : Nat) (expect : Expectation) : Run Value :=
  fun _ locals =>
    match locals.cells[slot]? with
    | none => (.error (.runtime (.slotOutOfBounds slot locals.cells.length)), locals)
    | some none => (.error (.runtime (.uninitializedRead slot)), locals)
    | some (some value) =>
        match value.coerce expect with
        | .ok value => (.ok value, locals)
        | .error cast =>
            (.error (.runtime (.typeMismatch slot cast.expected cast.found)), locals)

def write (slot : Nat) (value : Value) : Run Unit :=
  fun context locals =>
    if slot < locals.cells.length ∧ slot < context.slots then
      (.ok (), { locals with cells := locals.cells.set slot (some value) })
    else
      (.error (.runtime (.slotOutOfBounds slot locals.cells.length)), locals)

def item (array : ArrayValue) (index : Int64) : Run (Option Value) :=
  fun _ locals => ((array.item index).mapError .breach, locals)

end Run

variable {σ : Type}

/-- The sites of the nodes play no part. -/
def eval : Expr σ → Run Value := fun expr =>
  Run.nested <| match expr with
  | .const value => pure value
  | .arg index => Run.argument index
  | .read slot expect => Run.read slot expect
  | .arith _ op left right => do
      let left ← eval left
      let right ← eval right
      Run.ofExcept (op.combine left right)
  | .compare op left right => do
      let left ← eval left
      let right ← eval right
      let holds ← Run.ofExcept (op.holds left right)
      pure (.bool holds)
  | .conditional condition accept reject => do
      let condition ← eval condition
      let accepted ← Run.expect Value.bool? .notABoolean condition
      if accepted then eval accept else eval reject
  | .resolve _ name => do
      let context ← Run.context
      pure (match context.ids[name]? with
        | some id => .int id
        | none => .undefined)
  | .element _ array index => do
      let array ← eval array
      let array ← Run.expect Value.array? .notAnArray array
      let index ← eval index
      let index ← Run.expect Value.int? .notAnIndex index
      let item ← Run.item array index
      match item with
      | some value => pure value
      | none => Run.raise (.runtime (.indexOutOfBounds index array.length))
  | .length array => do
      let array ← eval array
      let array ← Run.expect Value.array? .notAnArray array
      pure array.lengthValue
  | .format template argument => do
      let argument ← eval argument
      pure (.str (String.ofList (fillTemplate argument.display.toList template.toList)))
  | .flag id => do
      let context ← Run.context
      pure (.bool (context.flags.getD id false))

def loopStep (condition : Run Value) (body : Run Flow) : Run Progress := do
  let condition ← condition
  let entered ← Run.expect Value.bool? .notABoolean condition
  if entered then
    let flow ← body
    match flow with
    | .normal => pure .running
    | .ret value => pure (.done (.ret value))
  else
    pure (.done .normal)

def runFor (step : Run Progress) : Nat → Run Progress
  | 0 => pure .running
  | budget + 1 => do
      let progress ← step
      match progress with
      | .running => runFor step budget
      | .done flow => pure (.done flow)

/-- Iterates until the loop is done, which `fuel` iterations have to reach. -/
def iterate (step : Run Progress) : Nat → Run Flow
  | 0 => Run.raise .outOfFuel
  | fuel + 1 => do
      let progress ← step
      match progress with
      | .running => iterate step fuel
      | .done flow => pure flow

def executeLoop (step : Run Progress) : Run Flow := do
  let context ← Run.context
  iterate step context.fuel

def runLoop (step : Run Progress) (budget : Option Nat) : Run Progress :=
  match budget with
  | some budget => runFor step budget
  | none => do
      let flow ← executeLoop step
      pure (.done flow)

mutual

def exec : Stmt σ → Run Flow := fun stmt =>
  Run.nested <| match stmt with
  | .block body => execAll body
  | .write slot value => do
      let value ← eval value
      Run.write slot value
      pure .normal
  | .loop condition body => executeLoop (loopStep (eval condition) (exec body))
  | .ret value => do
      let value ← eval value
      pure (.ret value)
  | .eval value => do
      let _ ← eval value
      pure .normal

def execAll : List (Stmt σ) → Run Flow
  | [] => pure .normal
  | stmt :: rest => do
      let flow ← exec stmt
      match flow with
      | .normal => execAll rest
      | .ret value => pure (.ret value)

end

def runBody (body : Body σ) : Run Value :=
  match body with
  | .expr node => eval node
  | .stmt node => do
      let flow ← exec node
      match flow with
      | .normal => pure .undefined
      | .ret value => pure value

section Labelling

/-! Naming the sites of a graph leaves its meaning as it is. -/

theorem eval_label (expr : Expr σ) (next : Nat) : eval (expr.label next).1 = eval expr := by
  induction expr generalizing next with
  | const value => rfl
  | arg index => rfl
  | read slot expect => rfl
  | arith site op left right ihleft ihright =>
      change eval (.arith next op (left.label _).1 (right.label _).1) = _
      rw [eval, ihleft, ihright, ← eval]
  | compare op left right ihleft ihright =>
      change eval (.compare op (left.label _).1 (right.label _).1) = _
      rw [eval, ihleft, ihright, ← eval]
  | conditional condition accept reject ihcondition ihaccept ihreject =>
      change eval (.conditional (condition.label _).1 (accept.label _).1 (reject.label _).1) = _
      rw [eval, ihcondition, ihaccept, ihreject, ← eval]
  | resolve site name => rfl
  | element site array index iharray ihindex =>
      change eval (.element next (array.label _).1 (index.label _).1) = _
      rw [eval, iharray, ihindex, ← eval]
  | length array iharray =>
      change eval (.length (array.label _).1) = _
      rw [eval, iharray, ← eval]
  | format template argument ihargument =>
      change eval (.format template (argument.label _).1) = _
      rw [eval, ihargument, ← eval]
  | flag id => rfl

mutual

theorem exec_label : ∀ (stmt : Stmt σ) (next : Nat), exec (stmt.label next).1 = exec stmt
  | .block body, next => by
      change exec (.block (labelAll body next).1) = _
      rw [exec, execAll_label body next, ← exec]
  | .write slot value, next => by
      change exec (.write slot (value.label next).1) = _
      rw [exec, eval_label, ← exec]
  | .loop condition body, next => by
      change exec (.loop (condition.label next).1 (body.label _).1) = _
      rw [exec, eval_label, exec_label body, ← exec]
  | .ret value, next => by
      change exec (.ret (value.label next).1) = _
      rw [exec, eval_label, ← exec]
  | .eval value, next => by
      change exec (.eval (value.label next).1) = _
      rw [exec, eval_label, ← exec]

theorem execAll_label :
    ∀ (body : List (Stmt σ)) (next : Nat), execAll (labelAll body next).1 = execAll body
  | [], _ => rfl
  | stmt :: rest, next => by
      change execAll ((stmt.label next).1 :: (labelAll rest _).1) = _
      rw [execAll, exec_label stmt next, execAll_label rest, ← execAll]

end

theorem runBody_label (root : Root σ) (next : Nat) :
    runBody (root.label next).1.body = runBody root.body := by
  rcases root with ⟨name, frameSize, node | node⟩
  · exact eval_label node next
  · change runBody (.stmt (node.label next).1) = _
    rw [runBody, exec_label, ← runBody]

end Labelling

end AdaptiveEval.Reference
