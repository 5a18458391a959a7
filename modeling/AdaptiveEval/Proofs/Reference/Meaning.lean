import AdaptiveEval.Proofs.Levels

/-!
# What nodes give

The value of an expression as a plain computation, without levels. Where the depth limit leaves room
for its nodes, an expression evaluates to its value and leaves the cells of the frame alone. An
index outside a progression is set apart, since it stops a run at the level where it stands.
-/

namespace AdaptiveEval.Reference

variable {α β σ : Type}

def demand (view : Value → Option α) (error : ValueKind → RuntimeError) (value : Value) :
    Except Fault α :=
  match view value with
  | some content => .ok content
  | none => .error (.runtime (error value.kind))

/-- Operands are taken from left to right, and the first fault ends the computation. -/
def value (context : Context) (cells : List (Option Value)) : Expr σ → Except Fault Value
  | .const value => .ok value
  | .arg index => (Run.argument index context { cells, depth := 0 }).1
  | .read slot expect => (Run.read slot expect context { cells, depth := 0 }).1
  | .arith _ op left right => do
      let left ← value context cells left
      let right ← value context cells right
      (op.combine left right).mapError .runtime
  | .compare op left right => do
      let left ← value context cells left
      let right ← value context cells right
      let holds ← (op.holds left right).mapError .runtime
      pure (.bool holds)
  | .conditional condition accept reject => do
      let condition ← value context cells condition
      let accepted ← demand Value.bool? .notABoolean condition
      if accepted then value context cells accept else value context cells reject
  | .resolve _ name =>
      .ok (match context.ids[name]? with
        | some id => .int id
        | none => .undefined)
  | .element _ array index => do
      let array ← value context cells array
      let array ← demand Value.array? .notAnArray array
      let index ← value context cells index
      let index ← demand Value.int? .notAnIndex index
      let item ← (array.item index).mapError .breach
      match item with
      | some value => pure value
      | none => throw (.runtime (.indexOutOfBounds index array.length))
  | .length array => do
      let array ← value context cells array
      let array ← demand Value.array? .notAnArray array
      pure array.lengthValue
  | .format template argument => do
      let argument ← value context cells argument
      pure (.str (String.ofList (fillTemplate argument.display.toList template.toList)))
  | .flag id => .ok (.bool (context.flags.getD id false))

/-- At a depth, the run has the given result and leaves the given cells. Nothing is said of a run
that an index outside a progression stops. -/
def Gives (context : Context) (depth : Nat) (action : Run α) (cells : List (Option Value))
    (result : Except Fault α) (after : List (Option Value)) : Prop :=
  (∀ outside, result ≠ .error (.breach outside)) →
    action context { cells, depth } = (result, { cells := after, depth })

namespace Gives

variable {context : Context} {depth : Nat} {cells middle after : List (Option Value)}
  {action : Run α} {next : α → Run β}

theorem pure (content : α) : Gives context depth (pure content) cells (.ok content) cells :=
  fun _ => rfl

theorem raise (fault : Fault) :
    Gives context depth (Run.raise fault : Run α) cells (.error fault) cells :=
  fun _ => rfl

theorem ofExcept (result : Except RuntimeError α) :
    Gives context depth (Run.ofExcept result) cells (result.mapError .runtime) cells :=
  fun _ => by cases result <;> rfl

theorem expect (view : Value → Option α) (error : ValueKind → RuntimeError) (value : Value) :
    Gives context depth (Run.expect view error value) cells (demand view error value) cells :=
  fun _ => by
    unfold Run.expect demand
    cases view value <;> rfl

theorem bind_ok {content : α} {result : Except Fault β}
    (haction : Gives context depth action cells (.ok content) middle)
    (hnext : Gives context depth (next content) middle result after) :
    Gives context depth (action >>= next) cells result after := by
  intro hinside
  rw [Run.bind_apply, haction nofun]
  exact hnext hinside

theorem bind_error {fault : Fault}
    (haction : Gives context depth action cells (.error fault) after) :
    Gives context depth (action >>= next) cells (.error fault) after := by
  intro hinside
  have hreturns : ∀ outside, (.error fault : Except Fault α) ≠ .error (.breach outside) := by
    intro outside hbreach
    exact hinside outside (congrArg Except.error (Except.error.inj hbreach))
  rw [Run.bind_apply, haction hreturns]

/-- A computation that leaves the cells alone goes on with what it has found. -/
theorem bind {first : Except Fault α} {second : α → Except Fault β}
    (haction : Gives context depth action cells first cells)
    (hnext : ∀ content, Gives context depth (next content) cells (second content) cells) :
    Gives context depth (action >>= next) cells (first >>= second) cells := by
  cases first with
  | ok content => exact bind_ok haction (hnext content)
  | error fault => exact bind_error haction

theorem nested {body : Run α} {result : Except Fault α} (hroom : depth < context.maxDepth)
    (hbody : Gives context (depth + 1) body cells result after) :
    Gives context depth (Run.nested body) cells result after := by
  intro hinside
  unfold Run.nested
  rw [if_neg (Nat.not_le.mpr hroom), hbody hinside]
  split
  · rename_i outside _ hbreach
    exact absurd (Prod.mk.inj hbreach).1 (hinside outside)
  · rename_i hrun
    obtain ⟨rfl, rfl⟩ := Prod.mk.inj hrun
    rfl

theorem item (array : ArrayValue) (index : Int64) :
    Gives context depth (Run.item array index) cells ((array.item index).mapError .breach) cells :=
  fun _ => rfl

theorem argument (index : Nat) :
    Gives context depth (Run.argument index) cells
      (Run.argument index context { cells, depth := 0 }).1 cells := by
  intro _
  unfold Run.argument
  cases context.arguments[index]? <;> rfl

theorem read (slot : Nat) (expect : Expectation) :
    Gives context depth (Run.read slot expect) cells
      (Run.read slot expect context { cells, depth := 0 }).1 cells := by
  intro _
  unfold Run.read
  rcases cells[slot]? with _ | _ | value
  · rfl
  · rfl
  · dsimp only
    cases value.coerce expect <;> rfl

/-- With room for its nodes an expression gives its value, and leaves the cells alone. -/
theorem eval (expr : Expr σ) {depth : Nat} (hroom : depth + expr.height ≤ context.maxDepth) :
    Gives context depth (Reference.eval expr) cells (Reference.value context cells expr) cells := by
  induction expr generalizing depth with
  | const content =>
      rw [Expr.height] at hroom
      exact nested (by omega) (pure content)
  | arg index =>
      rw [Expr.height] at hroom
      exact nested (by omega) (argument index)
  | read slot expect =>
      rw [Expr.height] at hroom
      exact nested (by omega) (read slot expect)
  | arith site op left right ihleft ihright =>
      rw [Expr.height] at hroom
      rw [Reference.eval]
      refine nested (by omega) (bind (ihleft (by omega)) fun left => ?_)
      refine bind (ihright (by omega)) fun right => ?_
      exact ofExcept (op.combine left right)
  | compare op left right ihleft ihright =>
      rw [Expr.height] at hroom
      rw [Reference.eval]
      refine nested (by omega) (bind (ihleft (by omega)) fun left => ?_)
      refine bind (ihright (by omega)) fun right => ?_
      exact bind (ofExcept (op.holds left right)) fun holds => pure _
  | conditional condition accept reject ihcondition ihaccept ihreject =>
      rw [Expr.height] at hroom
      rw [Reference.eval]
      refine nested (by omega) (bind (ihcondition (by omega)) fun condition => ?_)
      refine bind (expect Value.bool? .notABoolean condition) fun accepted => ?_
      cases accepted with
      | true => exact ihaccept (by omega)
      | false => exact ihreject (by omega)
  | resolve site name =>
      rw [Expr.height] at hroom
      exact nested (by omega) fun _ => rfl
  | element site array index iharray ihindex =>
      rw [Expr.height] at hroom
      rw [Reference.eval]
      refine nested (by omega) (bind (iharray (by omega)) fun array => ?_)
      refine bind (expect Value.array? .notAnArray array) fun array => ?_
      refine bind (ihindex (by omega)) fun index => ?_
      refine bind (expect Value.int? .notAnIndex index) fun index => ?_
      refine bind (item array index) fun found => ?_
      cases found with
      | some content => exact pure content
      | none => exact raise _
  | length array iharray =>
      rw [Expr.height] at hroom
      rw [Reference.eval]
      refine nested (by omega) (bind (iharray (by omega)) fun array => ?_)
      exact bind (expect Value.array? .notAnArray array) fun array => pure _
  | format template argument ihargument =>
      rw [Expr.height] at hroom
      rw [Reference.eval]
      exact nested (by omega) (bind (ihargument (by omega)) fun argument => pure _)
  | flag id =>
      rw [Expr.height] at hroom
      exact nested (by omega) fun _ => rfl

theorem eval_of_value {expr : Expr σ} {result : Except Fault Value}
    (hvalue : Reference.value context cells expr = result)
    (hroom : depth + expr.height ≤ context.maxDepth) :
    Gives context depth (Reference.eval expr) cells result cells := by
  rw [← hvalue]
  exact eval expr hroom

section Statements

variable {expr : Expr σ} {result : Except Fault Flow} {fault : Fault}

theorem write {slot : Nat} {content : Value} (hroom : depth + (1 + expr.height) ≤ context.maxDepth)
    (hvalue : Reference.value context cells expr = .ok content) (hcells : slot < cells.length)
    (hslots : slot < context.slots) :
    Gives context depth (exec (.write slot expr)) cells (.ok .normal)
      (cells.set slot (some content)) := by
  rw [exec]
  refine nested (by omega) (bind_ok (eval_of_value hvalue (by omega)) ?_)
  intro _
  rw [Run.bind_apply, Run.write, if_pos ⟨hcells, hslots⟩]
  rfl

theorem write_error {slot : Nat} (hroom : depth + (1 + expr.height) ≤ context.maxDepth)
    (hvalue : Reference.value context cells expr = .error fault) :
    Gives context depth (exec (.write slot expr)) cells (.error fault) cells := by
  rw [exec]
  exact nested (by omega) (bind_error (eval_of_value hvalue (by omega)))

theorem ret (hroom : depth + (1 + expr.height) ≤ context.maxDepth) :
    Gives context depth (exec (.ret expr)) cells
      (Reference.value context cells expr >>= fun content => .ok (.ret content)) cells := by
  rw [exec]
  exact nested (by omega) (bind (eval expr (by omega)) fun content => pure _)

theorem execAll_cons {stmt : Stmt σ} {rest : List (Stmt σ)}
    (hstmt : Gives context depth (exec stmt) cells (.ok .normal) middle)
    (hrest : Gives context depth (execAll rest) middle result after) :
    Gives context depth (execAll (stmt :: rest)) cells result after := by
  rw [execAll]
  exact bind_ok hstmt hrest

theorem execAll_cons_error {stmt : Stmt σ} {rest : List (Stmt σ)}
    (hstmt : Gives context depth (exec stmt) cells (.error fault) after) :
    Gives context depth (execAll (stmt :: rest)) cells (.error fault) after := by
  rw [execAll]
  exact bind_error hstmt

theorem execAll_singleton {stmt : Stmt σ}
    (hstmt : Gives context depth (exec stmt) cells result after) :
    Gives context depth (execAll [stmt]) cells result after := by
  rcases result with fault | _ | content
  · exact execAll_cons_error hstmt
  · exact execAll_cons hstmt (pure _)
  · rw [execAll]
    exact bind_ok hstmt (pure _)

theorem block {body : List (Stmt σ)} (hroom : depth < context.maxDepth)
    (hbody : Gives context (depth + 1) (execAll body) cells result after) :
    Gives context depth (exec (.block body)) cells result after := by
  rw [exec]
  exact nested hroom hbody

theorem runBody_ret {node : Stmt σ} {content : Value}
    (hnode : Gives context depth (exec node) cells (.ok (.ret content)) after) :
    Gives context depth (runBody (.stmt node)) cells (.ok content) after :=
  bind_ok hnode (pure content)

theorem runBody_error {node : Stmt σ}
    (hnode : Gives context depth (exec node) cells (.error fault) after) :
    Gives context depth (runBody (.stmt node)) cells (.error fault) after :=
  bind_error hnode

end Statements

section Loops

variable {condition : Expr σ} {body : Stmt σ} {fault : Fault} {result : Except Fault Flow}

theorem loop (hroom : depth < context.maxDepth)
    (hiterate : Gives context (depth + 1)
      (iterate (loopStep (Reference.eval condition) (exec body)) context.fuel) cells result after) :
    Gives context depth (exec (.loop condition body)) cells result after := by
  rw [exec]
  exact nested hroom hiterate

theorem loopStep_left (hroom : depth + condition.height ≤ context.maxDepth)
    (hcondition : Reference.value context cells condition = .ok (.bool false)) :
    Gives context depth (loopStep (Reference.eval condition) (exec body)) cells
      (.ok (.done .normal)) cells :=
  bind_ok (eval_of_value hcondition hroom) (pure _)

section

variable (hroom : depth + condition.height ≤ context.maxDepth)
  (hcondition : Reference.value context cells condition = .ok (.bool true))
include hroom hcondition

theorem loopStep_entered (hbody : Gives context depth (exec body) cells (.ok .normal) after) :
    Gives context depth (loopStep (Reference.eval condition) (exec body)) cells (.ok .running)
      after := by
  refine bind_ok (eval_of_value hcondition hroom) (bind_ok (pure true) ?_)
  exact bind_ok hbody (pure _)

theorem loopStep_error (hbody : Gives context depth (exec body) cells (.error fault) after) :
    Gives context depth (loopStep (Reference.eval condition) (exec body)) cells (.error fault)
      after := by
  refine bind_ok (eval_of_value hcondition hroom) (bind_ok (pure true) ?_)
  exact bind_error hbody

end

variable {step : Run Progress} {fuel : Nat}

theorem iterate_done {flow : Flow}
    (hstep : Gives context depth step cells (.ok (.done flow)) after) :
    Gives context depth (iterate step (fuel + 1)) cells (.ok flow) after :=
  bind_ok hstep (pure flow)

theorem iterate_running (hstep : Gives context depth step cells (.ok .running) middle)
    (hrest : Gives context depth (iterate step fuel) middle result after) :
    Gives context depth (iterate step (fuel + 1)) cells result after :=
  bind_ok hstep hrest

theorem iterate_error (hstep : Gives context depth step cells (.error fault) after) :
    Gives context depth (iterate step (fuel + 1)) cells (.error fault) after :=
  bind_error hstep

end Loops

end Gives

end AdaptiveEval.Reference
