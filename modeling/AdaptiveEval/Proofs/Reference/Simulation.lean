import AdaptiveEval.Proofs.NameFreshness
import AdaptiveEval.Proofs.Reference.Evaluator
import AdaptiveEval.Proofs.SiteResults

/-!
# Simulation by the reference evaluator

Evaluation gives what the reference evaluator gives, and keeps the state of its target sound. Both
sides bound their loops, by different counts: whenever one of them ends within its bound, so does
the other within a bound that is large enough.
-/

namespace AdaptiveEval

open Reference (Run Locals)

/-- The side that is known to end. -/
inductive Lead where
  | adaptive
  | reference

namespace Lead

def pick {α : Type} (lead : Lead) (adaptive reference : α) : α :=
  match lead with
  | .adaptive => adaptive
  | .reference => reference

/-- The other side may take as many iterations of a loop as the leading one: `threshold` and then
`fuel` of them under adaptation, `allowed` in the reference. -/
def Covers (lead : Lead) (threshold fuel allowed : Nat) : Prop :=
  match lead with
  | .adaptive => threshold + fuel ≤ allowed
  | .reference => allowed ≤ fuel

variable {lead : Lead} {threshold fuel allowed : Nat}

theorem Covers.of_succ_threshold (hcovers : lead.Covers (threshold + 1) fuel (allowed + 1)) :
    lead.Covers threshold fuel allowed := by
  cases lead <;> simp only [Covers] at * <;> omega

theorem Covers.of_succ_fuel (hcovers : lead.Covers 0 (fuel + 1) (allowed + 1)) :
    lead.Covers 0 fuel allowed := by
  cases lead <;> simp only [Covers] at * <;> omega

theorem Covers.eq_reference (hcovers : lead.Covers threshold fuel 0)
    (hpositive : 0 < threshold + fuel) : lead = .reference := by
  cases lead <;> simp only [Covers] at *
  omega

theorem Covers.eq_adaptive_or_eq_zero (hcovers : lead.Covers 0 0 allowed) :
    lead = .adaptive ∨ allowed = 0 := by
  cases lead <;> simp_all [Covers]

theorem Covers.without_threshold (hcovers : lead.Covers threshold fuel allowed) :
    lead.Covers 0 fuel allowed := by
  cases lead <;> simp only [Covers] at * <;> omega

end Lead

namespace Eval

variable {α β : Type}

theorem bind_apply (action : Eval α) (next : α → Eval β) (context : Context) (machine : Machine) :
    (action >>= next) context machine =
      match action context machine with
      | (.ok value, machine) => next value context machine
      | (.error fault, machine) => (.error fault, machine) := rfl

theorem ne_outOfFuel_of_bind {action : Eval α} {next : α → Eval β} {context : Context}
    {machine : Machine} (hends : ((action >>= next) context machine).1 ≠ .error .outOfFuel) :
    (action context machine).1 ≠ .error .outOfFuel := by
  rw [bind_apply] at hends
  intro hfuel
  rcases hrun : action context machine with ⟨fault | value, after⟩ <;> simp_all

theorem nested_fst {body : Eval α} {context : Context} {machine : Machine}
    (hshallow : ¬context.options.maxDepth ≤ machine.depth) :
    (nested body context machine).1 =
      (body context { machine with depth := machine.depth + 1 }).1 := by
  unfold nested
  rw [if_neg hshallow]
  split
  · rename_i hrun
    rw [hrun]
  · rename_i hrun
    rw [hrun]

instance : LawfulMonad Eval :=
  LawfulMonad.mk' Eval
    (fun action => by
      funext context machine
      change (action >>= fun value => Eval.pure value) context machine = action context machine
      rw [bind_apply]
      rcases action context machine with ⟨_ | _, _⟩ <;> rfl)
    (fun _ _ => rfl)
    (fun action next last => by
      funext context machine
      rw [bind_apply, bind_apply, bind_apply]
      rcases action context machine with ⟨_ | _, _⟩ <;> rfl)

end Eval

namespace Reference.Run

variable {α β : Type}

theorem bind_apply (action : Run α) (next : α → Run β) (context : Reference.Context)
    (locals : Locals) :
    (action >>= next) context locals =
      match action context locals with
      | (.ok value, locals) => next value context locals
      | (.error fault, locals) => (.error fault, locals) := rfl

theorem ne_outOfFuel_of_bind {action : Run α} {next : α → Run β} {context : Reference.Context}
    {locals : Locals} (hends : ((action >>= next) context locals).1 ≠ .error .outOfFuel) :
    (action context locals).1 ≠ .error .outOfFuel := by
  rw [bind_apply] at hends
  intro hfuel
  rcases hrun : action context locals with ⟨fault | value, after⟩ <;> simp_all

theorem nested_fst {body : Run α} {context : Reference.Context} {locals : Locals}
    (hshallow : ¬context.maxDepth ≤ locals.depth) :
    (nested body context locals).1 =
      (body context { locals with depth := locals.depth + 1 }).1 := by
  unfold nested
  rw [if_neg hshallow]
  split
  · rename_i hrun
    rw [hrun]
  · rename_i hrun
    rw [hrun]

end Reference.Run

/-- The caches of a target hold nothing that the registry or a shape contradicts. -/
structure TargetState.Sound (registry : Registry) (slots : Nat) (state : TargetState) : Prop where
  sized : state.descriptor.size = slots
  behind : state.nameCache.generation ≤ registry.epoch
  fresh : registry.Fresh state.nameCache
  readersFit : ReadersFit state.shapes

namespace Frame

/-- What the reference evaluator sees of a frame: the stored values. -/
def cells (frame : Frame) : List (Option Value) :=
  frame.slots.toList.map Slot.value?

theorem length_cells (frame : Frame) : frame.cells.length = frame.size := by
  simp [cells, size]

theorem getElem?_cells (frame : Frame) (slot : Nat) :
    frame.cells[slot]? = (frame.slot? slot).map Slot.value? := by
  simp [cells, slot?]

theorem cells_ofSize (size : Nat) : (ofSize size).cells = List.replicate size none := by
  simp [cells, ofSize, Slot.value?]

/-- A write succeeds inside the frame and the descriptor. The kind it finds decides only on the
representation. -/
theorem write_of_lt {frame : Frame} {descriptor : Descriptor} {slot : Nat}
    (hframe : slot < frame.size) (hdescriptor : slot < descriptor.size) (generation : Nat)
    (value : Value) :
    ∃ frame' descriptor' generation',
      frame.write descriptor generation slot value = .ok (frame', descriptor', generation') ∧
        frame'.cells = frame.cells.set slot (some value) ∧ descriptor'.size = descriptor.size := by
  obtain ⟨kind, hkind⟩ : ∃ kind, descriptor.kind? slot = some kind :=
    ⟨_, Array.getElem?_eq_getElem hdescriptor⟩
  refine ⟨_, _, _, write_of_kind? hframe hkind generation value, ?_, ?_⟩
  · simp [cells, List.map_set]
  · simp

end Frame

def Machine.locals (machine : Machine) : Locals :=
  { cells := machine.frame.cells, depth := machine.depth }

/-- A context of the evaluation and, for the reference, the bounds that the context does not fix. -/
structure Setting where
  lead : Lead
  context : Context
  slots : Nat
  allowed : Nat
  covers : lead.Covers context.options.osrThreshold context.fuel allowed

def Setting.plain (setting : Setting) : Reference.Context :=
  { arguments := setting.context.arguments
    maxDepth := setting.context.options.maxDepth
    slots := setting.slots
    ids := setting.context.registry.ids
    flags := setting.context.flags.map Flag.get
    fuel := setting.allowed }

/-- Once the leading side ends, both give the same result and leave matching states. -/
def Simulates {α : Type} (setting : Setting) (action : Eval α) (plain : Run α) : Prop :=
  ∀ machine : Machine, machine.target.Sound setting.context.registry setting.slots →
    setting.lead.pick (action setting.context machine).1 (plain setting.plain machine.locals).1 ≠
        .error .outOfFuel →
      plain setting.plain machine.locals =
          ((action setting.context machine).1, (action setting.context machine).2.locals) ∧
        (action setting.context machine).2.target.Sound setting.context.registry setting.slots

namespace Simulates

variable {α β : Type} {setting : Setting}

theorem pure (value : α) : Simulates setting (pure value) (pure value) :=
  fun _ hsound _ => ⟨rfl, hsound⟩

theorem raise (fault : Fault) :
    Simulates setting (Eval.raise fault : Eval α) (Run.raise fault) :=
  fun _ hsound _ => ⟨rfl, hsound⟩

theorem bind {action : Eval α} {plain : Run α} {next : α → Eval β} {plainNext : α → Run β}
    (haction : Simulates setting action plain)
    (hnext : ∀ value, Simulates setting (next value) (plainNext value)) :
    Simulates setting (action >>= next) (plain >>= plainNext) := by
  intro machine hsound hends
  -- A side that ends after the continuation has ended before it.
  have hfirst : setting.lead.pick (action setting.context machine).1
      (plain setting.plain machine.locals).1 ≠ .error .outOfFuel := by
    revert hends
    cases setting.lead with
    | adaptive => exact Eval.ne_outOfFuel_of_bind
    | reference => exact Run.ne_outOfFuel_of_bind
  obtain ⟨hplain, hafter⟩ := haction machine hsound hfirst
  simp only [Run.bind_apply, Eval.bind_apply, hplain] at hends ⊢
  generalize action setting.context machine = run at hends hafter ⊢
  rcases run with ⟨fault | value, after⟩
  · exact ⟨rfl, hafter⟩
  · exact hnext value after hafter hends

theorem context_bind {next : Context → Eval β} {plainNext : Reference.Context → Run β}
    (hnext : Simulates setting (next setting.context) (plainNext setting.plain)) :
    Simulates setting (Eval.context >>= next) (Run.context >>= plainNext) :=
  hnext

theorem nested {body : Eval α} {plain : Run α} (hbody : Simulates setting body plain) :
    Simulates setting (Eval.nested body) (Run.nested plain) := by
  intro machine hsound hends
  by_cases hdeep : setting.context.options.maxDepth ≤ machine.depth
  · have hplainDeep : setting.plain.maxDepth ≤ machine.locals.depth := hdeep
    unfold Eval.nested Run.nested
    rw [if_pos hdeep, if_pos hplainDeep]
    exact ⟨rfl, hsound⟩
  · have hplainDeep : ¬setting.plain.maxDepth ≤ machine.locals.depth := hdeep
    rw [Eval.nested_fst hdeep, Run.nested_fst hplainDeep] at hends
    obtain ⟨hplain, hafter⟩ := hbody { machine with depth := machine.depth + 1 } hsound hends
    have hinner : plain setting.plain { machine.locals with depth := machine.locals.depth + 1 } =
        plain setting.plain { machine with depth := machine.depth + 1 }.locals := rfl
    unfold Eval.nested Run.nested
    rw [if_neg hdeep, if_neg hplainDeep, hinner, hplain]
    generalize body setting.context { machine with depth := machine.depth + 1 } = run at hafter ⊢
    rcases run with ⟨fault | value, after⟩
    · cases fault <;> exact ⟨rfl, hafter⟩
    · exact ⟨rfl, hafter⟩

theorem ofExcept (result : Except RuntimeError α) :
    Simulates setting (Eval.ofExcept result) (Run.ofExcept result) := by
  cases result with
  | ok value => exact pure value
  | error error => exact raise (.runtime error)

theorem expectBool (value : Value) :
    Simulates setting (Eval.expectBool value) (Run.expect Value.bool? .notABoolean value) := by
  cases value with
  | bool truth => exact pure truth
  | _ => exact raise _

theorem expectIndex (value : Value) :
    Simulates setting (Eval.expectIndex value) (Run.expect Value.int? .notAnIndex value) := by
  cases value with
  | int index => exact pure index
  | _ => exact raise _

theorem expectArray (value : Value) :
    Simulates setting (Eval.expectArray value) (Run.expect Value.array? .notAnArray value) := by
  cases value with
  | array items => exact pure items
  | _ => exact raise _

theorem argument (index : Nat) : Simulates setting (Eval.argument index) (Run.argument index) := by
  intro machine hsound _
  have harguments : setting.plain.arguments = setting.context.arguments := rfl
  unfold Eval.argument Run.argument
  rw [harguments]
  cases setting.context.arguments[index]? <;> exact ⟨rfl, hsound⟩

theorem read (slot : Nat) (expect : Expectation) :
    Simulates setting (Eval.read slot expect) (Run.read slot expect) := by
  intro machine hsound _
  have hcells : machine.locals.cells = machine.frame.cells := rfl
  unfold Eval.read Run.read Frame.read
  rw [hcells, Frame.getElem?_cells, Frame.length_cells]
  cases machine.frame.slot? slot with
  | none => exact ⟨rfl, hsound⟩
  | some stored =>
      dsimp only [Option.map_some]
      cases stored.value? with
      | none => exact ⟨rfl, hsound⟩
      | some value =>
          dsimp only
          cases value.coerce expect <;> exact ⟨rfl, hsound⟩

theorem write (slot : Nat) (value : Value) :
    Simulates setting (Eval.write slot value) (Run.write slot value) := by
  intro machine hsound _
  have hcells : machine.locals.cells = machine.frame.cells := rfl
  have hslots : setting.plain.slots = machine.target.descriptor.size := hsound.sized.symm
  unfold Eval.write Run.write
  rw [hcells, Frame.length_cells, hslots]
  by_cases hinside : slot < machine.frame.size ∧ slot < machine.target.descriptor.size
  · obtain ⟨frame, descriptor, generation, hwrite, hframe, hsize⟩ :=
      Frame.write_of_lt hinside.1 hinside.2 machine.target.generation value
    rw [if_pos hinside, hwrite]
    refine ⟨?_, { hsound with sized := hsize.trans hsound.sized }⟩
    simp only [Machine.locals, hframe]
  · rw [if_neg hinside, Frame.write_of_not_lt hinside]
    exact ⟨rfl, hsound⟩

theorem arith (site : SiteId) (op : ArithmeticOp) (left right : Value) :
    Simulates setting (Eval.arith site op left right) (Run.ofExcept (op.combine left right)) := by
  intro machine hsound hends
  unfold Eval.arith at *
  dsimp only at *
  rw [ArithmeticSite.evaluate_fst] at *
  refine ofExcept (op.combine left right) ⟨machine.frame, machine.depth, _, _⟩ ?_ hends
  exact ⟨hsound.sized, hsound.behind, hsound.fresh, hsound.readersFit⟩

theorem resolve (site : SiteId) (name : String) :
    Simulates setting (Eval.resolve site name)
      (Run.context >>= fun context => Pure.pure context.ids[name]?) := by
  intro machine hsound _
  have hid := hsound.fresh.resolve_fst (machine.sites.nameAt site) name
  have hfresh := hsound.fresh.resolve_snd (machine.sites.nameAt site) name
  unfold Eval.resolve
  dsimp only
  rw [hid]
  refine ⟨rfl, { hsound with behind := ?_, fresh := hfresh }⟩
  dsimp only
  rw [Registry.generation_resolve]
  exact Nat.max_le.mpr ⟨hsound.behind, Nat.le_refl _⟩

theorem element (site : SiteId) (array : ArrayValue) (index : Int64) :
    Simulates setting (Eval.element site array index) (Run.item array index) := by
  intro machine hsound _
  have hitem := hsound.readersFit.get_fst (machine.sites.elementAt site) array index
  have hfit := hsound.readersFit.get_snd (machine.sites.elementAt site) array index
  unfold Eval.element Run.item
  dsimp only
  rw [hitem]
  exact ⟨rfl, { hsound with readersFit := hfit }⟩

theorem enterOsr_bind {next : Unit → Eval β} {plain : Run β}
    (hnext : Simulates setting (next ()) plain) :
    Simulates setting (Eval.enterOsr >>= next) plain := by
  intro machine hsound hends
  refine hnext ⟨machine.frame, machine.depth, _, machine.sites⟩ ?_ hends
  exact ⟨hsound.sized, hsound.behind, hsound.fresh, hsound.readersFit⟩

theorem loopStep {condition : Eval Value} {plainCondition : Run Value} {body : Eval Flow}
    {plainBody : Run Flow} (hcondition : Simulates setting condition plainCondition)
    (hbody : Simulates setting body plainBody) :
    Simulates setting (loopStep condition body) (Reference.loopStep plainCondition plainBody) := by
  refine bind hcondition fun value => bind (expectBool value) fun entered => ?_
  cases entered with
  | false => exact pure _
  | true =>
      refine bind hbody fun flow => ?_
      cases flow with
      | normal => exact pure _
      | ret value => exact pure _

section Loops

variable {step : Eval Progress} {plainStep : Run Progress}

theorem runFor (hstep : Simulates setting step plainStep) (budget : Nat) :
    Simulates setting (runFor step budget) (Reference.runFor plainStep budget) := by
  induction budget with
  | zero => exact pure _
  | succ budget ih =>
      refine bind hstep fun progress => ?_
      cases progress with
      | running => exact ih
      | done flow => exact pure _

/-- A leading side that is out of fuel leaves nothing to show. -/
theorem outOfFuel_left (hlead : setting.lead = .adaptive) (plain : Run α) :
    Simulates setting (Eval.raise .outOfFuel) plain := by
  intro machine _ hends
  rw [hlead] at hends
  exact absurd rfl hends

theorem outOfFuel_right (hlead : setting.lead = .reference) (action : Eval α) :
    Simulates setting action (Run.raise .outOfFuel) := by
  intro machine _ hends
  rw [hlead] at hends
  exact absurd rfl hends

theorem runToEnd (hstep : Simulates setting step plainStep) (fuel : Nat) :
    ∀ allowed, setting.lead.Covers 0 fuel allowed →
      Simulates setting (runToEnd step fuel) (Reference.iterate plainStep allowed) := by
  induction fuel with
  | zero =>
      intro allowed hcovers
      rcases hcovers.eq_adaptive_or_eq_zero with hlead | rfl
      · exact outOfFuel_left hlead _
      · exact raise .outOfFuel
  | succ fuel ih =>
      intro allowed hcovers
      cases allowed with
      | zero => exact outOfFuel_right (hcovers.eq_reference (by omega)) _
      | succ allowed =>
          refine bind hstep fun progress => ?_
          cases progress with
          | running => exact ih allowed hcovers.of_succ_fuel
          | done flow => exact pure _

/-- The hand-over of a running loop is invisible: the iterations before it count like those after
it. -/
theorem handOver (hstep : Simulates setting step plainStep) (threshold : Nat) :
    ∀ allowed, setting.lead.Covers threshold setting.context.fuel allowed →
      Simulates setting
        (AdaptiveEval.runFor step threshold >>= fun progress =>
          match progress with
          | .done flow => Pure.pure flow
          | .running => do
              Eval.enterOsr
              AdaptiveEval.runToEnd step setting.context.fuel)
        (Reference.iterate plainStep allowed) := by
  induction threshold with
  | zero =>
      intro allowed hcovers
      rw [AdaptiveEval.runFor, pure_bind]
      exact enterOsr_bind (runToEnd hstep setting.context.fuel allowed hcovers)
  | succ threshold ih =>
      intro allowed hcovers
      cases allowed with
      | zero => exact outOfFuel_right (hcovers.eq_reference (by omega)) _
      | succ allowed =>
          rw [AdaptiveEval.runFor, bind_assoc]
          refine bind hstep fun progress => ?_
          cases progress with
          | running => exact ih allowed hcovers.of_succ_threshold
          | done flow => exact pure flow

theorem executeLoop (hstep : Simulates setting step plainStep) :
    Simulates setting (executeLoop step) (Reference.executeLoop plainStep) :=
  context_bind (handOver hstep setting.context.options.osrThreshold setting.allowed setting.covers)

theorem runLoop (hstep : Simulates setting step plainStep) (budget : Option Nat) :
    Simulates setting (runLoop step budget) (Reference.runLoop plainStep budget) := by
  cases budget with
  | some budget => exact runFor hstep budget
  | none =>
      have hcovers := setting.covers.without_threshold
      exact bind (runToEnd hstep setting.context.fuel setting.allowed hcovers) fun flow => pure _

end Loops

theorem eval (expr : Expr SiteId) : Simulates setting expr.eval (Reference.eval expr) := by
  induction expr with
  | const value =>
      rw [Expr.eval, Reference.eval]
      exact nested (pure value)
  | arg index =>
      rw [Expr.eval, Reference.eval]
      exact nested (argument index)
  | read slot expect =>
      rw [Expr.eval, Reference.eval]
      exact nested (read slot expect)
  | arith site op left right ihleft ihright =>
      rw [Expr.eval, Reference.eval]
      exact nested (bind ihleft fun left => bind ihright fun right => arith site op left right)
  | compare op left right ihleft ihright =>
      rw [Expr.eval, Reference.eval]
      exact nested (bind ihleft fun left => bind ihright fun right =>
        bind (ofExcept (op.holds left right)) fun holds => pure _)
  | conditional condition accept reject ihcondition ihaccept ihreject =>
      rw [Expr.eval, Reference.eval]
      refine nested (bind ihcondition fun value => bind (expectBool value) fun accepted => ?_)
      cases accepted with
      | true => exact ihaccept
      | false => exact ihreject
  | resolve site name =>
      rw [Expr.eval, Reference.eval]
      exact nested (bind (resolve site name) fun id => pure _)
  | element site array index iharray ihindex =>
      rw [Expr.eval, Reference.eval]
      refine nested (bind iharray fun value => bind (expectArray value) fun array =>
        bind ihindex fun value => bind (expectIndex value) fun index =>
        bind (element site array index) fun item => ?_)
      cases item with
      | some value => exact pure value
      | none => exact raise _
  | length array iharray =>
      rw [Expr.eval, Reference.eval]
      exact nested (bind iharray fun value => bind (expectArray value) fun array => pure _)
  | format template argument ihargument =>
      rw [Expr.eval, Reference.eval]
      exact nested (bind ihargument fun value => pure _)
  | flag id =>
      rw [Expr.eval, Reference.eval]
      refine nested (context_bind ?_)
      have hflag : setting.plain.flags.getD id false = setting.context.flag id := by
        simp [Setting.plain, Context.flag, Array.getD_eq_getD_getElem?]
      rw [hflag]
      exact pure _

mutual

theorem exec : ∀ stmt : Stmt SiteId, Simulates setting stmt.exec (Reference.exec stmt)
  | .block body => by
      rw [Stmt.exec, Reference.exec]
      exact nested (execAll body)
  | .write slot value => by
      rw [Stmt.exec, Reference.exec]
      exact nested (bind (eval value) fun value => bind (write slot value) fun _ => pure _)
  | .loop condition body => by
      rw [Stmt.exec, Reference.exec]
      exact nested (executeLoop (loopStep (eval condition) (exec body)))
  | .ret value => by
      rw [Stmt.exec, Reference.exec]
      exact nested (bind (eval value) fun value => pure _)
  | .eval value => by
      rw [Stmt.exec, Reference.exec]
      exact nested (bind (eval value) fun _ => pure _)

theorem execAll : ∀ body : List (Stmt SiteId),
    Simulates setting (execAll body) (Reference.execAll body)
  | [] => by
      rw [AdaptiveEval.execAll, Reference.execAll]
      exact pure _
  | stmt :: rest => by
      rw [AdaptiveEval.execAll, Reference.execAll]
      refine bind (exec stmt) fun flow => ?_
      cases flow with
      | normal => exact execAll rest
      | ret value => exact pure _

end

theorem run (root : Root SiteId) :
    Simulates setting root.run (Reference.runBody root.body) := by
  unfold Root.run Reference.runBody
  cases root.body with
  | expr node => exact eval node
  | stmt node =>
      refine bind (exec node) fun flow => ?_
      cases flow <;> exact pure _

end Simulates

end AdaptiveEval
