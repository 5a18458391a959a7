import AdaptiveEval.Proofs.Composition
import AdaptiveEval.Proofs.Reference.Simulation
import Mathlib.Logic.Function.Basic

/-!
# Decisions and the generation

A body decides something when a site meets a new variant or a slot needs a wider kind. Every step of
an evaluation takes one decision and advances the generation by one, or does neither.
-/

namespace AdaptiveEval

/-- A sequence of steps, with what it passes after the start. -/
inductive Path {α : Type} (step : α → α → Prop) : α → List α → α → Prop where
  | nil (start : α) : Path step start [] start
  | cons {start next last : α} {rest : List α} (hstep : step start next)
      (hrest : Path step next rest last) : Path step start (next :: rest) last

namespace Path

variable {α β : Type} {step : α → α → Prop} {start middle last : α} {passed rest : List α}

theorem append (hpath : Path step start passed middle) (hrest : Path step middle rest last) :
    Path step start (passed ++ rest) last := by
  induction hpath with
  | nil start => exact hrest
  | cons hstep _ ih => exact .cons hstep (ih hrest)

theorem single (hstep : step start last) : Path step start [last] last :=
  .cons hstep (.nil last)

theorem map {other : β → β → Prop} {view : α → β}
    (hview : ∀ before after, step before after → other (view before) (view after))
    (hpath : Path step start passed last) :
    Path other (view start) (passed.map view) (view last) := by
  induction hpath with
  | nil start => exact .nil _
  | cons hstep _ ih => exact .cons (hview _ _ hstep) ih

end Path

/-- What has been decided for a graph, and the generation that counts the decisions. -/
structure Snapshot where
  generation : Nat
  seen : SiteId → VariantSet
  kinds : List SlotKind

def Machine.snapshot (machine : Machine) : Snapshot :=
  { generation := machine.target.generation
    seen := fun site => (machine.sites.arithmeticAt site).seen
    kinds := machine.target.descriptor.kinds.toList }

theorem Machine.snapshot_insert (machine : Machine) (site : SiteId) (state : ArithmeticSite)
    (generation : Nat) :
    ({ machine with
        target := { machine.target with generation }
        sites := { machine.sites with
          arithmetic := machine.sites.arithmetic.insert site state } } : Machine).snapshot =
      { machine.snapshot with
        generation
        seen := Function.update machine.snapshot.seen site state.seen } := by
  simp only [Machine.snapshot, Snapshot.mk.injEq, true_and, and_true]
  funext other
  by_cases hother : other = site
  · subst hother
    simp [Sites.arithmeticAt]
  · rw [Function.update_of_ne hother, Sites.arithmeticAt, Std.HashMap.getD_insert,
      if_neg (by simpa using Ne.symm hother)]
    rfl

/-- One step of an evaluation whose arithmetic nodes have the given sites. -/
inductive Snapshot.Step (sites : List SiteId) : Snapshot → Snapshot → Prop where
  | quiet (snapshot : Snapshot) : Step sites snapshot snapshot
  | variant {snapshot : Snapshot} {site : SiteId} {variant : Variant} (hsite : site ∈ sites)
      (hnew : (snapshot.seen site).contains variant = false) :
      Step sites snapshot
        { snapshot with
          generation := snapshot.generation + 1
          seen := Function.update snapshot.seen site ((snapshot.seen site).insert variant) }
  | kind {snapshot : Snapshot} {slot : Nat} {held wider : SlotKind}
      (hheld : snapshot.kinds[slot]? = some held) (hwider : held.rank < wider.rank) :
      Step sites snapshot
        { snapshot with
          generation := snapshot.generation + 1
          kinds := snapshot.kinds.set slot wider }

theorem Snapshot.seen_of_path {sites : List SiteId} {start last : Snapshot}
    {passed : List Snapshot} (hpath : Path (Step sites) start passed last) {site : SiteId}
    (hsite : site ∉ sites) : last.seen site = start.seen site := by
  induction hpath with
  | nil => rfl
  | cons hstep _ ih =>
      rw [ih]
      cases hstep with
      | quiet => rfl
      | variant hother hnew =>
          refine Function.update_of_ne ?_ _ _
          rintro rfl
          exact hsite hother
      | kind hheld hwider => rfl

theorem VariantSet.insert_of_contains {seen : VariantSet} {variant : Variant}
    (hcontains : seen.contains variant = true) : seen.insert variant = seen := by
  obtain ⟨int, float, undefinedLeft, undefinedRight⟩ := seen
  cases variant <;> simp_all [contains, insert]

/-- Everything that an arithmetic site can do: nothing, or record a variant that is new to it. -/
theorem ArithmeticSite.evaluate_cases (site : ArithmeticSite) (op : ArithmeticOp)
    (left right : Value) (generation : Nat) :
    (site.evaluate op left right generation).2 = (site, generation) ∨
      ∃ variant, site.seen.contains variant = false ∧
        (site.evaluate op left right generation).2 =
          ({ seen := site.seen.insert variant }, generation + 1) := by
  unfold evaluate
  cases site.fastPath? op left right with
  | some value => exact Or.inl rfl
  | none =>
      cases Variant.select? left right with
      | none => exact Or.inl rfl
      | some variant =>
          dsimp only [observe]
          cases hseen : site.seen.contains variant with
          | true =>
              rw [VariantSet.insert_of_contains hseen]
              exact Or.inl rfl
          | false => exact Or.inr ⟨variant, hseen, rfl⟩

/-- Everything that a successful write can do to the kinds: nothing, or widen one of them. -/
theorem Frame.write_cases {frame written : Frame} {descriptor after : Descriptor}
    {generation next slot : Nat} {value : Value}
    (hwrite : frame.write descriptor generation slot value = .ok (written, after, next)) :
    (after = descriptor ∧ next = generation) ∨
      ∃ held wider, descriptor.kinds[slot]? = some held ∧ held.rank < wider.rank ∧
        after = descriptor.set slot wider ∧ next = generation + 1 := by
  unfold write at hwrite
  split at hwrite
  · rename_i _ held _ hkind
    have hheld : descriptor.kinds[slot]? = some held := hkind
    simp only [Except.ok.injEq, Prod.mk.injEq] at hwrite
    obtain ⟨-, rfl, rfl⟩ := hwrite
    unfold SlotKind.widen
    split
    · rename_i hwider
      have hne : held ≠ SlotKind.forValue value := by
        rintro rfl
        omega
      exact Or.inr ⟨held, _, hheld, hwider, rfl, by rw [if_neg hne]⟩
    · left
      obtain ⟨hlt, hget⟩ := Array.getElem?_eq_some_iff.mp hheld
      -- The kind is wide enough already, and is stored again.
      have hsame : descriptor.kinds.setIfInBounds slot held = descriptor.kinds := by
        simp [Array.setIfInBounds, hlt, ← hget]
      refine ⟨?_, by simp⟩
      rw [Descriptor.set, hsame]
  · simp at hwrite

section Steps

variable {α : Type} {sites : List SiteId} (context : Context) (machine : Machine)

theorem Snapshot.Step.write (slot : Nat) (value : Value) :
    Step sites machine.snapshot (Eval.write slot value context machine).2.snapshot := by
  unfold Eval.write
  split
  · rename_i frame descriptor generation hwrite
    obtain ⟨rfl, rfl⟩ | ⟨held, wider, hheld, hwider, rfl, rfl⟩ := Frame.write_cases hwrite
    · exact .quiet _
    · have hkinds : machine.snapshot.kinds[slot]? = some held := by
        simpa [Machine.snapshot] using hheld
      have hafter : Step sites machine.snapshot _ := .kind hkinds hwider
      simpa [Machine.snapshot, Descriptor.set] using hafter
  · exact .quiet _

theorem Snapshot.Step.arith {site : SiteId} (hsite : site ∈ sites) (op : ArithmeticOp)
    (left right : Value) :
    Step sites machine.snapshot (Eval.arith site op left right context machine).2.snapshot := by
  have hcases :=
    (machine.sites.arithmeticAt site).evaluate_cases op left right machine.target.generation
  unfold Eval.arith
  generalize (machine.sites.arithmeticAt site).evaluate op left right machine.target.generation =
    outcome at hcases ⊢
  obtain ⟨result, state, generation⟩ := outcome
  dsimp only at hcases ⊢
  rw [Eval.ofExcept_snd, Machine.snapshot_insert]
  obtain hsame | ⟨variant, hnew, hafter⟩ := hcases
  · obtain ⟨rfl, rfl⟩ := Prod.mk.inj hsame
    have hkept : Function.update machine.snapshot.seen site (machine.sites.arithmeticAt site).seen =
        machine.snapshot.seen := Function.update_eq_self site _
    rw [hkept]
    exact .quiet _
  · obtain ⟨rfl, rfl⟩ := Prod.mk.inj hafter
    exact .variant hsite hnew

/-- Whatever a step decides, it decides at one of its sites or in the frame. -/
theorem Snapshot.Step.of_primitive {sites : SiteSets} {action : Eval α}
    (hprimitive : Eval.Primitive sites action) :
    Step sites.arithmetic machine.snapshot (action context machine).2.snapshot := by
  cases hprimitive with
  | look hlooks =>
      rw [hlooks.snd_eq]
      exact .quiet _
  | write slot value => exact .write context machine slot value
  | arith hsite op left right => exact .arith context machine hsite op left right
  | resolve hsite name => exact .quiet _
  | element hsite array index => exact .quiet _

end Steps

/-- A traced evaluation is the evaluation, and each of its steps is accounted for. -/
structure Traced.Follows {α : Type} (sites : List SiteId) (traced : Traced α) (action : Eval α) :
    Prop where
  action_eq : traced.action = action
  path : ∀ (context : Context) (machine : Machine),
    Path (Snapshot.Step sites) machine.snapshot
      ((traced.passed context machine).map Machine.snapshot)
      (traced.action context machine).2.snapshot

namespace Traced.Follows

variable {α β : Type} {sites : List SiteId}

theorem pure (value : α) : Follows sites (Pure.pure value) (Pure.pure value) where
  action_eq := rfl
  path _ machine := .nil machine.snapshot

theorem step {action : Eval α}
    (hstep : ∀ context machine,
      Snapshot.Step sites machine.snapshot (action context machine).2.snapshot) :
    Follows sites (step action) action where
  action_eq := rfl
  path context machine := .single (hstep context machine)

theorem bind {traced : Traced α} {action : Eval α} {next : α → Traced β} {after : α → Eval β}
    (htraced : Follows sites traced action)
    (hnext : ∀ value, Follows sites (next value) (after value)) :
    Follows sites (traced >>= next) (action >>= after) where
  action_eq := by
    change traced.action >>= (fun value => (next value).action) = _
    rw [htraced.action_eq]
    congr 1
    funext value
    exact (hnext value).action_eq
  path context machine := by
    have hfirst := htraced.path context machine
    change Path _ _ ((traced.passed context machine ++ _).map _)
      ((traced.action >>= fun value => (next value).action) context machine).2.snapshot
    rw [Eval.bind_apply, List.map_append]
    generalize traced.action context machine = run at hfirst ⊢
    rcases run with ⟨fault | value, reached⟩
    -- A fault ends the path where the first part left the machine.
    · exact hfirst.append (.nil _)
    · exact hfirst.append ((hnext value).path context reached)

theorem nested {traced : Traced α} {action : Eval α} (htraced : Follows sites traced action) :
    Follows sites (nested traced) (Eval.nested action) where
  action_eq := congrArg Eval.nested htraced.action_eq
  path context machine := by
    have hbody := htraced.path context { machine with depth := machine.depth + 1 }
    change Path _ _ (List.map _ (if _ then _ else _))
      (Eval.nested traced.action context machine).2.snapshot
    unfold Eval.nested
    split
    · exact .nil _
    -- The depth is no part of a snapshot, so neither entering nor leaving the level shows.
    · generalize traced.action context { machine with depth := machine.depth + 1 } = run at hbody ⊢
      rcases run with ⟨fault | value, reached⟩
      · cases fault <;> exact hbody
      · exact hbody

theorem of_composed {sites : SiteSets} {loops : Prop} {height : Nat} {traced : Traced α}
    {action : Eval α} (hcomposed : Eval.Composed sites loops height traced action) :
    Follows sites.arithmetic traced action := by
  induction hcomposed with
  | pure height value => exact pure value
  | step height hprimitive =>
      exact step fun context machine => .of_primitive context machine hprimitive
  | bind _ _ ihaction ihnext => exact bind ihaction ihnext
  | nested _ ih => exact nested ih
  | bounded hloops _ ih =>
      exact bind (step fun _ _ => .quiet _) fun context =>
        ih context.options.osrThreshold context.fuel
  | outOfFuel height hloops => exact step fun _ _ => .quiet _
  | enterOsr height hloops => exact step fun _ _ => .quiet _

/-- What a body decides, it decides at its own arithmetic sites or in the frame. -/
theorem run (root : Root SiteId) : Follows root.arithmeticSites root.traced root.run :=
  of_composed (.run trivial root)

/-- What is driven by hand decides at its own sites, too. -/
theorem node (node : Node) : ∃ traced, Follows node.arithmeticSites traced node.run := by
  obtain ⟨traced, hcomposed⟩ := Eval.Composed.node trivial node
  exact ⟨traced, of_composed hcomposed⟩

theorem seen_eq {traced : Traced α} {action : Eval α}
    (hfollows : Follows sites traced action) {site : SiteId} (hsite : site ∉ sites)
    (context : Context) (machine : Machine) :
    ((action context machine).2.sites.arithmeticAt site).seen =
      (machine.sites.arithmeticAt site).seen := by
  have hpath := hfollows.path context machine
  rw [hfollows.action_eq] at hpath
  exact Snapshot.seen_of_path hpath hsite

end Traced.Follows

end AdaptiveEval
