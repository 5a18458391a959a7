import AdaptiveEval.Proofs.Specialization.Decisions
import Mathlib.Algebra.Group.Action.Defs
import Mathlib.Algebra.Order.BigOperators.Group.List
import Mathlib.Algebra.Order.Ring.Nat
import Mathlib.Data.List.Nodup
import Mathlib.Data.List.Pairwise

/-!
# Moments

The decisions of one graph as they stand at a moment of a run. Sets of variants and slot kinds only
grow, and what they weigh bounds the generation, which therefore tells any two moments apart that
differ in a decision.
-/

namespace AdaptiveEval

structure Moment where
  generation : Nat
  /-- The variants that each arithmetic node has recorded. -/
  seen : List VariantSet
  kinds : List SlotKind
  deriving DecidableEq

/-- The part of a snapshot that belongs to the graph with the given arithmetic sites. -/
def Snapshot.moment (snapshot : Snapshot) (sites : List SiteId) : Moment :=
  { generation := snapshot.generation
    seen := sites.map snapshot.seen
    kinds := snapshot.kinds }

theorem sum_map_set {α : Type} (measure : α → Nat) {items : List α} {index : Nat} {old : α}
    (hold : items[index]? = some old) (new : α) :
    ((items.set index new).map measure).sum + measure old =
      (items.map measure).sum + measure new := by
  induction items generalizing index with
  | nil => simp at hold
  | cons item rest ih =>
      cases index with
      | zero =>
          obtain rfl : item = old := by simpa using hold
          simp only [List.set_cons_zero, List.map_cons, List.sum_cons]
          omega
      | succ index =>
          have hrest : rest[index]? = some old := by simpa using hold
          have hsum := ih hrest
          simp only [List.set_cons_succ, List.map_cons, List.sum_cons]
          omega

theorem sum_size_insert {sets : List VariantSet} {node : Nat} {seen : VariantSet}
    {variant : Variant} (hseen : sets[node]? = some seen) (hnew : seen.contains variant = false) :
    ((sets.set node (seen.insert variant)).map VariantSet.size).sum =
      (sets.map VariantSet.size).sum + 1 := by
  have hsum := sum_map_set VariantSet.size hseen (seen.insert variant)
  have hsize : (seen.insert variant).size = seen.size + 1 := by
    rw [VariantSet.size_insert, hnew]
    rfl
  omega

theorem SlotKind.rank_le (kind : SlotKind) : kind.rank ≤ 2 := by
  cases kind <;> decide

/-- How many slots have another kind than before. -/
def changedSlots (before after : List SlotKind) : Nat :=
  (before.zip after).countP fun (old, new) => decide (old ≠ new)

theorem changedSlots_cons (old new : SlotKind) (before after : List SlotKind) :
    changedSlots (old :: before) (new :: after) =
      changedSlots before after + if old ≠ new then 1 else 0 := by
  simp [changedSlots, List.countP_cons]

theorem changedSlots_self (kinds : List SlotKind) : changedSlots kinds kinds = 0 := by
  induction kinds with
  | nil => rfl
  | cons kind rest ih => simp [changedSlots_cons, ih]

theorem changedSlots_set {kinds : List SlotKind} {slot : Nat} {held wider : SlotKind}
    (hheld : kinds[slot]? = some held) (hne : held ≠ wider) :
    changedSlots kinds (kinds.set slot wider) = 1 := by
  induction kinds generalizing slot with
  | nil => simp at hheld
  | cons kind rest ih =>
      cases slot with
      | zero =>
          obtain rfl : kind = held := by simpa using hheld
          simp [changedSlots_cons, changedSlots_self, hne]
      | succ slot =>
          have hrest : rest[slot]? = some held := by simpa using hheld
          simp [changedSlots_cons, ih hrest]

namespace Moment

/-- All variants that the arithmetic nodes have recorded. -/
def recorded (moment : Moment) : Nat :=
  (moment.seen.map VariantSet.size).sum

/-- A measure of all decisions, which grows with each of them. -/
def weight (moment : Moment) : Nat :=
  moment.recorded + (moment.kinds.map SlotKind.rank).sum

theorem weight_le (moment : Moment) :
    moment.weight ≤ 4 * moment.seen.length + 2 * moment.kinds.length := by
  have hseen : (moment.seen.map VariantSet.size).sum ≤ _ :=
    List.sum_le_card_nsmul _ 4 (by simpa using fun seen _ => VariantSet.size_le seen)
  have hkinds : (moment.kinds.map SlotKind.rank).sum ≤ _ :=
    List.sum_le_card_nsmul _ 2 (by simpa using fun kind _ => SlotKind.rank_le kind)
  simp only [List.length_map, smul_eq_mul] at hseen hkinds
  unfold weight recorded
  omega

/-- Nothing is decided for a new graph. -/
def blank (nodes slots : Nat) : Moment :=
  { generation := 0
    seen := List.replicate nodes .empty
    kinds := List.replicate slots .uninitialized }

theorem recorded_blank (nodes slots : Nat) : (blank nodes slots).recorded = 0 := by
  simp [recorded, blank, VariantSet.empty, VariantSet.size]

theorem weight_blank (nodes slots : Nat) : (blank nodes slots).weight = 0 := by
  rw [weight, recorded_blank]
  simp [blank, SlotKind.rank]

/-- The kind changes between the first moment of a run and its last. -/
def kindChanges : List Moment → Nat
  | before :: after :: rest => changedSlots before.kinds after.kinds + kindChanges (after :: rest)
  | _ => 0

/-- One step of a run: at most one decision, and the generation counts it. -/
inductive Step : Moment → Moment → Prop where
  | quiet (moment : Moment) : Step moment moment
  | variant {moment : Moment} {node : Nat} {seen : VariantSet} {variant : Variant}
      (hseen : moment.seen[node]? = some seen) (hnew : seen.contains variant = false) :
      Step moment
        { moment with
          generation := moment.generation + 1
          seen := moment.seen.set node (seen.insert variant) }
  | kind {moment : Moment} {slot : Nat} {held wider : SlotKind}
      (hheld : moment.kinds[slot]? = some held) (hwider : held.rank < wider.rank) :
      Step moment
        { moment with
          generation := moment.generation + 1
          kinds := moment.kinds.set slot wider }

/-- Where each arithmetic node has a site of its own, a decision at a site is one at a node. -/
theorem step_of_snapshot {sites : List SiteId} (hnodup : sites.Nodup) {before after : Snapshot}
    (hstep : Snapshot.Step sites before after) : Step (before.moment sites) (after.moment sites) := by
  cases hstep with
  | quiet => exact .quiet _
  | @variant site variant hsite hnew =>
      have hseen : (before.moment sites).seen[sites.idxOf site]? = some (before.seen site) := by
        simp [Snapshot.moment, List.getElem?_idxOf hsite]
      have hafter := Step.variant hseen hnew
      simpa [Snapshot.moment, hnodup.map_update, hsite] using hafter
  | kind hheld hwider => exact .kind hheld hwider

/-- How a moment relates to those before it. -/
structure Later (before after : Moment) : Prop where
  generation_le : before.generation ≤ after.generation
  /-- The weight grows at least as much as the generation. -/
  weight_add : after.generation + before.weight ≤ before.generation + after.weight
  eq_of_generation : before.generation = after.generation → before = after
  nodes : after.seen.length = before.seen.length
  slots : after.kinds.length = before.kinds.length

namespace Later

variable {before middle after : Moment}

theorem refl (moment : Moment) : Later moment moment :=
  ⟨Nat.le_refl _, Nat.le_refl _, fun _ => rfl, rfl, rfl⟩

theorem trans (hfirst : Later before middle) (hsecond : Later middle after) :
    Later before after where
  generation_le := Nat.le_trans hfirst.generation_le hsecond.generation_le
  weight_add := by
    have hbefore := hfirst.weight_add
    have hafter := hsecond.weight_add
    omega
  eq_of_generation := by
    intro heq
    have hle := hfirst.generation_le
    have hle' := hsecond.generation_le
    exact (hfirst.eq_of_generation (by omega)).trans (hsecond.eq_of_generation (by omega))
  nodes := hsecond.nodes.trans hfirst.nodes
  slots := hsecond.slots.trans hfirst.slots

/-- The generation has moved exactly when a decision has. -/
theorem generation_eq_iff (hlater : Later before after) :
    before.generation = after.generation ↔
      before.seen = after.seen ∧ before.kinds = after.kinds := by
  constructor
  · intro heq
    rw [hlater.eq_of_generation heq]
    exact ⟨rfl, rfl⟩
  · rintro ⟨hseen, hkinds⟩
    have hweight : before.weight = after.weight := by
      simp only [weight, recorded, hseen, hkinds]
    have hle := hlater.generation_le
    have hadd := hlater.weight_add
    omega

/-- A graph runs out of decisions. -/
theorem generation_le_of_blank {nodes slots : Nat} (hlater : Later (blank nodes slots) after) :
    after.generation ≤ 4 * nodes + 2 * slots := by
  have hadd := hlater.weight_add
  have hnodes := hlater.nodes
  have hslots := hlater.slots
  rw [weight_blank] at hadd
  simp only [blank, List.length_replicate] at hadd hnodes hslots
  calc after.generation ≤ after.weight := by omega
    _ ≤ 4 * after.seen.length + 2 * after.kinds.length := after.weight_le
    _ = 4 * nodes + 2 * slots := by rw [hnodes, hslots]

end Later

namespace Step

variable {before after : Moment}

/-- The generation advances by one for each new variant and for each changed kind. -/
theorem generation_add (hstep : Step before after) :
    after.generation + before.recorded =
      before.generation + after.recorded + changedSlots before.kinds after.kinds := by
  cases hstep with
  | quiet => simp [changedSlots_self]
  | variant hseen hnew =>
      simp only [changedSlots_self, recorded, sum_size_insert hseen hnew]
      omega
  | @kind slot held wider hheld hwider =>
      have hne : held ≠ wider := fun heq => absurd hwider (by simp [heq])
      simp only [changedSlots_set hheld hne, recorded]
      omega

theorem later (hstep : Step before after) : Later before after := by
  cases hstep with
  | quiet => exact .refl _
  | variant hseen hnew =>
      refine ⟨Nat.le_succ _, ?_, fun heq => ?_, by simp, rfl⟩
      · simp only [weight, recorded, sum_size_insert hseen hnew]
        omega
      · exact absurd heq (by simp)
  | @kind slot held wider hheld hwider =>
      have hsum := sum_map_set SlotKind.rank hheld wider
      refine ⟨Nat.le_succ _, ?_, fun heq => ?_, rfl, by simp⟩
      · simp only [weight, recorded]
        omega
      · exact absurd heq (by simp)

end Step

section Runs

variable {start last : Moment} {passed : List Moment}

theorem later_of_path (hpath : Path Step start passed last) : Later start last := by
  induction hpath with
  | nil start => exact .refl start
  | cons hstep _ ih => exact hstep.later.trans ih

theorem pairwise_later (hpath : Path Step start passed last) :
    (start :: passed).Pairwise Later := by
  induction hpath with
  | nil start => exact List.pairwise_singleton _ _
  | @cons start next last rest hstep _ ih =>
      refine List.pairwise_cons.mpr ⟨?_, ih⟩
      intro moment hmoment
      obtain rfl | hrest := List.mem_cons.mp hmoment
      · exact hstep.later
      · exact hstep.later.trans ((List.pairwise_cons.mp ih).1 moment hrest)

/-- Of any two moments of a run one is the later. -/
theorem later_or_later (hpath : Path Step start passed last) {one other : Moment}
    (hone : one ∈ start :: passed) (hother : other ∈ start :: passed) :
    Later one other ∨ Later other one := by
  have hpairs : (start :: passed).Pairwise fun one other => Later one other ∨ Later other one :=
    (pairwise_later hpath).imp fun hlater => Or.inl hlater
  have hsymm : Std.Symm fun one other => Later one other ∨ Later other one :=
    ⟨fun _ _ => Or.symm⟩
  by_cases heq : one = other
  · subst heq
    exact Or.inl (.refl one)
  · exact hpairs.forall hone hother heq

/-- The generation counts the variants and the kind changes up to each moment of a run. -/
theorem generation_add_of_path (hpath : Path Step start passed last) :
    ∀ {earlier later : List Moment} {now : Moment}, start :: passed = earlier ++ now :: later →
      now.generation + start.recorded =
        start.generation + now.recorded + kindChanges (earlier ++ [now]) := by
  induction hpath with
  | nil start =>
      intro earlier later now hsplit
      obtain ⟨rfl, rfl, -⟩ : earlier = [] ∧ now = start ∧ later = [] := by
        simpa [List.cons_eq_append_iff] using hsplit
      rfl
  | @cons start next last rest hstep _ ih =>
      -- The moments after the start split at the same place, unless the start itself is meant.
      intro earlier later now hsplit
      cases earlier with
      | nil =>
          obtain ⟨rfl, -⟩ := List.cons.inj hsplit
          rfl
      | cons first earlier =>
          obtain ⟨rfl, htail⟩ := List.cons.inj hsplit
          have hrest := ih htail
          have hadd := hstep.generation_add
          have hchanges : kindChanges (start :: earlier ++ [now]) =
              changedSlots start.kinds next.kinds + kindChanges (earlier ++ [now]) := by
            cases earlier with
            | nil =>
                obtain ⟨rfl, -⟩ := List.cons.inj htail
                rfl
            | cons second earlier =>
                obtain ⟨rfl, -⟩ := List.cons.inj htail
                rfl
          omega

end Runs

end Moment

end AdaptiveEval
