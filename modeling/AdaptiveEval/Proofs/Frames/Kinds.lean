import AdaptiveEval.Proofs.Frames.Contents
import Mathlib.Data.Multiset.Lattice

/-!
# Kinds of slots

The kind of a slot is the least upper bound of what was ever written to it under its descriptor, in
whatever order and to whichever frames, and the code generation counts the writes that raised such a
bound. A boxed slot thus witnesses that its kind is the widest one, for as long as its frame lives.
-/

namespace AdaptiveEval

namespace SlotKind

instance : LinearOrder SlotKind :=
  LinearOrder.lift' rank fun _ _ => rank_injective

instance : OrderBot SlotKind where
  bot := .uninitialized
  bot_le kind := Nat.zero_le kind.rank

theorem widen_eq_max (kind wanted : SlotKind) : kind.widen wanted = max kind wanted := by
  cases kind <;> cases wanted <;> rfl

theorem lt_widen_iff {kind wanted : SlotKind} :
    kind < kind.widen wanted ↔ kind ≠ kind.widen wanted := by
  have hle : kind ≤ kind.widen wanted := by
    rw [widen_eq_max]
    exact le_max_left kind wanted
  exact ⟨fun hlt => hlt.ne, fun hne => lt_of_le_of_ne hle hne⟩

theorem widen_generic (wanted : SlotKind) : SlotKind.generic.widen wanted = .generic := by
  cases wanted <;> rfl

end SlotKind

/-- A kind that covers a value boxes it only if the kind is the widest one. -/
theorem Slot.widen_eq_generic_of_store {kind : SlotKind} {value held : Value}
    (hboxed : Slot.store (kind.widen (.forValue value)) value = .boxed held) :
    kind.widen (.forValue value) = .generic := by
  cases kind <;> cases value <;> first | rfl | cases hboxed

namespace FrameStore

variable {δ φ : Type}

def Step.IsWrite : Step δ φ → Prop
  | .write _ _ => True
  | _ => False

section Bounds

variable [DecidableEq δ]

/-- The kind that an event asks of a slot. -/
def Event.kindFor? (descriptor : δ) (slot : Nat) : Event δ φ → Option SlotKind
  | .written _ write =>
      if write.descriptor = descriptor ∧ write.slot = slot then some (.forValue write.value)
      else none
  | .copied _ _ => none

/-- The kinds of all values written to a slot under a descriptor. -/
def kindsWritten (events : List (Event δ φ)) (descriptor : δ) (slot : Nat) : Multiset SlotKind :=
  (events.filterMap (Event.kindFor? descriptor slot) : List SlotKind)

def widest (events : List (Event δ φ)) (descriptor : δ) (slot : Nat) : SlotKind :=
  (kindsWritten events descriptor slot).sup

/-- How many writes raised the widest kind of their slot. -/
def raises : List (Event δ φ) → Nat
  | [] => 0
  | .written frame write :: earlier =>
      raises earlier +
        if widest earlier write.descriptor write.slot <
            widest (.written frame write :: earlier) write.descriptor write.slot then 1
        else 0
  | .copied _ _ :: earlier => raises earlier

theorem widest_written (frame : φ) (write : SlotWrite δ) (earlier : List (Event δ φ))
    (descriptor : δ) (slot : Nat) :
    widest (.written frame write :: earlier) descriptor slot =
      if write.descriptor = descriptor ∧ write.slot = slot then
        (widest earlier descriptor slot).widen (.forValue write.value)
      else
        widest earlier descriptor slot := by
  unfold widest kindsWritten
  by_cases hmatch : write.descriptor = descriptor ∧ write.slot = slot
  · rw [if_pos hmatch, List.filterMap_cons_some (by simp [Event.kindFor?, hmatch]; rfl),
      ← Multiset.cons_coe, Multiset.sup_cons, SlotKind.widen_eq_max, max_comm]
  · rw [if_neg hmatch, List.filterMap_cons_none (by simp [Event.kindFor?, hmatch])]

theorem widest_copied (source copy : φ) (earlier : List (Event δ φ)) (descriptor : δ) (slot : Nat) :
    widest (.copied source copy :: earlier) descriptor slot = widest earlier descriptor slot := rfl

/-- The widest kind of all is never left again. -/
theorem widest_written_of_eq_generic {earlier : List (Event δ φ)} {descriptor : δ} {slot : Nat}
    (hgeneric : widest earlier descriptor slot = .generic) (frame : φ) (write : SlotWrite δ) :
    widest (.written frame write :: earlier) descriptor slot = .generic := by
  rw [widest_written, hgeneric, SlotKind.widen_generic, ite_self]

theorem widest_eq_of_perm {events reordered : List (Event δ φ)} (hperm : events.Perm reordered)
    (descriptor : δ) (slot : Nat) :
    widest events descriptor slot = widest reordered descriptor slot := by
  have hkinds : kindsWritten events descriptor slot = kindsWritten reordered descriptor slot :=
    Multiset.coe_eq_coe.mpr (hperm.filterMap _)
  rw [widest, hkinds, widest]

end Bounds

variable [DecidableEq δ] [DecidableEq φ]

/-- What the events say about the kinds is what the descriptors hold. -/
structure Tracked (generation : Nat) (events : List (Event δ φ)) (store : FrameStore δ φ) :
    Prop where
  kind : ∀ {descriptor slot kind}, (store.descriptors descriptor).kind? slot = some kind →
    kind = widest events descriptor slot
  generation : store.generation = generation + raises events
  boxed : ∀ {frame slot value}, (store.frames frame).slot? slot = some (.boxed value) →
    ∃ write ∈ lineage events frame, write.slot = slot ∧
      widest events write.descriptor slot = .generic

namespace Tracked

variable {generation : Nat} {earlier events : List (Event δ φ)} {store after : FrameStore δ φ}

theorem ofSizes (widths : δ → Nat) (sizes : φ → Nat) (generation : Nat) :
    Tracked generation [] (FrameStore.ofSizes widths sizes generation) where
  kind := by
    intro descriptor slot kind hkind
    simp only [FrameStore.ofSizes, Descriptor.kind?, Descriptor.ofSize,
      Array.getElem?_replicate] at hkind
    split at hkind
    · exact (Option.some.inj hkind).symm
    · simp at hkind
  generation := rfl
  boxed := by
    intro frame slot value hslot
    simp only [FrameStore.ofSizes, Frame.slot?_ofSize] at hslot
    split at hslot <;> simp at hslot

theorem accept (htracked : Tracked generation earlier store) {frame : φ} {write : SlotWrite δ}
    {kind : SlotKind} (hframe : write.slot < (store.frames frame).size)
    (hkind : (store.descriptors write.descriptor).kind? write.slot = some kind) :
    Tracked generation (.written frame write :: earlier) (store.accept frame write kind) := by
  have hheld : kind = widest earlier write.descriptor write.slot := htracked.kind hkind
  have hwidest : widest (.written frame write :: earlier) write.descriptor write.slot =
      kind.widen (.forValue write.value) := by
    rw [widest_written, if_pos ⟨rfl, rfl⟩, ← hheld]
  refine ⟨?_, ?_, ?_⟩
  · intro descriptor slot after hafter
    rw [kind?_accept hkind] at hafter
    rw [widest_written]
    split at hafter
    · rename_i hmatch
      obtain ⟨rfl, rfl⟩ := hmatch
      rw [if_pos ⟨rfl, rfl⟩, ← hheld]
      exact (Option.some.inj hafter).symm
    · rename_i hother
      rw [if_neg hother]
      exact htracked.kind hafter
  · simp only [raises, hwidest, ← hheld, SlotKind.lt_widen_iff, FrameStore.accept,
      htracked.generation]
    by_cases hsame : kind = kind.widen (.forValue write.value)
    · rw [if_pos hsame, if_neg (not_not_intro hsame), Nat.add_zero]
    · rw [if_neg hsame, if_pos hsame, Nat.add_assoc]
  · intro other slot value hslot
    rw [slot?_accept hframe] at hslot
    split at hslot
    · rename_i hmatch
      obtain ⟨rfl, rfl⟩ := hmatch
      -- The new value is boxed, so the kind has become the widest one in this very step.
      refine ⟨write, by simp [lineage], rfl, ?_⟩
      rw [hwidest]
      exact Slot.widen_eq_generic_of_store (Option.some.inj hslot)
    · obtain ⟨older, hmem, holder, hgeneric⟩ := htracked.boxed hslot
      refine ⟨older, ?_, holder, widest_written_of_eq_generic hgeneric frame write⟩
      by_cases hother : frame = other <;> simp [lineage, hother, hmem]

theorem copy (htracked : Tracked generation earlier store) (source copy : φ) :
    Tracked generation (.copied source copy :: earlier)
      { store with frames := Function.update store.frames copy (store.frames source) } where
  kind := htracked.kind
  generation := htracked.generation
  boxed := by
    intro frame slot value hslot
    by_cases hcopy : copy = frame
    · subst hcopy
      have hsource : (store.frames source).slot? slot = some (.boxed value) := by
        simpa using hslot
      simpa [lineage, widest_copied] using htracked.boxed hsource
    · have hframe : (store.frames frame).slot? slot = some (.boxed value) := by
        simpa [Function.update_of_ne (Ne.symm hcopy)] using hslot
      simpa [lineage, widest_copied, hcopy] using htracked.boxed hframe

theorem effect (htracked : Tracked generation earlier store) (heffect : store.Effect events after) :
    Tracked generation (events ++ earlier) after := by
  cases heffect with
  | none => exact htracked
  | written hframe hkind => exact htracked.accept hframe hkind
  | copied source copy => exact htracked.copy source copy

theorem run (widths : δ → Nat) (sizes : φ → Nat) (generation : Nat) (steps : List (Step δ φ)) :
    Tracked generation ((FrameStore.ofSizes widths sizes generation).history steps)
      ((FrameStore.ofSizes widths sizes generation).run steps) := by
  have hrun := run_induction (P := Tracked generation) Tracked.effect
    (Tracked.ofSizes widths sizes generation) steps
  rwa [List.append_nil] at hrun

end Tracked

theorem kind?_run (widths : δ → Nat) (sizes : φ → Nat) (generation : Nat)
    (steps : List (Step δ φ)) (descriptor : δ) (slot : Nat) :
    (((ofSizes widths sizes generation).run steps).descriptors descriptor).kind? slot =
      if slot < widths descriptor then
        some (widest ((ofSizes widths sizes generation).history steps) descriptor slot)
      else
        none := by
  have hwidth := (Kept.run widths sizes generation steps).width descriptor
  have htracked := Tracked.run widths sizes generation steps
  rw [← hwidth]
  split
  · rename_i hslot
    obtain ⟨kind, hkind⟩ : ∃ kind, (((ofSizes widths sizes generation).run steps).descriptors
        descriptor).kind? slot = some kind := ⟨_, Array.getElem?_eq_getElem hslot⟩
    rw [hkind, htracked.kind hkind]
  · rename_i hslot
    exact Array.getElem?_eq_none (Nat.le_of_not_lt hslot)

section Reordering

/-! Whether a write succeeds depends on sizes alone, and writes keep them. The history of a sequence
of writes therefore holds the same writes in every order of the sequence. -/

variable {widths : δ → Nat} {sizes : φ → Nat} {store : FrameStore δ φ} {steps : List (Step δ φ)}

/-- What a write leaves behind where descriptors and frames have the given sizes. -/
def accepted? (widths : δ → Nat) (sizes : φ → Nat) : Step δ φ → Option (Event δ φ)
  | .write frame write =>
      if write.slot < sizes frame ∧ write.slot < widths write.descriptor then
        some (.written frame write)
      else
        none
  | _ => none

theorem history_of_isWrite (hwidths : ∀ descriptor, (store.descriptors descriptor).size =
      widths descriptor) (hsizes : ∀ frame, (store.frames frame).size = sizes frame)
    (hwrites : ∀ step ∈ steps, step.IsWrite) :
    store.history steps = (steps.filterMap (accepted? widths sizes)).reverse := by
  induction steps generalizing store with
  | nil => rfl
  | cons step rest ih =>
      obtain ⟨hwrite, hrest⟩ := List.forall_mem_cons.mp hwrites
      cases step with
      | write frame write =>
          rw [history, List.filterMap_cons]
          simp only [accepted?, ← hwidths, ← hsizes]
          obtain ⟨houtside, hevents, hstep⟩ | ⟨kind, hframe, hkind, hevents, hstep⟩ :=
            store.step_write_cases frame write
          · rw [hevents, hstep, if_neg houtside, List.append_nil]
            exact ih hwidths hsizes hrest
          · have hdescriptor : write.slot < (store.descriptors write.descriptor).size :=
              (Array.getElem?_eq_some_iff.mp hkind).1
            rw [hevents, hstep, if_pos ⟨hframe, hdescriptor⟩, List.reverse_cons, ih]
            · exact fun descriptor => (size_descriptor_accept descriptor).trans (hwidths descriptor)
            · exact fun other => (size_frame_accept other).trans (hsizes other)
            · exact hrest
      | read frame slot expect => exact hwrite.elim
      | clone source copy => exact hwrite.elim

theorem descriptors_run_of_perm (widths : δ → Nat) (sizes : φ → Nat) (generation : Nat)
    {reordered : List (Step δ φ)} (hperm : reordered.Perm steps)
    (hwrites : ∀ step ∈ steps, step.IsWrite) :
    ((ofSizes widths sizes generation).run reordered).descriptors =
      ((ofSizes widths sizes generation).run steps).descriptors := by
  have hreordered : ∀ step ∈ reordered, step.IsWrite :=
    fun step hmem => hwrites step (hperm.mem_iff.mp hmem)
  have hwidths : ∀ descriptor, ((ofSizes widths sizes generation :
      FrameStore δ φ).descriptors descriptor).size = widths descriptor := by
    simp [ofSizes]
  have hsizes : ∀ frame, ((ofSizes widths sizes generation :
      FrameStore δ φ).frames frame).size = sizes frame := by
    simp [ofSizes]
  have hhistory : ((ofSizes widths sizes generation).history reordered).Perm
      ((ofSizes widths sizes generation).history steps) := by
    rw [history_of_isWrite hwidths hsizes hreordered, history_of_isWrite hwidths hsizes hwrites]
    exact (List.reverse_perm _).trans ((hperm.filterMap _).trans (List.reverse_perm _).symm)
  funext descriptor
  have hkinds : ∀ slot, (((ofSizes widths sizes generation).run reordered).descriptors
      descriptor).kind? slot =
        (((ofSizes widths sizes generation).run steps).descriptors descriptor).kind? slot := by
    intro slot
    rw [kind?_run, kind?_run, widest_eq_of_perm hhistory]
  exact congrArg Descriptor.mk (Array.ext_getElem? hkinds)

end Reordering

/-- **Kinds are the least upper bounds of what was written.** After every sequence of writes under
any descriptors, reads and copies, each slot of a descriptor has the widest kind among the values
that were written to it under this descriptor, in whatever order, and the generation has counted the
writes that raised it. While the kind of a slot is that of integers, no frame holds a boxed value
there, unless it took one into that slot under another descriptor. -/
theorem slot_kinds_exact (widths : δ → Nat) (sizes : φ → Nat) (generation : Nat)
    (steps : List (Step δ φ)) :
    let store := (ofSizes widths sizes generation).run steps
    let events := (ofSizes widths sizes generation).history steps
    (∀ descriptor slot, (store.descriptors descriptor).kind? slot =
      if slot < widths descriptor then some (widest events descriptor slot) else none) ∧
    (∀ reordered : List (Step δ φ), reordered.Perm steps → (∀ step ∈ steps, step.IsWrite) →
      ((ofSizes widths sizes generation).run reordered).descriptors = store.descriptors) ∧
    store.generation = generation + raises events ∧
    ∀ descriptor frame slot,
      (∀ write ∈ lineage events frame, write.slot = slot → write.descriptor = descriptor) →
      (store.descriptors descriptor).kind? slot = some .int →
      ∀ stored, (store.frames frame).slot? slot = some stored →
        stored = .empty ∨ ∃ number, stored = .int number := by
  intro store events
  have htracked : Tracked generation events store := Tracked.run widths sizes generation steps
  refine ⟨kind?_run widths sizes generation steps,
    fun reordered hperm hwrites => descriptors_run_of_perm widths sizes generation hperm hwrites,
    htracked.generation, ?_⟩
  intro descriptor frame slot honly hint stored hslot
  cases stored with
  | empty => exact Or.inl rfl
  | int number => exact Or.inr ⟨number, rfl⟩
  | boxed value =>
      obtain ⟨write, hmem, hwrite, hgeneric⟩ := htracked.boxed hslot
      rw [honly write hmem hwrite, ← htracked.kind hint] at hgeneric
      cases hgeneric

/-- Frame 2 is a copy of frame 0, which has one slot. Both are written under the first descriptor
only; under the second one slot 0 becomes generic. The fourth write is outside frame 0. -/
def twoDescriptors : List (Step Bool Nat) :=
  [ .write 0 { descriptor := false, slot := 0, value := .int 4 },
    .write 1 { descriptor := true, slot := 0, value := .int 5 },
    .write 1 { descriptor := true, slot := 0, value := .undefined },
    .write 0 { descriptor := false, slot := 1, value := .undefined },
    .clone 0 2,
    .write 2 { descriptor := false, slot := 0, value := .int 7 } ]

theorem slot_kinds_exact_twoDescriptors :
    let store := (ofSizes (fun _ => 2) (fun frame => frame + 1) 0).run twoDescriptors
    let events := (ofSizes (fun _ => 2) (fun frame => frame + 1) 0).history twoDescriptors
    (store.descriptors true).kind? 0 = some .generic ∧ store.generation = 3 ∧
      (store.descriptors false).kind? 0 = some .int ∧
      (∀ write ∈ lineage events 2, write.slot = 0 → write.descriptor = false) ∧
      ∀ stored, (store.frames 2).slot? 0 = some stored →
        stored = .empty ∨ ∃ number, stored = .int number := by
  intro store events
  have hlineage : lineage events 2 =
      [ { descriptor := false, slot := 0, value := .int 7 },
        { descriptor := false, slot := 0, value := .int 4 } ] := rfl
  have honly : ∀ write ∈ lineage events 2, write.slot = 0 → write.descriptor = false := by
    simp [hlineage]
  obtain ⟨_, _, hgeneration, htrusted⟩ :=
    slot_kinds_exact (fun _ : Bool => 2) (fun frame : Nat => frame + 1) 0 twoDescriptors
  exact ⟨rfl, hgeneration.trans rfl, rfl, honly, htrusted false 2 0 honly rfl⟩

end FrameStore

end AdaptiveEval
