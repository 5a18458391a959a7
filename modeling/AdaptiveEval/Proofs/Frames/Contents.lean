import AdaptiveEval.Proofs.SiteResults
import Mathlib.Logic.Function.Basic

/-!
# Contents of frames

How a slot stores its value depends on all that was written to that slot under the same descriptor,
in any frame. What a read gives back does not: it is the last value that this very frame took into
the slot, or that the frame it was copied from had taken into it before.
-/

namespace AdaptiveEval

/-- An implicit cast leads from the value to what is expected of it. -/
def Value.CastsTo (value : Value) : Expectation → Prop
  | .any => True
  | .int => value.kind = .int
  | .float => value.kind = .int ∨ value.kind = .float

theorem Value.coerce_cases (value : Value) (expect : Expectation) :
    (value.CastsTo expect ∧ ∃ cast, value.coerce expect = .ok cast) ∨
      (¬value.CastsTo expect ∧
        value.coerce expect = .error { found := value.kind, expected := expect }) := by
  cases expect <;> cases value <;> simp [CastsTo, coerce, kind, float?]

namespace Frame

/-- The value in a slot, whatever its representation. -/
def value? (frame : Frame) (slot : Nat) : Option Value :=
  (frame.slot? slot).bind Slot.value?

variable {frame : Frame} {slot : Nat} {expect : Expectation}

theorem lt_size_of_value? {value : Value} (hvalue : frame.value? slot = some value) :
    slot < frame.size := by
  obtain ⟨stored, hslot, _⟩ := Option.bind_eq_some_iff.mp hvalue
  exact (Array.getElem?_eq_some_iff.mp hslot).1

/-- A read sees of a frame only its size and its values. -/
theorem read_eq (frame : Frame) (slot : Nat) (expect : Expectation) :
    frame.read slot expect =
      if frame.size ≤ slot then
        .error (.slotOutOfBounds slot frame.size)
      else
        match frame.value? slot with
        | none => .error (.uninitializedRead slot)
        | some value =>
            match value.coerce expect with
            | .ok cast => .ok cast
            | .error cast => .error (.typeMismatch slot cast.expected cast.found) := by
  by_cases hslot : frame.size ≤ slot
  · have hnone : frame.slot? slot = none := Array.getElem?_eq_none hslot
    rw [if_pos hslot, read, hnone]
  · have hinside : slot < frame.slots.size := Nat.lt_of_not_le hslot
    have hsome : frame.slot? slot = some frame.slots[slot] := Array.getElem?_eq_getElem hinside
    rw [if_neg hslot, read, value?, hsome]
    rfl

theorem read_eq_ok_iff {value : Value} :
    frame.read slot expect = .ok value ↔
      ∃ held, frame.value? slot = some held ∧ held.coerce expect = .ok value := by
  rw [read_eq]
  by_cases hslot : frame.size ≤ slot
  · have houtside : ∀ held, frame.value? slot ≠ some held :=
      fun held hheld => Nat.not_lt_of_le hslot (lt_size_of_value? hheld)
    simp [hslot, houtside]
  · rw [if_neg hslot]
    cases frame.value? slot with
    | none => simp
    | some held => cases hcoerce : held.coerce expect <;> simp [hcoerce]

theorem read_eq_error_iff {error : RuntimeError} :
    frame.read slot expect = .error error ↔
      (frame.size ≤ slot ∧ error = .slotOutOfBounds slot frame.size) ∨
        (slot < frame.size ∧ frame.value? slot = none ∧ error = .uninitializedRead slot) ∨
        ∃ held, frame.value? slot = some held ∧ ¬held.CastsTo expect ∧
          error = .typeMismatch slot expect held.kind := by
  rw [read_eq]
  by_cases hslot : frame.size ≤ slot
  · have houtside : ∀ held, frame.value? slot ≠ some held :=
      fun held hheld => Nat.not_lt_of_le hslot (lt_size_of_value? hheld)
    simp [hslot, Nat.not_lt_of_le hslot, houtside, eq_comm]
  · rw [if_neg hslot]
    cases frame.value? slot with
    | none => simp [hslot, Nat.lt_of_not_le hslot, eq_comm]
    | some held =>
        obtain ⟨hcasts, cast, hcoerce⟩ | ⟨hcasts, hcoerce⟩ := held.coerce_cases expect
        · simp [hslot, hcoerce, hcasts]
        · simp [hslot, hcoerce, hcasts, eq_comm]

end Frame

/-- A value for a slot, written under a descriptor. -/
structure SlotWrite (δ : Type) where
  descriptor : δ
  slot : Nat
  value : Value

/-- Frames, and descriptors that share one code generation. -/
structure FrameStore (δ φ : Type) where
  descriptors : δ → Descriptor
  frames : φ → Frame
  generation : Nat

namespace FrameStore

variable {δ φ : Type}

/-- New descriptors and empty frames, each of its own size. -/
def ofSizes (widths : δ → Nat) (sizes : φ → Nat) (generation : Nat) : FrameStore δ φ :=
  { descriptors := fun descriptor => .ofSize (widths descriptor)
    frames := fun frame => .ofSize (sizes frame)
    generation }

inductive Step (δ φ : Type) where
  | write (frame : φ) (write : SlotWrite δ)
  | read (frame : φ) (slot : Nat) (expect : Expectation)
  | clone (source copy : φ)

/-- What a step leaves behind. Reads and failed writes leave nothing. -/
inductive Event (δ φ : Type) where
  | written (frame : φ) (write : SlotWrite δ)
  | copied (source copy : φ)

def attempt (store : FrameStore δ φ) (frame : φ) (write : SlotWrite δ) :
    Except RuntimeError (Frame × Descriptor × Nat) :=
  (store.frames frame).write (store.descriptors write.descriptor) store.generation write.slot
    write.value

def events (store : FrameStore δ φ) : Step δ φ → List (Event δ φ)
  | .write frame write =>
      match store.attempt frame write with
      | .ok _ => [.written frame write]
      | .error _ => []
  | .read _ _ _ => []
  | .clone source copy => [.copied source copy]

section Runs

variable [DecidableEq δ] [DecidableEq φ]

def step (store : FrameStore δ φ) : Step δ φ → FrameStore δ φ
  | .write frame write =>
      match store.attempt frame write with
      | .ok (written, descriptor, generation) =>
          { descriptors := Function.update store.descriptors write.descriptor descriptor
            frames := Function.update store.frames frame written
            generation }
      | .error _ => store
  | .read _ _ _ => store
  | .clone source copy =>
      { store with frames := Function.update store.frames copy (store.frames source) }

def run (store : FrameStore δ φ) (steps : List (Step δ φ)) : FrameStore δ φ :=
  steps.foldl step store

/-- The events of a run, newest first. -/
def history (store : FrameStore δ φ) : List (Step δ φ) → List (Event δ φ)
  | [] => []
  | step :: rest => (store.step step).history rest ++ store.events step

end Runs

section Lineage

variable [DecidableEq φ]

/-- The frame that a frame is, through all copies, a copy of. -/
def origin : List (Event δ φ) → φ → φ
  | [], frame => frame
  | .written _ _ :: earlier, frame => origin earlier frame
  | .copied source copy :: earlier, frame => origin earlier (if copy = frame then source else frame)

/-- The writes that made a frame what it is, newest first: its own since it was last made a copy,
then those of its source up to that copy. -/
def lineage : List (Event δ φ) → φ → List (SlotWrite δ)
  | [], _ => []
  | .written written write :: earlier, frame =>
      if written = frame then write :: lineage earlier frame else lineage earlier frame
  | .copied source copy :: earlier, frame =>
      lineage earlier (if copy = frame then source else frame)

/-- The value most recently written to a slot of a frame. -/
def lastWritten (events : List (Event δ φ)) (frame : φ) (slot : Nat) : Option Value :=
  ((lineage events frame).find? fun write => decide (write.slot = slot)).map SlotWrite.value

theorem lastWritten_written (written frame : φ) (write : SlotWrite δ)
    (earlier : List (Event δ φ)) (slot : Nat) :
    lastWritten (.written written write :: earlier) frame slot =
      if written = frame ∧ write.slot = slot then some write.value
      else lastWritten earlier frame slot := by
  unfold lastWritten
  by_cases hframe : written = frame
  · by_cases hslot : write.slot = slot <;> simp [lineage, hframe, hslot]
  · simp [lineage, hframe]

end Lineage

variable [DecidableEq δ] [DecidableEq φ]

/-- The store after a write that found its slot, at the given kind. -/
def accept (store : FrameStore δ φ) (frame : φ) (write : SlotWrite δ) (kind : SlotKind) :
    FrameStore δ φ :=
  let widened := kind.widen (.forValue write.value)
  { descriptors := Function.update store.descriptors write.descriptor
      ((store.descriptors write.descriptor).set write.slot widened)
    frames := Function.update store.frames frame
      { slots := (store.frames frame).slots.setIfInBounds write.slot (.store widened write.value) }
    generation := if kind = widened then store.generation else store.generation + 1 }

/-- Everything that a step can do, with what it leaves behind. -/
inductive Effect (store : FrameStore δ φ) : List (Event δ φ) → FrameStore δ φ → Prop where
  | none : Effect store [] store
  | written {frame : φ} {write : SlotWrite δ} {kind : SlotKind}
      (hframe : write.slot < (store.frames frame).size)
      (hkind : (store.descriptors write.descriptor).kind? write.slot = some kind) :
      Effect store [.written frame write] (store.accept frame write kind)
  | copied (source copy : φ) :
      Effect store [.copied source copy]
        { store with frames := Function.update store.frames copy (store.frames source) }

theorem attempt_cases (store : FrameStore δ φ) (frame : φ) (write : SlotWrite δ) :
    (((store.frames frame).size ≤ write.slot ∨
        (store.descriptors write.descriptor).size ≤ write.slot) ∧
      store.attempt frame write =
        .error (.slotOutOfBounds write.slot (store.frames frame).size)) ∨
    ∃ kind, write.slot < (store.frames frame).size ∧
      (store.descriptors write.descriptor).kind? write.slot = some kind ∧
      store.attempt frame write =
        .ok ((store.accept frame write kind).frames frame,
          (store.accept frame write kind).descriptors write.descriptor,
          (store.accept frame write kind).generation) := by
  by_cases hinside : write.slot < (store.frames frame).size ∧
      write.slot < (store.descriptors write.descriptor).size
  · obtain ⟨hframe, hdescriptor⟩ := hinside
    obtain ⟨kind, hkind⟩ :
        ∃ kind, (store.descriptors write.descriptor).kind? write.slot = some kind :=
      ⟨_, Array.getElem?_eq_getElem hdescriptor⟩
    refine Or.inr ⟨kind, hframe, hkind, ?_⟩
    rw [attempt, Frame.write_of_kind? hframe hkind]
    simp [accept]
  · refine Or.inl ⟨?_, Frame.write_of_not_lt hinside _ _⟩
    omega

theorem step_write_cases (store : FrameStore δ φ) (frame : φ) (write : SlotWrite δ) :
    (¬(write.slot < (store.frames frame).size ∧
        write.slot < (store.descriptors write.descriptor).size) ∧
      store.events (.write frame write) = [] ∧ store.step (.write frame write) = store) ∨
    ∃ kind, write.slot < (store.frames frame).size ∧
      (store.descriptors write.descriptor).kind? write.slot = some kind ∧
      store.events (.write frame write) = [.written frame write] ∧
      store.step (.write frame write) = store.accept frame write kind := by
  obtain ⟨houtside, hfailed⟩ | ⟨kind, hframe, hkind, hwritten⟩ := store.attempt_cases frame write
  · refine Or.inl ⟨by omega, ?_, ?_⟩
    · simp only [events, hfailed]
    · simp only [FrameStore.step, hfailed]
  · refine Or.inr ⟨kind, hframe, hkind, ?_, ?_⟩
    · simp only [events, hwritten]
    · simp only [FrameStore.step, hwritten]
      simp [accept]

theorem effect_step (store : FrameStore δ φ) (step : Step δ φ) :
    store.Effect (store.events step) (store.step step) := by
  cases step with
  | write frame write =>
      obtain ⟨_, hevents, hstep⟩ | ⟨kind, hframe, hkind, hevents, hstep⟩ :=
        store.step_write_cases frame write
      · rw [hevents, hstep]
        exact .none
      · rw [hevents, hstep]
        exact .written hframe hkind
  | read frame slot expect => exact .none
  | clone source copy => exact .copied source copy

/-- What holds at the start and is kept by every step with its events holds of a whole run with its
history. -/
theorem run_induction {P : List (Event δ φ) → FrameStore δ φ → Prop}
    (hkept : ∀ {earlier events store after}, P earlier store → store.Effect events after →
      P (events ++ earlier) after)
    {store : FrameStore δ φ} {earlier : List (Event δ φ)} (hstart : P earlier store)
    (steps : List (Step δ φ)) : P (store.history steps ++ earlier) (store.run steps) := by
  induction steps generalizing store earlier with
  | nil => exact hstart
  | cons step rest ih =>
      have hnext := ih (hkept hstart (store.effect_step step))
      rw [history, List.append_assoc]
      exact hnext

section Accepted

variable {store : FrameStore δ φ} {frame : φ} {write : SlotWrite δ} {kind : SlotKind}

theorem kind?_accept
    (hkind : (store.descriptors write.descriptor).kind? write.slot = some kind) (descriptor : δ)
    (slot : Nat) :
    ((store.accept frame write kind).descriptors descriptor).kind? slot =
      if write.descriptor = descriptor ∧ write.slot = slot then
        some (kind.widen (.forValue write.value))
      else
        (store.descriptors descriptor).kind? slot := by
  have hslot : write.slot < (store.descriptors write.descriptor).size :=
    (Array.getElem?_eq_some_iff.mp hkind).1
  by_cases hdescriptor : write.descriptor = descriptor
  · subst hdescriptor
    simp [accept, Descriptor.kind?_set _ hslot]
  · simp [accept, hdescriptor, Function.update_of_ne (Ne.symm hdescriptor)]

theorem slot?_accept (hframe : write.slot < (store.frames frame).size) (other : φ) (slot : Nat) :
    ((store.accept frame write kind).frames other).slot? slot =
      if frame = other ∧ write.slot = slot then
        some (.store (kind.widen (.forValue write.value)) write.value)
      else
        (store.frames other).slot? slot := by
  by_cases hother : frame = other
  · subst hother
    simp [accept, Frame.slot?_set _ hframe]
  · simp [accept, hother, Function.update_of_ne (Ne.symm hother)]

theorem size_descriptor_accept (descriptor : δ) :
    ((store.accept frame write kind).descriptors descriptor).size =
      (store.descriptors descriptor).size := by
  by_cases hdescriptor : descriptor = write.descriptor
  · subst hdescriptor
    simp [accept]
  · simp [accept, hdescriptor]

theorem size_frame_accept (other : φ) :
    ((store.accept frame write kind).frames other).size = (store.frames other).size := by
  by_cases hother : other = frame
  · subst hother
    simp [accept, Frame.size]
  · simp [accept, hother]

end Accepted

/-- What the events say about the frames is what they hold. -/
structure Kept (widths : δ → Nat) (sizes : φ → Nat) (events : List (Event δ φ))
    (store : FrameStore δ φ) : Prop where
  width : ∀ descriptor, (store.descriptors descriptor).size = widths descriptor
  size : ∀ frame, (store.frames frame).size = sizes (origin events frame)
  value : ∀ frame slot, (store.frames frame).value? slot = lastWritten events frame slot

namespace Kept

variable {widths : δ → Nat} {sizes : φ → Nat} {earlier events : List (Event δ φ)}
  {store after : FrameStore δ φ}

omit [DecidableEq δ] in
theorem ofSizes (widths : δ → Nat) (sizes : φ → Nat) (generation : Nat) :
    Kept widths sizes [] (FrameStore.ofSizes widths sizes generation) where
  width := by simp [FrameStore.ofSizes]
  size := by simp [FrameStore.ofSizes, origin]
  value frame slot := by
    simp only [FrameStore.ofSizes, Frame.value?, Frame.slot?_ofSize, lastWritten, lineage]
    split <;> rfl

theorem accept (hkept : Kept widths sizes earlier store) {frame : φ} {write : SlotWrite δ}
    (kind : SlotKind) (hframe : write.slot < (store.frames frame).size) :
    Kept widths sizes (.written frame write :: earlier) (store.accept frame write kind) where
  width descriptor := (size_descriptor_accept descriptor).trans (hkept.width descriptor)
  size other := (size_frame_accept other).trans (hkept.size other)
  value other slot := by
    rw [Frame.value?, slot?_accept hframe, lastWritten_written]
    split
    · simp
    · exact hkept.value other slot

omit [DecidableEq δ] in
theorem copy (hkept : Kept widths sizes earlier store) (source copy : φ) :
    Kept widths sizes (.copied source copy :: earlier)
      { store with frames := Function.update store.frames copy (store.frames source) } where
  width := hkept.width
  size frame := by
    by_cases hcopy : copy = frame
    · subst hcopy
      simpa [origin] using hkept.size source
    · simpa [origin, hcopy, Function.update_of_ne (Ne.symm hcopy)] using hkept.size frame
  value frame slot := by
    by_cases hcopy : copy = frame
    · subst hcopy
      simpa [lastWritten, lineage] using hkept.value source slot
    · simpa [lastWritten, lineage, hcopy, Function.update_of_ne (Ne.symm hcopy)] using
        hkept.value frame slot

theorem effect (hkept : Kept widths sizes earlier store) (heffect : store.Effect events after) :
    Kept widths sizes (events ++ earlier) after := by
  cases heffect with
  | none => exact hkept
  | written hframe hkind => exact hkept.accept _ hframe
  | copied source copy => exact hkept.copy source copy

theorem run (widths : δ → Nat) (sizes : φ → Nat) (generation : Nat) (steps : List (Step δ φ)) :
    Kept widths sizes ((FrameStore.ofSizes widths sizes generation).history steps)
      ((FrameStore.ofSizes widths sizes generation).run steps) := by
  have hrun := run_induction (P := Kept widths sizes) Kept.effect
    (Kept.ofSizes widths sizes generation) steps
  rwa [List.append_nil] at hrun

end Kept

/-- **Frames keep what was written to them.** After every sequence of writes under any descriptors,
reads and copies, a read casts the last value that its slot took in, through the copies that the
frame descends from, and fails only where there is none, where the slot is outside the frame, or
where the value has no cast. A write fails exactly outside the frame or the descriptor, and then
changes nothing. -/
theorem frames_keep_writes (widths : δ → Nat) (sizes : φ → Nat) (generation : Nat)
    (steps : List (Step δ φ)) :
    let store := (ofSizes widths sizes generation).run steps
    let events := (ofSizes widths sizes generation).history steps
    (∀ frame slot expect,
      (∀ value, (store.frames frame).read slot expect = .ok value ↔
        ∃ written, lastWritten events frame slot = some written ∧
          written.coerce expect = .ok value) ∧
      ∀ error, (store.frames frame).read slot expect = .error error ↔
        (sizes (origin events frame) ≤ slot ∧
          error = .slotOutOfBounds slot (sizes (origin events frame))) ∨
        (slot < sizes (origin events frame) ∧ lastWritten events frame slot = none ∧
          error = .uninitializedRead slot) ∨
        ∃ written, lastWritten events frame slot = some written ∧ ¬written.CastsTo expect ∧
          error = .typeMismatch slot expect written.kind) ∧
    ∀ frame write,
      (∀ error, store.attempt frame write = .error error ↔
        (sizes (origin events frame) ≤ write.slot ∨ widths write.descriptor ≤ write.slot) ∧
          error = .slotOutOfBounds write.slot (sizes (origin events frame))) ∧
      ((∃ error, store.attempt frame write = .error error) →
        store.step (.write frame write) = store) := by
  intro store events
  have hkept : Kept widths sizes events store := Kept.run widths sizes generation steps
  refine ⟨fun frame slot expect => ⟨fun value => ?_, fun error => ?_⟩,
    fun frame write => ⟨fun error => ?_, ?_⟩⟩
  · rw [Frame.read_eq_ok_iff, hkept.value]
  · rw [Frame.read_eq_error_iff, hkept.value, hkept.size]
  · rw [← hkept.size, ← hkept.width]
    obtain ⟨houtside, hfailed⟩ | ⟨kind, hframe, hkind, hwritten⟩ := store.attempt_cases frame write
    · simp [hfailed, houtside, eq_comm]
    · have hdescriptor : write.slot < (store.descriptors write.descriptor).size :=
        (Array.getElem?_eq_some_iff.mp hkind).1
      simp [hwritten, Nat.not_le_of_lt hframe, Nat.not_le_of_lt hdescriptor]
  · rintro ⟨error, hfailed⟩
    simp only [FrameStore.step, hfailed]

end FrameStore

end AdaptiveEval
