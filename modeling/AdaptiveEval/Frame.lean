import AdaptiveEval.RuntimeError

/-!
# Frames

Local variables of one activation. The descriptor of a target decides how a slot is stored: kinds
only widen, and each change advances the code generation.
-/

namespace AdaptiveEval

inductive SlotKind where
  | uninitialized
  | int
  | generic
  deriving DecidableEq, Inhabited

namespace SlotKind

def name : SlotKind → String
  | .uninitialized => "Uninitialized"
  | .int => "Int"
  | .generic => "Generic"

/-- Kinds are ordered from the narrowest. -/
def rank : SlotKind → Nat
  | .uninitialized => 0
  | .int => 1
  | .generic => 2

def forValue : Value → SlotKind
  | .int _ => .int
  | _ => .generic

def widen (kind wanted : SlotKind) : SlotKind :=
  if kind.rank < wanted.rank then wanted else kind

theorem rank_injective {left right : SlotKind} (hrank : left.rank = right.rank) :
    left = right := by
  cases left <;> cases right <;> simp_all [rank]

end SlotKind

/-- The slot kinds that the activations of one target share. -/
structure Descriptor where
  kinds : Array SlotKind
  deriving DecidableEq, Inhabited

namespace Descriptor

def ofSize (size : Nat) : Descriptor :=
  { kinds := Array.replicate size .uninitialized }

def size (descriptor : Descriptor) : Nat :=
  descriptor.kinds.size

def kind? (descriptor : Descriptor) (slot : Nat) : Option SlotKind :=
  descriptor.kinds[slot]?

def set (descriptor : Descriptor) (slot : Nat) (kind : SlotKind) : Descriptor :=
  { kinds := descriptor.kinds.setIfInBounds slot kind }

@[simp]
theorem size_ofSize (size : Nat) : (ofSize size).size = size := by
  simp [ofSize, Descriptor.size]

@[simp]
theorem size_set (descriptor : Descriptor) (slot : Nat) (kind : SlotKind) :
    (descriptor.set slot kind).size = descriptor.size := by
  simp [set, size]

theorem kind?_set (descriptor : Descriptor) {slot : Nat} (hslot : slot < descriptor.size)
    (kind : SlotKind) (other : Nat) :
    (descriptor.set slot kind).kind? other =
      if slot = other then some kind else descriptor.kind? other := by
  unfold kind? set
  rw [Array.getElem?_setIfInBounds]
  split
  · rename_i heq
    subst heq
    exact if_pos hslot
  · rfl

end Descriptor

inductive Slot where
  | empty
  | int (number : Int64)
  | boxed (value : Value)

namespace Slot

def value? : Slot → Option Value
  | .empty => none
  | .int number => some (.int number)
  | .boxed value => some value

/-- An integer goes unboxed into a slot of kind `int`. -/
def store : SlotKind → Value → Slot
  | .int, .int number => .int number
  | _, value => .boxed value

/-- Slots agree only in the same representation. -/
def same : Slot → Slot → Bool
  | .empty, .empty => true
  | .int left, .int right => left == right
  | .boxed left, .boxed right => left.same right
  | _, _ => false

end Slot

structure Frame where
  slots : Array Slot

namespace Frame

def ofSize (size : Nat) : Frame :=
  { slots := Array.replicate size .empty }

def ofDescriptor (descriptor : Descriptor) : Frame :=
  ofSize descriptor.size

def size (frame : Frame) : Nat :=
  frame.slots.size

def slot? (frame : Frame) (slot : Nat) : Option Slot :=
  frame.slots[slot]?

/-- Stores a value in a slot of both the frame and the descriptor, widening the slot's kind. -/
def write (frame : Frame) (descriptor : Descriptor) (generation slot : Nat) (value : Value) :
    Except RuntimeError (Frame × Descriptor × Nat) :=
  match frame.slot? slot, descriptor.kind? slot with
  | some _, some kind =>
      let widened := kind.widen (.forValue value)
      .ok ({ slots := frame.slots.setIfInBounds slot (.store widened value) },
        descriptor.set slot widened,
        if kind = widened then generation else generation + 1)
  | _, _ => .error (.slotOutOfBounds slot frame.size)

def read (frame : Frame) (slot : Nat) (expect : Expectation) : Except RuntimeError Value :=
  match frame.slot? slot with
  | none => .error (.slotOutOfBounds slot frame.size)
  | some stored =>
      match stored.value? with
      | none => .error (.uninitializedRead slot)
      | some value =>
          match value.coerce expect with
          | .ok value => .ok value
          | .error cast => .error (.typeMismatch slot cast.expected cast.found)

def same (left right : Frame) : Bool :=
  left.size == right.size && (left.slots.zip right.slots).all fun (left, right) => left.same right

@[simp]
theorem size_ofSize (size : Nat) : (ofSize size).size = size := by
  simp [ofSize, Frame.size]

theorem slot?_ofSize (size slot : Nat) :
    (ofSize size).slot? slot = if slot < size then some .empty else none := by
  simp [ofSize, slot?, Array.getElem?_replicate]

theorem slot?_set (frame : Frame) {slot : Nat} (hslot : slot < frame.size) (stored : Slot)
    (other : Nat) :
    ({ slots := frame.slots.setIfInBounds slot stored } : Frame).slot? other =
      if slot = other then some stored else frame.slot? other := by
  unfold slot?
  rw [Array.getElem?_setIfInBounds]
  split
  · rename_i heq
    subst heq
    exact if_pos hslot
  · rfl

/-- Inside the frame and the descriptor a write succeeds; the widened kind chooses the
representation. -/
theorem write_of_kind? {frame : Frame} {descriptor : Descriptor} {slot : Nat} {kind : SlotKind}
    (hframe : slot < frame.size) (hkind : descriptor.kind? slot = some kind) (generation : Nat)
    (value : Value) :
    frame.write descriptor generation slot value =
      .ok (
        { slots := frame.slots.setIfInBounds slot (.store (kind.widen (.forValue value)) value) },
        descriptor.set slot (kind.widen (.forValue value)),
        if kind = kind.widen (.forValue value) then generation else generation + 1) := by
  have hslot : frame.slot? slot = some frame.slots[slot] := Array.getElem?_eq_getElem hframe
  unfold write
  rw [hslot, hkind]

theorem write_of_not_lt {frame : Frame} {descriptor : Descriptor} {slot : Nat}
    (houtside : ¬(slot < frame.size ∧ slot < descriptor.size)) (generation : Nat) (value : Value) :
    frame.write descriptor generation slot value = .error (.slotOutOfBounds slot frame.size) := by
  unfold write
  split
  · rename_i hslot hkind
    have hframe : slot < frame.size := (Array.getElem?_eq_some_iff.mp hslot).1
    have hdescriptor : slot < descriptor.size := (Array.getElem?_eq_some_iff.mp hkind).1
    exact absurd ⟨hframe, hdescriptor⟩ houtside
  · rfl

end Frame

end AdaptiveEval
