import AdaptiveEval.Value.Coercion

/-!
# Runtime errors

The preconditions that a node can find violated, and their texts.
-/

namespace AdaptiveEval

inductive RuntimeError where
  | uninitializedRead (slot : Nat)
  | typeMismatch (slot : Nat) (expected : Expectation) (found : ValueKind)
  | slotOutOfBounds (slot size : Nat)
  | unsupportedOperands (symbol : String) (left right : ValueKind)
  | argumentOutOfBounds (index count : Nat)
  | indexOutOfBounds (index : Int64) (length : Nat)
  | notABoolean (found : ValueKind)
  | notAnArray (found : ValueKind)
  | notAnIndex (found : ValueKind)
  deriving DecidableEq

def RuntimeError.name : RuntimeError → String
  | .uninitializedRead _ => "UninitializedRead"
  | .typeMismatch _ _ _ => "TypeMismatch"
  | .slotOutOfBounds _ _ => "SlotOutOfBounds"
  | .unsupportedOperands _ _ _ => "UnsupportedOperands"
  | .argumentOutOfBounds _ _ => "ArgumentOutOfBounds"
  | .indexOutOfBounds _ _ => "IndexOutOfBounds"
  | .notABoolean _ => "NotABoolean"
  | .notAnArray _ => "NotAnArray"
  | .notAnIndex _ => "NotAnIndex"

def RuntimeError.message : RuntimeError → String
  | .uninitializedRead slot => "Read of uninitialized frame slot " ++ toString slot
  | .typeMismatch slot expected found =>
      "Frame slot " ++ toString slot ++ " holds " ++ found.name ++ ", expected " ++ expected.name
  | .slotOutOfBounds slot size =>
      "Frame slot " ++ toString slot ++ " out of bounds (frame size: " ++ toString size ++ ")"
  | .unsupportedOperands symbol left right =>
      "Unsupported operands for `" ++ symbol ++ "`: " ++ left.name ++ " and " ++ right.name
  | .argumentOutOfBounds index count =>
      "Argument " ++ toString index ++ " out of bounds (" ++ toString count ++ " arguments)"
  | .indexOutOfBounds index length =>
      "Index " ++ toString index.toInt ++ " out of bounds (length: " ++ toString length ++ ")"
  | .notABoolean found => "Expected a Bool condition, found " ++ found.name
  | .notAnArray found => "Expected an array, found " ++ found.name
  | .notAnIndex found => "Expected an Int index, found " ++ found.name

end AdaptiveEval
