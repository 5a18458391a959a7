import AdaptiveEval.Value.Basic

/-!
# Implicit coercion

What a reader expects of a value. The only implicit cast widens an integer to a float.
-/

namespace AdaptiveEval

inductive Expectation where
  | any
  | int
  | float
  deriving DecidableEq

def Expectation.name : Expectation → String
  | .any => "Any"
  | .int => "Int"
  | .float => "Float"

def Expectation.ofName? : String → Option Expectation
  | "Any" => some .any
  | "Int" => some .int
  | "Float" => some .float
  | _ => none

/-- No implicit cast leads from the kind found to the kind expected. -/
structure CastError where
  found : ValueKind
  expected : Expectation
  deriving DecidableEq

def CastError.message (error : CastError) : String :=
  "no implicit cast from " ++ error.found.name ++ " to " ++ error.expected.name

def Value.coerce (value : Value) : Expectation → Except CastError Value
  | .any => .ok value
  | .int =>
      match value with
      | .int _ => .ok value
      | _ => .error { found := value.kind, expected := .int }
  | .float =>
      match value.float? with
      | some number => .ok (.float number)
      | none => .error { found := value.kind, expected := .float }

end AdaptiveEval
