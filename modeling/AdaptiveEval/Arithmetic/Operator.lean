import AdaptiveEval.RuntimeError

/-!
# Arithmetic and comparison

The table of variants by which operands of mixed kinds combine, and the comparison of values.
-/

namespace AdaptiveEval

inductive ArithmeticOp where
  | add
  | sub
  | mul
  deriving DecidableEq

namespace ArithmeticOp

def symbol : ArithmeticOp → String
  | .add => "+"
  | .sub => "-"
  | .mul => "*"

def ofSymbol? : String → Option ArithmeticOp
  | "+" => some .add
  | "-" => some .sub
  | "*" => some .mul
  | _ => none

/-- Integer arithmetic wraps. -/
def onInt : ArithmeticOp → Int64 → Int64 → Int64
  | .add, left, right => left + right
  | .sub, left, right => left - right
  | .mul, left, right => left * right

def onFloat : ArithmeticOp → Float → Float → Float
  | .add, left, right => left + right
  | .sub, left, right => left - right
  | .mul, left, right => left * right

end ArithmeticOp

inductive Variant where
  | int
  | float
  | undefinedLeft
  | undefinedRight
  deriving DecidableEq

namespace Variant

def name : Variant → String
  | .int => "Int"
  | .float => "Float"
  | .undefinedLeft => "UndefinedLeft"
  | .undefinedRight => "UndefinedRight"

/-- The first row that accepts the operands. -/
def select? : Value → Value → Option Variant
  | .int _, .int _ => some .int
  | .int _, .float _ => some .float
  | .float _, .int _ => some .float
  | .float _, .float _ => some .float
  | .undefined, _ => some .undefinedLeft
  | _, .undefined => some .undefinedRight
  | _, _ => none

/-- Runs a row on operands that it accepts; an undefined operand absorbs the other. -/
def apply (variant : Variant) (op : ArithmeticOp) (left right : Value) : Value :=
  match variant, left, right with
  | .int, .int left, .int right => .int (op.onInt left right)
  | .float, left, right =>
      match left.float?, right.float? with
      | some left, some right => .float (op.onFloat left right)
      | _, _ => .undefined
  | _, _, _ => .undefined

end Variant

def unsupported (symbol : String) (left right : Value) : RuntimeError :=
  .unsupportedOperands symbol left.kind right.kind

/-- The unspecialized arithmetic of values. -/
def ArithmeticOp.combine (op : ArithmeticOp) (left right : Value) : Except RuntimeError Value :=
  match Variant.select? left right with
  | some variant => .ok (variant.apply op left right)
  | none => .error (unsupported op.symbol left right)

inductive ComparisonOp where
  | less
  | lessEqual
  | equal
  deriving DecidableEq

namespace ComparisonOp

def symbol : ComparisonOp → String
  | .less => "<"
  | .lessEqual => "<="
  | .equal => "=="

def ofSymbol? : String → Option ComparisonOp
  | "<" => some .less
  | "<=" => some .lessEqual
  | "==" => some .equal
  | _ => none

def onInt : ComparisonOp → Int64 → Int64 → Bool
  | .less, left, right => decide (left < right)
  | .lessEqual, left, right => decide (left ≤ right)
  | .equal, left, right => left == right

def onFloat : ComparisonOp → Float → Float → Bool
  | .less, left, right => decide (left < right)
  | .lessEqual, left, right => decide (left ≤ right)
  | .equal, left, right => left == right

/-- Numbers compare with integers widened where kinds differ; equality is total. -/
def holds (op : ComparisonOp) (left right : Value) : Except RuntimeError Bool :=
  match left, right with
  | .int left, .int right => .ok (op.onInt left right)
  | left, right =>
      match left.float?, right.float? with
      | some left, some right => .ok (op.onFloat left right)
      | _, _ =>
          match op with
          | .equal => .ok (left.same right)
          | _ => .error (unsupported op.symbol left right)

end ComparisonOp

end AdaptiveEval
