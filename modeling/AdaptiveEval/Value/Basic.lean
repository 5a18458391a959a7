/-!
# Values

The values that flow through a graph, and the arrays among them.
-/

namespace AdaptiveEval

/-- The wrapping progression `start, start + stride, ...` of `length` items. -/
structure Progression where
  start : Int64
  length : UInt64
  stride : Int64
  deriving DecidableEq

structure Breach where
  index : Int64
  length : UInt64
  deriving DecidableEq

def Breach.message (breach : Breach) : String :=
  "sequence index " ++ toString breach.index.toInt ++ " out of range (length " ++
    toString breach.length.toNat ++ ")"

def Progression.covers (progression : Progression) (index : Int64) : Bool :=
  decide (0 ≤ index) && decide (index.toUInt64 < progression.length)

def Progression.term (progression : Progression) (index : Int64) : Int64 :=
  progression.start + index * progression.stride

/-- A progression has no item outside its length, not even a missing one. -/
def Progression.item (progression : Progression) (index : Int64) : Except Breach Int64 :=
  if progression.covers index then
    .ok (progression.term index)
  else
    .error { index, length := progression.length }

mutual

inductive Value where
  | int (number : Int64)
  | float (number : Float)
  | bool (truth : Bool)
  | str (text : String)
  | array (items : ArrayValue)
  | undefined

/-- Dense and custom arrays carry the identity by which they compare. -/
inductive ArrayValue where
  | dense (identity : Nat) (items : Array Value)
  | progression (terms : Progression)
  | custom (identity : Nat) (family description : String) (length : UInt64)
      (item : Int64 → Option Value)

end

inductive ValueKind where
  | int
  | float
  | bool
  | str
  | array
  | undefined
  deriving DecidableEq

def ValueKind.name : ValueKind → String
  | .int => "Int"
  | .float => "Float"
  | .bool => "Bool"
  | .str => "Str"
  | .array => "Array"
  | .undefined => "Undefined"

/-- What an element access specializes on. -/
inductive Shape where
  | dense
  | progression
  | custom (family : String)
  deriving DecidableEq

def Shape.name : Shape → String
  | .dense => "Dense"
  | .progression => "Sequence"
  | .custom _ => "Custom"

namespace ArrayValue

def length : ArrayValue → Nat
  | .dense _ items => items.size
  | .progression terms => terms.length.toNat
  | .custom _ _ _ length _ => length.toNat

def isEmpty (array : ArrayValue) : Bool :=
  array.length == 0

def shape : ArrayValue → Shape
  | .dense _ _ => .dense
  | .progression _ => .progression
  | .custom _ family _ _ _ => .custom family

/-- An index below zero or past the end of a dense array names no item. -/
def denseItem? (items : Array Value) (index : Int64) : Option Value :=
  if 0 ≤ index then items[index.toInt.toNat]? else none

def item (array : ArrayValue) (index : Int64) : Except Breach (Option Value) :=
  match array with
  | .dense _ items => .ok (denseItem? items index)
  | .progression terms => (terms.item index).map fun number => some (.int number)
  | .custom _ _ _ _ item => .ok (item index)

/-- Dense and custom arrays agree by identity, progressions by their parameters. -/
def same : ArrayValue → ArrayValue → Bool
  | .dense left _, .dense right _ => left == right
  | .progression left, .progression right => left == right
  | .custom left _ _ _ _, .custom right _ _ _ _ => left == right
  | _, _ => false

end ArrayValue

namespace Value

def kind : Value → ValueKind
  | .int _ => .int
  | .float _ => .float
  | .bool _ => .bool
  | .str _ => .str
  | .array _ => .array
  | .undefined => .undefined

def isUndefined : Value → Bool
  | .undefined => true
  | _ => false

def int? : Value → Option Int64
  | .int number => some number
  | _ => none

/-- The value as a float; integers widen. -/
def float? : Value → Option Float
  | .float number => some number
  | .int number => some number.toFloat
  | _ => none

def bool? : Value → Option Bool
  | .bool truth => some truth
  | _ => none

def str? : Value → Option String
  | .str text => some text
  | _ => none

def array? : Value → Option ArrayValue
  | .array items => some items
  | _ => none

/-- Equality of values. A float equals itself even when it is not a number. -/
def same : Value → Value → Bool
  | .int left, .int right => left == right
  | .float left, .float right => left.toBits == right.toBits || left == right
  | .bool left, .bool right => left == right
  | .str left, .str right => left == right
  | .array left, .array right => left.same right
  | .undefined, .undefined => true
  | _, _ => false

end Value

end AdaptiveEval
