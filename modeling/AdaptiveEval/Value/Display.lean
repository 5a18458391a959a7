import AdaptiveEval.Decimal.Layout
import AdaptiveEval.Text.Quoted
import AdaptiveEval.Value.Basic

/-!
# Texts of values

The reading text of a value, which a format node inserts, and its inspection text.
-/

namespace AdaptiveEval

def bracketed (items : List String) : String :=
  "[" ++ ", ".intercalate items ++ "]"

/-- The texts of a progression's items. -/
def Progression.texts (progression : Progression) : List String :=
  (List.range progression.length.toNat).map fun index =>
    toString (progression.term (Int64.ofNat index)).toInt

mutual

/-- The reading text of a value; a missing item reads as an undefined one. -/
def Value.display : Value → String
  | .int number => toString number.toInt
  | .float number => Decimal.readingText number
  | .bool truth => if truth then "true" else "false"
  | .str text => text
  | .array items => items.display
  | .undefined => "undefined"

def ArrayValue.display : ArrayValue → String
  | .dense _ items => bracketed (displayArray items)
  | .progression terms => bracketed terms.texts
  | .custom _ _ _ length item =>
      bracketed ((List.range length.toNat).map fun index =>
        displayItem (item (Int64.ofNat index)))

def displayItem : Option Value → String
  | some value => value.display
  | none => "undefined"

def displayArray : Array Value → List String
  | ⟨values⟩ => displayList values

def displayList : List Value → List String
  | [] => []
  | value :: values => value.display :: displayList values

end

def Progression.inspect (progression : Progression) : String :=
  "IntegerSequence \x7b start: " ++ toString progression.start.toInt ++ ", length: " ++
    toString progression.length.toNat ++ ", stride: " ++ toString progression.stride.toInt ++ " \x7d"

def ArrayValue.inspect : ArrayValue → String
  | .dense _ items => "Dense(" ++ toString items.size ++ ")"
  | .progression terms => terms.inspect
  | .custom _ _ description _ _ => "Custom(" ++ description ++ ")"

/-- The inspection text of a value names its kind. -/
def Value.inspect : Value → String
  | .int number => "Int(" ++ toString number.toInt ++ ")"
  | .float number => "Float(" ++ Decimal.exactText number ++ ")"
  | .bool truth => "Bool(" ++ (if truth then "true" else "false") ++ ")"
  | .str text => "Str(" ++ Text.quoted text ++ ")"
  | .array items => "Array(" ++ items.inspect ++ ")"
  | .undefined => "Undefined"

end AdaptiveEval
