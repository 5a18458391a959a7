import AdaptiveEval.Value.Basic

/-!
# Custom array families

Three shapes beside the dense array and the progression.
-/

namespace AdaptiveEval.ArrayValue

def withinLength (length : UInt64) (index : Int64) : Bool :=
  decide (0 ≤ index) && decide (index.toUInt64 < length)

def squares (identity : Nat) (length : UInt64) : ArrayValue :=
  .custom identity "Squares" ("Squares(" ++ toString length.toNat ++ ")") length fun index =>
    if withinLength length index then some (.int (index * index)) else none

def constant (identity : Nat) (number : Int64) (length : UInt64) : ArrayValue :=
  .custom identity "Constant"
    ("Constant(" ++ toString number.toInt ++ ", " ++ toString length.toNat ++ ")") length
    fun index => if withinLength length index then some (.int number) else none

/-- Each multiple of `step` holds itself, inside the length or not; nothing stands between. -/
def sparse (identity : Nat) (length : UInt64) (step : Int64) : ArrayValue :=
  .custom identity "Sparse"
    ("Sparse(" ++ toString length.toNat ++ ", " ++ toString step.toInt ++ ")") length
    fun index => if index.toInt % step.toInt = 0 then some (.int index) else none

end AdaptiveEval.ArrayValue
