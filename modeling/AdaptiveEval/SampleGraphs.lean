import AdaptiveEval.Graph.Basic

/-!
# Sample graphs

Roots built by hand, and the computation that one of them performs.
-/

namespace AdaptiveEval.SampleGraph

def int (number : Int64) : ExprShape :=
  .const (.int number)

def readAny (slot : Nat) : ExprShape :=
  .read slot .any

/-- Adds the first argument to the sum of the third and the second. -/
def sumChain : RootShape :=
  { name := "sum_chain"
    frameSize := 0
    body := .expr (.arith () .add (.arg 0) (.arith () .add (.arg 2) (.arg 1))) }

/-- Counts up from zero by `step` while below `bound`. -/
def countTo (bound step : Int64) : RootShape :=
  { name := "count_to"
    frameSize := 1
    body := .stmt (.block
      [ .write 0 (int 0),
        .loop (.compare .less (readAny 0) (int bound))
          (.write 0 (.arith () .add (readAny 0) (int step))),
        .ret (readAny 0) ]) }

/-- Sums the items of the first argument, each times `factor`. -/
def scaledSum (factor : Int64) : RootShape :=
  { name := "mul_and_sum"
    frameSize := 2
    body := .stmt (.block
      [ .write 1 (int 0),
        .write 0 (int 0),
        .loop (.compare .less (readAny 0) (.length (.arg 0)))
          (.block
            [ .write 1 (.arith () .add (readAny 1)
                (.arith () .mul (.element () (.arg 0) (readAny 0)) (int factor))),
              .write 0 (.arith () .add (readAny 0) (int 1)) ]),
        .ret (readAny 1) ]) }

def lookup (name : String) : RootShape :=
  { name := "lookup", frameSize := 0, body := .expr (.resolve () name) }

/-- Greets the first argument, warmly once the flag is set. -/
def greeter (flag : Nat) : RootShape :=
  { name := "greeter"
    frameSize := 0
    body := .expr (.conditional (.flag flag)
      (.format "Very nice ahoj from \x7b\x7d!" (.arg 0))
      (.format "Hello from \x7b\x7d!" (.arg 0))) }

inductive SumFault where
  | runtime (error : RuntimeError)
  | breach (outside : Breach)
  deriving DecidableEq

/-- Adds one scaled item to the sum; a missing item counts as undefined. -/
def addScaled (array : ArrayValue) (factor : Int64) (sum : Value) (index : Int64) :
    Except SumFault Value := do
  let item ← (array.item index).mapError .breach
  let product ← (ArithmeticOp.combine .mul (item.getD .undefined) (.int factor)).mapError .runtime
  (ArithmeticOp.combine .add sum product).mapError .runtime

/-- Adds the scaled items at `count` indices from `index` on. -/
def sumFrom (array : ArrayValue) (factor : Int64) : Nat → Int64 → Value → Except SumFault Value
  | 0, _, sum => .ok sum
  | count + 1, index, sum =>
      match addScaled array factor sum index with
      | .ok sum => sumFrom array factor count (index + 1) sum
      | .error fault => .error fault

/-- The sum that `scaledSum` computes, without a graph. Lengths are read as signed words, so that
one past the largest integer counts as no length at all. -/
def scaledSumOf (array : ArrayValue) (factor : Int64) : Except SumFault Value :=
  sumFrom array factor (Int64.ofNat array.length).toInt.toNat 0 (.int 0)

end AdaptiveEval.SampleGraph
