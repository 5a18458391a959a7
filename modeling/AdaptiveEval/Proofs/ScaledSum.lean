import AdaptiveEval.Proofs.Reference.Invocation
import AdaptiveEval.Proofs.Reference.Meaning

/-!
# The scaled sum

The graph of the scaled sum gives the sum that is computed without a graph, for every array whose
positions all hold items: the same value, or the same error at the first item that has no product
or no sum.
-/

namespace AdaptiveEval

/-- An array whose positions are integers and all hold items. -/
structure ArrayValue.Full (array : ArrayValue) : Prop where
  short : array.length < 2 ^ 63
  items : ∀ position < array.length, ∃ item, array.item (Int64.ofNat position) = .ok (some item)

namespace ArrayValue

theorem ofNat_nonneg {position : Nat} (hshort : position < 2 ^ 63) : 0 ≤ Int64.ofNat position := by
  rw [Int64.le_iff_toInt_le, Int64.toInt_ofNat_of_lt hshort]
  exact Int.natCast_nonneg position

theorem full_dense (identity : Nat) {items : Array Value} (hshort : items.size < 2 ^ 63) :
    Full (.dense identity items) where
  short := hshort
  items position hposition := by
    have hposition : position < items.size := hposition
    have hindex := Nat.lt_trans hposition hshort
    refine ⟨items[position], ?_⟩
    simp only [item, denseItem?, if_pos (ofNat_nonneg hindex), Int64.toInt_ofNat_of_lt hindex,
      Int.toNat_natCast, Array.getElem?_eq_getElem hposition]

theorem item_progression {terms : Progression} {position : Nat}
    (hposition : position < terms.length.toNat) (hshort : position < 2 ^ 63) :
    item (.progression terms) (Int64.ofNat position) =
      .ok (some (.int (terms.term (Int64.ofNat position)))) := by
  have hcovers : terms.covers (Int64.ofNat position) = true := by
    rw [Progression.covers, Bool.and_eq_true, decide_eq_true_iff, decide_eq_true_iff]
    constructor
    · exact ofNat_nonneg hshort
    · have hsize : position < UInt64.size :=
        Nat.lt_trans hposition terms.length.toNat_lt
      rw [Int64.toUInt64_ofNat', UInt64.lt_iff_toNat_lt, UInt64.toNat_ofNat_of_lt' hsize]
      exact hposition
  simp only [item, Progression.item, if_pos hcovers]
  rfl

theorem full_progression {terms : Progression} (hshort : terms.length.toNat < 2 ^ 63) :
    Full (.progression terms) where
  short := hshort
  items position hposition := by
    have hposition : position < terms.length.toNat := hposition
    exact ⟨_, item_progression hposition (Nat.lt_trans hposition hshort)⟩

/-- Positions compare with the length as their integers do. -/
theorem Full.ofNat_lt_length_iff {array : ArrayValue} (hfull : array.Full) {position : Nat}
    (hposition : position ≤ array.length) :
    Int64.ofNat position < Int64.ofNat (min array.length 0x7fffffffffffffff) ↔
      position < array.length := by
  have hshort := hfull.short
  rw [Int64.lt_iff_toInt_lt, Int64.toInt_ofNat_of_lt (by omega), Int64.toInt_ofNat_of_lt (by omega)]
  omega

end ArrayValue

namespace SampleGraph

open Reference

section Graph

def belowLength : ExprShape :=
  .compare .less (readAny 0) (.length (.arg 0))

def nextSum (factor : Int64) : ExprShape :=
  .arith () .add (readAny 1) (.arith () .mul (.element () (.arg 0) (readAny 0)) (int factor))

def nextIndex : ExprShape :=
  .arith () .add (readAny 0) (int 1)

def addItem (factor : Int64) : StmtShape :=
  .block [.write 1 (nextSum factor), .write 0 nextIndex]

theorem body_scaledSum (factor : Int64) :
    (scaledSum factor).body = .stmt (.block
      [.write 1 (int 0), .write 0 (int 0), .loop belowLength (addItem factor), .ret (readAny 1)]) :=
  rfl

end Graph

/-- The sum with one more item. -/
def addProduct (item : Value) (factor : Int64) (sum : Value) : Except RuntimeError Value := do
  let product ← ArithmeticOp.combine .mul item (.int factor)
  ArithmeticOp.combine .add sum product

theorem addScaled_of_item {array : ArrayValue} {index : Int64} {item : Value}
    (hitem : array.item index = .ok (some item)) (factor : Int64) (sum : Value) :
    addScaled array factor sum index = (addProduct item factor sum).mapError .runtime := by
  rw [addScaled, hitem, addProduct]
  change (ArithmeticOp.mul.combine item (.int factor)).mapError SumFault.runtime >>= _ = _
  cases ArithmeticOp.mul.combine item (.int factor) <;> rfl

/-- The frame of the graph between two iterations. -/
def running (position : Nat) (sum : Value) : List (Option Value) :=
  [some (.int (Int64.ofNat position)), some sum]

variable {context : Reference.Context} {array : ArrayValue} {factor : Int64} {sum : Value}
  {position : Nat}

section Values

theorem value_nextIndex (position : Nat) :
    value context (running position sum) nextIndex = .ok (.int (Int64.ofNat (position + 1))) := by
  rw [Int64.ofNat_add]
  rfl

variable (harray : context.arguments[0]? = some (.array array))
include harray

theorem value_arg_zero (cells : List (Option Value)) :
    value context cells (.arg 0 : ExprShape) = .ok (.array array) := by
  rw [value, Run.argument, harray]

theorem value_belowLength (hfull : array.Full) (hposition : position ≤ array.length) :
    value context (running position sum) belowLength =
      .ok (.bool (decide (position < array.length))) := by
  have hlength : value context (running position sum) (.length (.arg 0) : ExprShape) =
      .ok array.lengthValue := by
    rw [value, value_arg_zero harray]
    rfl
  calc value context (running position sum) belowLength
      = .ok (.bool (decide (Int64.ofNat position <
          Int64.ofNat (min array.length 0x7fffffffffffffff)))) := by
        rw [belowLength, value, hlength]
        rfl
    _ = .ok (.bool (decide (position < array.length))) := by
        rw [decide_eq_decide.mpr (hfull.ofNat_lt_length_iff hposition)]

theorem value_nextSum {item : Value}
    (hitem : array.item (Int64.ofNat position) = .ok (some item)) :
    value context (running position sum) (nextSum factor) =
      (addProduct item factor sum).mapError .runtime := by
  have helement : value context (running position sum)
      (.element () (.arg 0) (readAny 0) : ExprShape) = .ok item := by
    rw [value, value_arg_zero harray]
    change ((array.item (Int64.ofNat position)).mapError Fault.breach >>= _) = _
    rw [hitem]
    rfl
  rw [nextSum, value, value, helement, addProduct]
  change (ArithmeticOp.mul.combine item (.int factor)).mapError Fault.runtime >>= _ = _
  cases ArithmeticOp.mul.combine item (.int factor) <;> rfl

end Values

section Runs

/-- The run leaves the sum in the frame, at the given position, or ends with its error. -/
def Leaves (context : Reference.Context) (depth : Nat) (action : Run Flow)
    (cells : List (Option Value)) (position : Nat) : Except SumFault Value → Prop
  | .ok total => Gives context depth action cells (.ok .normal) (running position total)
  | .error (.runtime error) =>
      ∃ after, Gives context depth action cells (.error (.runtime error)) after
  | .error (.breach _) => False

theorem Leaves.imp {depth deeper : Nat} {action wider : Run Flow}
    {cells middle : List (Option Value)} {result : Except SumFault Value}
    (hleaves : Leaves context deeper action middle position result)
    (himp : ∀ {result after}, Gives context deeper action middle result after →
      Gives context depth wider cells result after) :
    Leaves context depth wider cells position result := by
  rcases result with (error | outside) | total
  · obtain ⟨after, hgives⟩ := hleaves
    exact ⟨after, himp hgives⟩
  · exact hleaves
  · exact himp hleaves

variable (harray : context.arguments[0]? = some (.array array)) (hfull : array.Full)
  (hslots : context.slots = 2) {depth : Nat} (hroom : depth + 6 ≤ context.maxDepth)
include harray hfull hslots hroom

/-- One iteration adds the item at its position. -/
theorem leaves_addItem (hposition : position < array.length) :
    Leaves context depth (exec (addItem factor)) (running position sum) (position + 1)
      (addScaled array factor sum (Int64.ofNat position)) := by
  obtain ⟨item, hitem⟩ := hfull.items position hposition
  have hsum : value context (running position sum) (nextSum factor) = _ :=
    value_nextSum harray hitem
  have hsumHeight : (nextSum factor).height = 4 := rfl
  have hindexHeight : nextIndex.height = 2 := rfl
  rw [addScaled_of_item hitem]
  generalize addProduct item factor sum = result at hsum
  rcases result with error | total
  · exact ⟨_, .block (by omega) (.execAll_cons_error (.write_error (by omega) hsum))⟩
  · refine .block (by omega) (.execAll_cons (.write (by omega) hsum ?_ (by omega)) ?_)
    · simp [running]
    · refine .execAll_singleton (.write (by omega) (value_nextIndex position) ?_ (by omega))
      simp [running]

/-- The loop adds the items from its position on. -/
theorem leaves_iterate (count : Nat) (hcount : position + count = array.length) {fuel : Nat}
    (hfuel : count < fuel) :
    Leaves context depth
      (iterate (Reference.loopStep (eval belowLength) (exec (addItem factor))) fuel)
      (running position sum) array.length
      (sumFrom array factor count (Int64.ofNat position) sum) := by
  have hheight : belowLength.height = 3 := rfl
  -- On the items that are left, whatever the position and the sum so far.
  induction count generalizing position sum fuel with
  | zero =>
      obtain ⟨fuel, rfl⟩ : ∃ rest, fuel = rest + 1 := ⟨fuel - 1, by omega⟩
      obtain rfl : position = array.length := hcount
      have hcondition : value context (running array.length sum) belowLength =
          .ok (.bool false) := by
        rw [value_belowLength harray hfull (Nat.le_refl _), decide_eq_false (Nat.lt_irrefl _)]
      exact .iterate_done (.loopStep_left (by omega) hcondition)
  | succ count ih =>
      obtain ⟨fuel, rfl⟩ : ∃ rest, fuel = rest + 1 := ⟨fuel - 1, by omega⟩
      have hposition : position < array.length := by omega
      have hcondition : value context (running position sum) belowLength = .ok (.bool true) := by
        rw [value_belowLength harray hfull (Nat.le_of_lt hposition), decide_eq_true hposition]
      have hbody : Leaves context depth (exec (addItem factor)) (running position sum)
          (position + 1) (addScaled array factor sum (Int64.ofNat position)) :=
        leaves_addItem harray hfull hslots hroom hposition
      rw [sumFrom]
      generalize addScaled array factor sum (Int64.ofNat position) = result at hbody
      rcases result with (error | outside) | total
      · obtain ⟨after, hbody⟩ := hbody
        exact ⟨after, .iterate_error (.loopStep_error (by omega) hcondition hbody)⟩
      · exact hbody.elim
      · have hnext : Int64.ofNat position + 1 = Int64.ofNat (position + 1) :=
          (Int64.ofNat_add position 1).symm
        dsimp only
        rw [hnext]
        have hrest := @ih total (position + 1) (by omega) fuel (by omega)
        exact hrest.imp (.iterate_running (.loopStep_entered (by omega) hcondition hbody))

end Runs

/-- The graph starts its loop at the first position, with a sum of zero. -/
theorem gives_start (hslots : context.slots = 2) (hroom : 3 ≤ context.maxDepth)
    {result : Except Fault Flow} {after : List (Option Value)}
    (hrest : Gives context 1
      (Reference.execAll [.loop belowLength (addItem factor), .ret (readAny 1)])
      (running 0 (.int 0)) result after) :
    Gives context 0
      (exec (.block [.write 1 (int 0), .write 0 (int 0), .loop belowLength (addItem factor),
        .ret (readAny 1)]))
      [none, none] result after := by
  have hheight : (int 0).height = 1 := rfl
  have hzero : ∀ cells, value context cells (int 0) = .ok (.int 0) := fun _ => rfl
  refine .block (by omega) (.execAll_cons (.write (by omega) (hzero _) (by decide) (by omega)) ?_)
  exact .execAll_cons (.write (by omega) (hzero _) (by decide) (by omega)) hrest

/-- The whole graph gives the sum, and no fault but a runtime error. -/
theorem runBody_scaledSum (harray : context.arguments[0]? = some (.array array))
    (hfull : array.Full) (hslots : context.slots = 2) (hroom : 8 ≤ context.maxDepth)
    (hfuel : array.length < context.fuel) :
    ∃ result : Except RuntimeError Value,
      scaledSumOf array factor = result.mapError .runtime ∧
        (runBody (scaledSum factor).body context { cells := [none, none], depth := 0 }).1 =
          result.mapError .runtime := by
  have hlength : (Int64.ofNat array.length).toInt.toNat = array.length := by
    rw [Int64.toInt_ofNat_of_lt hfull.short, Int.toNat_natCast]
  have hloop : Leaves context 1 (exec (.loop belowLength (addItem factor))) (running 0 (.int 0))
      array.length (scaledSumOf array factor) := by
    rw [scaledSumOf, hlength]
    -- The iterations run at the second level, and need six of their own.
    exact (leaves_iterate harray hfull hslots hroom array.length (Nat.zero_add _) hfuel).imp
      (.loop (by omega))
  rw [body_scaledSum]
  generalize scaledSumOf array factor = sum at hloop
  rcases sum with (error | outside) | total
  · obtain ⟨after, hloop⟩ := hloop
    have hrun := Gives.runBody_error (gives_start hslots (by omega) (.execAll_cons_error hloop))
    exact ⟨.error error, rfl, congrArg Prod.fst (hrun nofun)⟩
  · exact hloop.elim
  · have hheight : (readAny 1).height = 1 := rfl
    have hret : Gives context 1 (exec (.ret (readAny 1))) (running array.length total)
        (.ok (.ret total)) _ := .ret (by omega)
    have hrun := Gives.runBody_ret
      (gives_start hslots (by omega) (.execAll_cons hloop (.execAll_singleton hret)))
    exact ⟨.ok total, rfl, congrArg Prod.fst (hrun nofun)⟩

/-- After any script whose steps end, a target of the scaled sum gives the sum of every full array:
the value or the runtime error, and nothing else. One iteration more than the array has items is
enough. -/
theorem scaledSum_computes_scaledSumOf {fuel : Nat} {actions : List Action}
    (hends : ∀ outcome ∈ ({} : Session).outcomes fuel actions, outcome.Ends) {id next : Nat}
    {target : Target} (htarget : (({} : Session).run fuel actions).host.targets[id]? = some target)
    {factor : Int64} (hroot : target.root = ((scaledSum factor).label next).1)
    (hdepth : 8 ≤ target.options.maxDepth) {array : ArrayValue} (hfull : array.Full) {allowed : Nat}
    (hallowed : array.length < allowed) :
    ∃ result after,
      (({} : Session).run fuel actions).host.invoke allowed id #[.array array] =
          some (result, after) ∧
        (∀ total, result = .ok total ↔ scaledSumOf array factor = .ok total) ∧
        (∀ error, result = .error (.runtime error) ↔
          scaledSumOf array factor = .error (.runtime error)) ∧
        ((∃ total, result = .ok total) ∨ ∃ error, result = .error (.runtime error)) := by
  obtain ⟨ceiling, hsound⟩ := Session.exists_sound_run hends
  obtain ⟨-, engine, hengine, -⟩ := hsound.targets id target htarget
  obtain ⟨result, hsum, hmeaning⟩ : ∃ result : Except RuntimeError Value,
      scaledSumOf array factor = result.mapError .runtime ∧
        target.meaning engine (({} : Session).run fuel actions).host.flags #[.array array] allowed =
          result.mapError .runtime := by
    unfold Target.meaning
    rw [hroot, runBody_label]
    exact runBody_scaledSum rfl hfull rfl hdepth hallowed
  have hreturns : result.mapError Fault.runtime ≠ .error .outOfFuel := by
    cases result <;> exact nofun
  obtain ⟨after, hinvoke⟩ := hsound.invoke_eq htarget hengine #[.array array]
    (by rwa [hmeaning]) (Nat.le_refl allowed)
  rw [hmeaning] at hinvoke
  refine ⟨_, after, hinvoke, ?_⟩
  rw [hsum]
  cases result <;> simp [Except.mapError]

/-- A target with room for one shape that has seen a progression, no array at all, and a dense array
with an undefined item. -/
def mixedShapes : List Action :=
  [ .addEngine { cacheLimit := 1 },
    .addTarget 0 (scaledSum 2) { maxDepth := 8, compileThreshold := 1, osrThreshold := 1 } [],
    .invoke 0 #[.array (.progression { start := 1, length := 3, stride := 1 })],
    .invoke 0 #[.str "items"],
    .invoke 0 #[.array (.dense 0 #[.undefined, .int 4])] ]

theorem label_scaledSum (factor : Int64) (next : Nat) :
    (scaledSum factor).label next =
      ({ name := "mul_and_sum"
         frameSize := 2
         body := .stmt (.block
           [ .write 1 (.const (.int 0)),
             .write 0 (.const (.int 0)),
             .loop (.compare .less (.read 0 .any) (.length (.arg 0)))
               (.block
                 [ .write 1 (.arith next .add (.read 1 .any)
                     (.arith (next + 1) .mul (.element (next + 2) (.arg 0) (.read 0 .any))
                       (.const (.int factor)))),
                   .write 0 (.arith (next + 3) .add (.read 0 .any) (.const (.int 1))) ]),
             .ret (.read 1 .any) ]) }, next + 4) :=
  rfl

def texted : ArrayValue :=
  .dense 1 #[.int 4, .str "five", .int 6]

def descending : ArrayValue :=
  .progression { start := 5, length := 3, stride := -1 }

theorem scaledSum_computes_scaledSumOf_mixedShapes :
    let host := (({} : Session).run 4 mixedShapes).host
    (∃ after, host.invoke 4 0 #[.array texted] =
        some (.error (.runtime (.unsupportedOperands "*" .str .int)), after)) ∧
      ∃ after, host.invoke 4 0 #[.array descending] = some (.ok (.int 24), after) := by
  have houtcomes : ({} : Session).outcomes 4 mixedShapes =
      [ .done,
        .done,
        .ended (.ok (.value (.int 12))),
        .ended (.error (.runtime (.notAnArray .str))),
        .ended (.ok (.value .undefined)) ] := by
    rw [mixedShapes, Session.outcomes_single (label_scaledSum 2 0)]
    cbv
  have hends : ∀ outcome ∈ ({} : Session).outcomes 4 mixedShapes, outcome.Ends := by
    rw [houtcomes]
    simp [Outcome.Ends]
  have hbuilt : (({} : Session).run 4 mixedShapes).host.targets[0]?.map
      (fun target => (target.root, target.options.maxDepth)) =
        some (((scaledSum 2).label 0).1, 8) := by
    rw [mixedShapes, Session.run_single (label_scaledSum 2 0), label_scaledSum]
    cbv
  obtain ⟨target, htarget, hparts⟩ := Option.map_eq_some_iff.mp hbuilt
  obtain ⟨hroot, hdepth⟩ := Prod.mk.inj hparts
  have hlimit : 8 ≤ target.options.maxDepth := Nat.le_of_eq hdepth.symm
  have htexted : texted.Full := ArrayValue.full_dense 1 (by decide)
  have hdescending : descending.Full := ArrayValue.full_progression (by decide)
  have htextedLength : texted.length < 4 := by decide
  have hdescendingLength : descending.length < 4 := by decide
  constructor
  · obtain ⟨result, after, hinvoke, -, hfails, -⟩ :=
      scaledSum_computes_scaledSumOf hends htarget hroot hlimit htexted htextedLength
    obtain rfl := (hfails (.unsupportedOperands "*" .str .int)).mpr (by cbv)
    exact ⟨after, hinvoke⟩
  · obtain ⟨result, after, hinvoke, hreturns, -⟩ :=
      scaledSum_computes_scaledSumOf hends htarget hroot hlimit hdescending hdescendingLength
    obtain rfl := (hreturns (.int 24)).mpr (by cbv)
    exact ⟨after, hinvoke⟩

end SampleGraph

end AdaptiveEval
