import AdaptiveEval.Proofs.LoopTally
import Mathlib.Algebra.Order.Ring.Int
import Mathlib.Order.Bounds.Defs

/-!
# The counting loop

The graph that counts to a bound takes as many steps as the bound needs, returns where they lead,
and is handed over exactly if it takes as many of them as the threshold says.
-/

namespace AdaptiveEval.SampleGraph

open Reference

section Graph

def belowBound (bound : Int64) : Expr SiteId :=
  .compare .less (.read 0 .any) (.const (.int bound))

def nextCount (site : SiteId) (step : Int64) : Expr SiteId :=
  .arith site .add (.read 0 .any) (.const (.int step))

theorem label_countTo (bound step : Int64) (next : Nat) :
    (countTo bound step).label next =
      ({ name := "count_to"
         frameSize := 1
         body := .stmt (.block
           [ .write 0 (.const (.int 0)),
             .loop (belowBound bound) (.write 0 (nextCount next step)),
             .ret (.read 0 .any) ]) }, next + 1) :=
  rfl

end Graph

/-- The frame of the graph after a number of steps. -/
def counted (step : Int64) (index : Nat) : List (Option Value) :=
  [some (.int (.ofInt (index * step.toInt)))]

/-- No step before the last reaches the bound, and none leads past the largest integer. -/
structure Reaches (bound step : Int64) (count : Nat) : Prop where
  positive : 0 < step.toInt
  below : ∀ index < count, index * step.toInt < bound.toInt
  reached : bound.toInt ≤ count * step.toInt
  fits : count * step.toInt < 2 ^ 63

namespace Reaches

variable {bound step : Int64} {count : Nat}

theorem of_isLeast (hstep : 1 ≤ step)
    (hcount : if bound ≤ 0 then count = 0
      else IsLeast {steps : Int | bound.toInt ≤ steps * step.toInt} count)
    (hfits : count * step.toInt ≤ Int64.maxValue.toInt) : Reaches bound step count where
  positive := Int64.le_iff_toInt_le.mp hstep
  below index hindex := by
    split at hcount
    · omega
    · by_contra hreached
      have hle : (count : Int) ≤ index := hcount.2 (Int.not_lt.mp hreached)
      omega
  reached := by
    split at hcount
    · rename_i hbound
      have hbound : bound.toInt ≤ 0 := Int64.le_iff_toInt_le.mp hbound
      rw [hcount]
      omega
    · exact hcount.1
  fits := by
    rw [Int64.toInt_maxValue] at hfits
    omega

variable (hreaches : Reaches bound step count)
include hreaches

theorem toInt_counted {index : Nat} (hindex : index ≤ count) :
    (Int64.ofInt (index * step.toInt)).toInt = index * step.toInt := by
  have hpositive := hreaches.positive
  have hle : index * step.toInt ≤ count * step.toInt :=
    Int.mul_le_mul_of_nonneg_right (by omega) (by omega)
  have hnonneg : 0 ≤ index * step.toInt := Int.mul_nonneg (by omega) (by omega)
  have hfits := hreaches.fits
  exact Int64.toInt_ofInt_of_le (by omega) (by omega)

/-- A bound that is a multiple of the step is met. -/
theorem eq_bound_of_dvd (hbound : 0 ≤ bound) (hdvd : step.toInt ∣ bound.toInt) :
    Int64.ofInt (count * step.toInt) = bound := by
  obtain ⟨factor, hfactor⟩ := hdvd
  have hpositive := hreaches.positive
  have hbound : 0 ≤ bound.toInt := Int64.le_iff_toInt_le.mp hbound
  have hnonneg : 0 ≤ factor := by
    by_contra hnegative
    have hproduct := Int.mul_neg_of_pos_of_neg hpositive (Int.not_le.mp hnegative)
    omega
  obtain ⟨steps, rfl⟩ := Int.eq_ofNat_of_zero_le hnonneg
  have hsteps : count = steps := by
    apply Nat.le_antisymm
    · by_contra hlt
      have hbelow := hreaches.below steps (Nat.not_le.mp hlt)
      rw [hfactor, Int.mul_comm] at hbelow
      exact Int.lt_irrefl _ hbelow
    · have hreached := hreaches.reached
      rw [hfactor, Int.mul_comm] at hreached
      exact Int.ofNat_le.mp (Int.le_of_mul_le_mul_right hreached hpositive)
  rw [hsteps, Int.mul_comm, ← hfactor, Int64.ofInt_toInt]

section Values

variable {context : Reference.Context} {index : Nat}

theorem value_belowBound (hindex : index ≤ count) :
    value context (counted step index) (belowBound bound) =
      .ok (.bool (decide (index < count))) := by
  have hcompare : Int64.ofInt (index * step.toInt) < bound ↔ index < count := by
    rw [Int64.lt_iff_toInt_lt, hreaches.toInt_counted hindex]
    constructor
    · intro hlt
      by_contra hle
      obtain rfl : index = count := by omega
      exact absurd hreaches.reached (Int.not_le.mpr hlt)
    · exact hreaches.below index
  calc value context (counted step index) (belowBound bound)
      = .ok (.bool (decide (Int64.ofInt (index * step.toInt) < bound))) := rfl
    _ = .ok (.bool (decide (index < count))) := by rw [decide_eq_decide.mpr hcompare]

end Values

end Reaches

theorem value_nextCount {context : Reference.Context} (site : SiteId) (step : Int64) (index : Nat) :
    value context (counted step index) (nextCount site step) =
      .ok (.int (.ofInt (↑(index + 1) * step.toInt))) := by
  have hnext : Int64.ofInt (↑(index + 1) * step.toInt) =
      .ofInt (index * step.toInt) + step := by
    rw [Nat.cast_succ, Int.add_mul, Int.one_mul, Int64.ofInt_add, Int64.ofInt_toInt]
  rw [hnext]
  rfl

section Runs

variable {bound step : Int64} {count : Nat} (hreaches : Reaches bound step count)
  {context : Reference.Context} {depth : Nat}
include hreaches

theorem gives_counted (hslots : context.slots = 1) (hroom : depth + 3 ≤ context.maxDepth)
    (site : SiteId) {index : Nat} (hindex : index < count) :
    Gives context depth
      (Reference.loopStep (Reference.eval (belowBound bound))
        (Reference.exec (.write 0 (nextCount site step))))
      (counted step index) (.ok .running) (counted step (index + 1)) := by
  have hguard : (belowBound bound).height = 2 := rfl
  have hnext : (nextCount site step).height = 2 := rfl
  have hcondition : value context (counted step index) (belowBound bound) =
      .ok (.bool true) := by
    rw [hreaches.value_belowBound (Nat.le_of_lt hindex), decide_eq_true hindex]
  apply Gives.loopStep_entered (by omega) hcondition
  exact .write (by omega) (value_nextCount site step index) Nat.zero_lt_one (by omega)

theorem gives_left (hroom : depth + 2 ≤ context.maxDepth) (site : SiteId) :
    Gives context depth
      (Reference.loopStep (Reference.eval (belowBound bound))
        (Reference.exec (.write 0 (nextCount site step))))
      (counted step count) (.ok (.done .normal)) (counted step count) := by
  have hguard : (belowBound bound).height = 2 := rfl
  apply Gives.loopStep_left (by omega)
  rw [hreaches.value_belowBound (Nat.le_refl count), decide_eq_false (Nat.lt_irrefl count)]

end Runs

/-- The whole graph, with one loop of as many iterations as the bound needs steps. -/
theorem completes_countTo {bound step : Int64} {count : Nat} (hreaches : Reaches bound step count)
    {context : AdaptiveEval.Context} (hroom : 5 ≤ context.options.maxDepth)
    (hfuel : count < context.fuel) (next : Nat) :
    Completes context 1 0 ((countTo bound step).label next).1.tallied [none]
      (.int (.ofInt (count * step.toInt))) (counted step count) [count] := by
  have hlimit : (context.setting 1).plain.maxDepth = context.options.maxDepth := rfl
  have hread : (.read 0 .any : Expr SiteId).height = 1 := rfl
  have hconst : (.const (.int 0) : Expr SiteId).height = 1 := rfl
  have hstart : Completes context 1 1 (Stmt.write 0 (.const (.int 0))).tallied [none] .normal
      (counted step 0) [] := by
    have hzero : counted step 0 = [some (.int 0)] := by
      rw [counted, Nat.cast_zero, Int.zero_mul]
      rfl
    rw [hzero]
    apply Completes.stmt_of_gives rfl
    exact .write (by omega) rfl Nat.zero_lt_one Nat.zero_lt_one
  have hloop : Completes context 1 1
      (Stmt.loop (belowBound bound) (.write 0 (nextCount next step))).tallied (counted step 0)
      .normal (counted step count) [count] := by
    apply Completes.loop rfl (by omega) hfuel
    · exact fun index hindex => gives_counted hreaches rfl (by omega) next hindex
    · exact gives_left hreaches (by omega) next
  have hret : Completes context 1 1 (Stmt.ret (.read 0 .any)).tallied (counted step count)
      (.ret (.int (.ofInt (count * step.toInt)))) (counted step count) [] := by
    apply Completes.stmt_of_gives rfl
    exact .ret (by omega)
  rw [label_countTo]
  apply Completes.root_ret rfl
  apply Completes.block (by omega)
  exact .talliedAll_cons hstart (.talliedAll_cons hloop (.talliedAll_ret hret))

/-- After any script whose steps end, a target that counts to a bound returns where the steps lead
that the bound needs, and counts a hand-over if they are as many as its threshold says. A bound that
is not positive needs no step, and one iteration more than there are steps is enough. -/
theorem countTo_reaches_bound {fuel : Nat} {actions : List Action}
    (hends : ∀ outcome ∈ ({} : Session).outcomes fuel actions, outcome.Ends) {id next : Nat}
    {target : Target} (htarget : (({} : Session).run fuel actions).host.targets[id]? = some target)
    {bound step : Int64} (hroot : target.root = ((countTo bound step).label next).1)
    (hdepth : 5 ≤ target.options.maxDepth) (hstep : 1 ≤ step) {count : Nat}
    (hcount : if bound ≤ 0 then count = 0
      else IsLeast {steps : Int | bound.toInt ≤ steps * step.toInt} count)
    (hfits : count * step.toInt ≤ Int64.maxValue.toInt) (arguments : Array Value) {allowed : Nat}
    (hallowed : count < allowed) :
    ∃ total after reached,
      (({} : Session).run fuel actions).host.invoke allowed id arguments =
          some (.ok (.int total), after) ∧
        total.toInt = count * step.toInt ∧
        (0 ≤ bound → step.toInt ∣ bound.toInt → total = bound) ∧
        after.targets[id]? = some reached ∧
        reached.state.osrEntries =
          target.state.osrEntries + if target.options.osrThreshold ≤ count then 1 else 0 := by
  obtain ⟨ceiling, hsound⟩ := Session.exists_sound_run hends
  obtain ⟨-, engine, hengine, -⟩ := hsound.targets id target htarget
  have hreaches : Reaches bound step count := .of_isLeast hstep hcount hfits
  have hslots : target.root.frameSize = 1 := by rw [hroot, label_countTo]
  have hcompletes : Completes
      ((({} : Session).run fuel actions).host.context allowed engine.registry target.options
        arguments) target.root.frameSize 0 target.root.tallied
      (List.replicate target.root.frameSize none) (.int (.ofInt (count * step.toInt)))
      (counted step count) [count] := by
    rw [hslots, hroot]
    exact completes_countTo hreaches hdepth hallowed next
  obtain ⟨after, reached, hinvoke, hreached, hentries⟩ :=
    hsound.invoke_of_completes htarget hengine hcompletes
  refine ⟨_, after, reached, hinvoke, hreaches.toInt_counted (Nat.le_refl count),
    hreaches.eq_bound_of_dvd, hreached, ?_⟩
  rw [hentries]
  simp [List.countP_cons]

/-- A count with a bound between two steps, whose site has met an undefined value between two
invocations. -/
def usedCounter : List Action :=
  [ .addEngine {},
    .addTarget 0 (countTo 7 3) { maxDepth := 5, compileThreshold := 1, osrThreshold := 3 } [],
    .invoke 0 #[],
    .activate 0 #[],
    .drive 0 (.expr (.arith 0 .add (.const .undefined) (.const (.int 1)))),
    .invoke 0 #[.int 4] ]

theorem countTo_reaches_bound_usedCounter :
    ∃ after reached,
      (({} : Session).run 4 usedCounter).host.invoke 4 0 #[] = some (.ok (.int 9), after) ∧
        after.targets[0]? = some reached ∧ reached.state.osrEntries = 3 := by
  have houtcomes : ({} : Session).outcomes 4 usedCounter =
      [ .done,
        .done,
        .ended (.ok (.value (.int 9))),
        .done,
        .ended (.ok (.value .undefined)),
        .ended (.ok (.value (.int 9))) ] := by
    rw [usedCounter, Session.outcomes_single (label_countTo 7 3 0)]
    cbv
  have hends : ∀ outcome ∈ ({} : Session).outcomes 4 usedCounter, outcome.Ends := by
    rw [houtcomes]
    simp [Outcome.Ends]
  have hbuilt : (({} : Session).run 4 usedCounter).host.targets[0]?.map
      (fun target => (target.root, target.options, target.state.osrEntries)) =
        some (((countTo 7 3).label 0).1,
          { maxDepth := 5, compileThreshold := 1, osrThreshold := 3 }, 2) := by
    rw [usedCounter, Session.run_single (label_countTo 7 3 0), label_countTo]
    cbv
  obtain ⟨target, htarget, hparts⟩ := Option.map_eq_some_iff.mp hbuilt
  obtain ⟨hroot, hparts⟩ := Prod.mk.inj hparts
  obtain ⟨hoptions, hentries⟩ := Prod.mk.inj hparts
  have hdepth : 5 ≤ target.options.maxDepth := by rw [hoptions]
  have hleast : IsLeast {steps : Int | (7 : Int64).toInt ≤ steps * (3 : Int64).toInt} (3 : Nat) := by
    refine ⟨by decide, fun steps hsteps => ?_⟩
    change (7 : Int) ≤ steps * 3 at hsteps
    omega
  obtain ⟨total, after, reached, hinvoke, htotal, -, hreached, hcounted⟩ :=
    countTo_reaches_bound hends htarget hroot hdepth (by decide) hleast (by decide) #[]
      (Nat.lt_succ_self 3)
  obtain rfl : total = 9 := Int64.toInt_inj.mp htotal
  rw [hentries, hoptions] at hcounted
  exact ⟨after, reached, hinvoke, hreached, hcounted⟩

end AdaptiveEval.SampleGraph
