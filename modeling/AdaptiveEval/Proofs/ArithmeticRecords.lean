import AdaptiveEval.Proofs.SiteResults
import Mathlib.Algebra.BigOperators.Group.Finset.Piecewise
import Mathlib.Data.Fintype.Basic

/-!
# What arithmetic sites record

Several sites combine operands in any order and share one code generation. A site that has seen
integers only passes by the table and the record of variants; that it may do so without being
noticed is what the first lemma says.
-/

namespace AdaptiveEval

open scoped BigOperators

/-- Passing by the record changes nothing, since the variant is on it already. -/
theorem ArithmeticSite.evaluate_snd (site : ArithmeticSite) (op : ArithmeticOp)
    (left right : Value) (generation : Nat) :
    (site.evaluate op left right generation).2 =
      match Variant.select? left right with
      | none => (site, generation)
      | some variant => site.observe variant generation := by
  unfold evaluate
  cases hfast : site.fastPath? op left right with
  | some value =>
      unfold fastPath? at hfast
      split at hfast
      · split at hfast
        · rename_i hseen
          obtain ⟨seen⟩ := site
          subst hseen
          rfl
        · simp at hfast
      · simp at hfast
  | none => cases Variant.select? left right <;> rfl

theorem ArithmeticOp.combine_eq_error_iff {op : ArithmeticOp} {left right : Value}
    {error : RuntimeError} :
    op.combine left right = .error error ↔
      Variant.select? left right = none ∧ error = unsupported op.symbol left right := by
  unfold combine
  cases Variant.select? left right with
  | none => simp [eq_comm]
  | some variant => simp

theorem ArithmeticOp.exists_combine_eq_ok_iff {op : ArithmeticOp} {left right : Value} :
    (∃ value, op.combine left right = .ok value) ↔
      ∃ variant, Variant.select? left right = some variant := by
  unfold combine
  cases Variant.select? left right <;> simp

/-- Two values to combine at a site. -/
structure Operands (ι : Type) where
  site : ι
  left : Value
  right : Value

/-- Arithmetic sites, each with its operator, that share one code generation. -/
structure ArithmeticSites (ι : Type) where
  operators : ι → ArithmeticOp
  sites : ι → ArithmeticSite
  generation : Nat

namespace ArithmeticSites

variable {ι : Type}

def ofOperators (operators : ι → ArithmeticOp) : ArithmeticSites ι :=
  { operators, sites := fun _ => {}, generation := 0 }

variable [DecidableEq ι]

def evaluate (state : ArithmeticSites ι) (operands : Operands ι) :
    Except RuntimeError Value × ArithmeticSites ι :=
  match (state.sites operands.site).evaluate (state.operators operands.site) operands.left
      operands.right state.generation with
  | (result, site, generation) =>
      (result, { state with sites := Function.update state.sites operands.site site, generation })

def run (state : ArithmeticSites ι) :
    List (Operands ι) → List (Except RuntimeError Value) × ArithmeticSites ι
  | [] => ([], state)
  | operands :: rest =>
      match state.evaluate operands with
      | (result, next) =>
          match next.run rest with
          | (results, final) => (result :: results, final)

/-- The state in which a site has put a variant on its record. -/
def record (state : ArithmeticSites ι) (site : ι) (variant : Variant) : ArithmeticSites ι :=
  { state with
    sites := Function.update state.sites site
      { seen := (state.sites site).seen.insert variant }
    generation :=
      if (state.sites site).seen.contains variant then state.generation else state.generation + 1 }

theorem evaluate_eq (state : ArithmeticSites ι) (operands : Operands ι) :
    state.evaluate operands =
      ((state.operators operands.site).combine operands.left operands.right,
        match Variant.select? operands.left operands.right with
        | none => state
        | some variant => state.record operands.site variant) := by
  have hresult := (state.sites operands.site).evaluate_fst (state.operators operands.site)
    operands.left operands.right state.generation
  have hsite := (state.sites operands.site).evaluate_snd (state.operators operands.site)
    operands.left operands.right state.generation
  unfold evaluate
  rw [← hresult]
  cases hselect : Variant.select? operands.left operands.right with
  | none =>
      rw [hselect] at hsite
      simp only [hsite, Function.update_eq_self]
  | some variant =>
      rw [hselect] at hsite
      simp only [hsite]
      rfl

theorem contains_record (state : ArithmeticSites ι) (site other : ι) (variant seen : Variant) :
    ((state.record site variant).sites other).seen.contains seen = true ↔
      (site = other ∧ variant = seen) ∨ (state.sites other).seen.contains seen = true := by
  by_cases hother : site = other
  · subst hother
    simp [record, VariantSet.contains_insert, eq_comm (a := variant)]
  · simp [record, hother, Function.update_of_ne (Ne.symm hother)]

section Records

variable [Fintype ι]

/-- All variants on the records of all sites. -/
def recorded (state : ArithmeticSites ι) : Nat :=
  ∑ site, (state.sites site).seen.size

theorem recorded_record (state : ArithmeticSites ι) (site : ι) (variant : Variant) :
    (state.record site variant).recorded =
      if (state.sites site).seen.contains variant then state.recorded else state.recorded + 1 := by
  have hupdate : (fun other => ((state.record site variant).sites other).seen.size) =
      Function.update (fun other => (state.sites other).seen.size) site
        ((state.sites site).seen.insert variant).size := by
    funext other
    by_cases hother : other = site <;> simp [record, hother]
  have hsum := Finset.add_sum_erase Finset.univ (fun other => (state.sites other).seen.size)
    (Finset.mem_univ site)
  calc (state.record site variant).recorded
      = ((state.sites site).seen.insert variant).size +
          ∑ other ∈ Finset.univ.erase site, (state.sites other).seen.size := by
        rw [recorded, hupdate, Finset.sum_update_of_mem (Finset.mem_univ site),
          Finset.sdiff_singleton_eq_erase]
    _ = if (state.sites site).seen.contains variant then state.recorded
          else state.recorded + 1 := by
        rw [VariantSet.size_insert, recorded, ← hsum]
        split <;> omega

/-- The records hold the variants of the operands combined so far, and the generation counts
them. -/
structure Recorded (past : List (Operands ι)) (state : ArithmeticSites ι) : Prop where
  seen : ∀ site variant, (state.sites site).seen.contains variant = true ↔
    ∃ operands ∈ past, operands.site = site ∧
      Variant.select? operands.left operands.right = some variant
  generation : state.generation = state.recorded

namespace Recorded

variable {past : List (Operands ι)} {state : ArithmeticSites ι}

omit [DecidableEq ι] in
theorem ofOperators (operators : ι → ArithmeticOp) :
    Recorded [] (ArithmeticSites.ofOperators operators) where
  seen site variant := by
    cases variant <;> simp [ArithmeticSites.ofOperators, VariantSet.contains, VariantSet.empty]
  generation := by
    simp [ArithmeticSites.ofOperators, recorded, VariantSet.size, VariantSet.empty]

theorem evaluate (hrecorded : Recorded past state) (operands : Operands ι) :
    Recorded (operands :: past) (state.evaluate operands).2 := by
  rw [evaluate_eq]
  cases hselect : Variant.select? operands.left operands.right with
  | none =>
      refine ⟨fun site variant => ?_, hrecorded.generation⟩
      rw [hrecorded.seen]
      simp [hselect]
  | some selected =>
      constructor
      · intro site variant
        dsimp only
        rw [contains_record, hrecorded.seen]
        simp [hselect]
      · dsimp only
        rw [recorded_record, ← hrecorded.generation]
        rfl

theorem run (hrecorded : Recorded past state) (steps : List (Operands ι)) :
    Recorded (steps.reverse ++ past) (state.run steps).2 := by
  induction steps generalizing state past with
  | nil => exact hrecorded
  | cons operands rest ih =>
      rw [List.reverse_cons, List.append_assoc]
      exact ih (hrecorded.evaluate operands)

end Recorded

end Records

theorem operators_evaluate (state : ArithmeticSites ι) (operands : Operands ι) :
    (state.evaluate operands).2.operators = state.operators := rfl

theorem operators_run (state : ArithmeticSites ι) (steps : List (Operands ι)) :
    (state.run steps).2.operators = state.operators := by
  induction steps generalizing state with
  | nil => rfl
  | cons operands rest ih => exact (ih _).trans (state.operators_evaluate operands)

theorem run_fst (state : ArithmeticSites ι) (steps : List (Operands ι)) :
    (state.run steps).1 = steps.map fun operands =>
      (state.operators operands.site).combine operands.left operands.right := by
  induction steps generalizing state with
  | nil => rfl
  | cons operands rest ih =>
      have hresult : (state.evaluate operands).1 =
          (state.operators operands.site).combine operands.left operands.right := by
        rw [evaluate_eq]
      rw [List.map_cons, ← hresult, ← state.operators_evaluate operands, ← ih]
      rfl

/-- **Sites combine as the table does and record exactly what they combined.** For any operators and
every sequence of operands at any of the sites, the results are those of the table; at the end each
site has on its record the variants selected by the operands that it combined with success, and the
generation is the number of variants on all records. Operands that fail are of kinds that no variant
accepts, and leave all sites and the generation as they are. -/
theorem sites_record_exactly [Fintype ι] (operators : ι → ArithmeticOp)
    (steps : List (Operands ι)) :
    let results := ((ofOperators operators).run steps).1
    let state := ((ofOperators operators).run steps).2
    results = steps.map (fun operands =>
      (operators operands.site).combine operands.left operands.right) ∧
    (∀ site variant, (state.sites site).seen.contains variant = true ↔
      ∃ operands value, (operands, .ok value) ∈ steps.zip results ∧ operands.site = site ∧
        Variant.select? operands.left operands.right = some variant) ∧
    state.generation = ∑ site, (state.sites site).seen.size ∧
    ∀ operands error, (state.evaluate operands).1 = .error error →
      error = .unsupportedOperands (operators operands.site).symbol operands.left.kind
        operands.right.kind ∧
      (state.evaluate operands).2 = state := by
  intro results state
  have hresults : results = steps.map fun operands =>
      (operators operands.site).combine operands.left operands.right :=
    run_fst (ofOperators operators) steps
  have hrecorded : Recorded (steps.reverse ++ []) state :=
    (Recorded.ofOperators operators).run steps
  refine ⟨hresults, fun site variant => ?_, hrecorded.generation, fun operands error hfailed => ?_⟩
  · have hzip : steps.zip results = steps.map fun operands =>
        (operands, (operators operands.site).combine operands.left operands.right) := by
      rw [hresults]
      simpa using List.zip_map' (f := id) (l := steps)
    rw [hrecorded.seen, hzip]
    constructor
    · rintro ⟨operands, hmem, hsite, hselect⟩
      -- A variant is selected exactly for the operands that the table can combine.
      obtain ⟨value, hvalue⟩ := ArithmeticOp.exists_combine_eq_ok_iff.mpr ⟨variant, hselect⟩
      refine ⟨operands, value, List.mem_map.mpr ⟨operands, by simpa using hmem, ?_⟩, hsite, hselect⟩
      rw [hvalue]
    · rintro ⟨operands, value, hmem, hsite, hselect⟩
      obtain ⟨other, hother, heq⟩ := List.mem_map.mp hmem
      obtain rfl : other = operands := congrArg Prod.fst heq
      exact ⟨other, by simpa using hother, hsite, hselect⟩
  · have hoperators : state.operators = operators := operators_run _ steps
    rw [evaluate_eq, hoperators] at hfailed
    obtain ⟨hselect, herror⟩ := ArithmeticOp.combine_eq_error_iff.mp hfailed
    refine ⟨herror, ?_⟩
    rw [evaluate_eq, hselect]

end ArithmeticSites

end AdaptiveEval
