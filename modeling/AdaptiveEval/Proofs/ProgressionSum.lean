import AdaptiveEval.Proofs.NumericTower
import AdaptiveEval.Proofs.ScaledSum
import Mathlib.Tactic.Ring

/-!
# Scaled sums of progressions

The scaled sum of a progression has a closed form, up to wrapping. The sum has it as long as the
length of the progression is an integer. A longer progression is read as if it were empty.
-/

namespace AdaptiveEval.SampleGraph

/-- The sum of the scaled terms at the first `count` positions, over the integers. -/
def exactSum (terms : Progression) (factor : Int64) (count : Nat) : Int :=
  factor.toInt * (count * terms.start.toInt + terms.stride.toInt * count * (count - 1) / 2)

variable {terms : Progression} {factor : Int64}

theorem exactSum_zero (terms : Progression) (factor : Int64) : exactSum terms factor 0 = 0 := by
  simp [exactSum]

theorem exactSum_succ (terms : Progression) (factor : Int64) (count : Nat) :
    exactSum terms factor (count + 1) =
      exactSum terms factor count +
        (terms.start.toInt + count * terms.stride.toInt) * factor.toInt := by
  have htriangle : terms.stride.toInt * ↑(count + 1) * (↑(count + 1) - 1) / 2 =
      terms.stride.toInt * count * (count - 1) / 2 + terms.stride.toInt * count := by
    rw [← Int.add_mul_ediv_right _ _ two_ne_zero]
    congr 1
    push_cast
    ring
  unfold exactSum
  rw [htriangle]
  push_cast
  ring

theorem term_ofNat (terms : Progression) (position : Nat) :
    terms.term (Int64.ofNat position) =
      Int64.ofInt (terms.start.toInt + position * terms.stride.toInt) := by
  rw [Int64.ofInt_add, Int64.ofInt_mul, Int64.ofInt_toInt, Int64.ofInt_toInt, Int64.ofInt_eq_ofNat]
  rfl

/-- One more item of a progression keeps the sum exact, up to wrapping. -/
theorem addScaled_progression {position : Nat} (hposition : position < terms.length.toNat)
    (hshort : position < 2 ^ 63) :
    addScaled (.progression terms) factor (.int (.ofInt (exactSum terms factor position)))
        (Int64.ofNat position) =
      .ok (.int (.ofInt (exactSum terms factor (position + 1)))) := by
  have hnext : Int64.ofInt (exactSum terms factor (position + 1)) =
      .ofInt (exactSum terms factor position) + terms.term (Int64.ofNat position) * factor := by
    rw [exactSum_succ, Int64.ofInt_add, Int64.ofInt_mul, Int64.ofInt_toInt, term_ofNat]
  rw [addScaled_of_item (ArrayValue.item_progression hposition hshort), hnext]
  rfl

theorem sumFrom_progression (factor : Int64) (count : Nat) {position : Nat}
    (hcount : position + count = terms.length.toNat) (hshort : terms.length.toNat < 2 ^ 63) :
    sumFrom (.progression terms) factor count (Int64.ofNat position)
        (.int (.ofInt (exactSum terms factor position))) =
      .ok (.int (.ofInt (exactSum terms factor terms.length.toNat))) := by
  -- On the items that are left; the sum so far is that of the positions before.
  induction count generalizing position with
  | zero =>
      obtain rfl : position = terms.length.toNat := hcount
      rfl
  | succ count ih =>
      have hnext : Int64.ofNat position + 1 = Int64.ofNat (position + 1) :=
        (Int64.ofNat_add position 1).symm
      rw [sumFrom, addScaled_progression (by omega) (by omega)]
      dsimp only
      rw [hnext]
      exact ih (by omega)

theorem scaledSumOf_progression_of_lt (hshort : terms.length.toNat < 2 ^ 63) (factor : Int64) :
    scaledSumOf (.progression terms) factor =
      .ok (.int (.ofInt (exactSum terms factor terms.length.toNat))) := by
  have hcount : (Int64.ofNat (ArrayValue.progression terms).length).toInt.toNat =
      terms.length.toNat := by
    rw [ArrayValue.length, Int64.toInt_ofNat_of_lt hshort, Int.toNat_natCast]
  have hsum := sumFrom_progression factor terms.length.toNat (Nat.zero_add _) hshort
  rw [exactSum_zero] at hsum
  rw [scaledSumOf, hcount]
  exact hsum

/-- A length past the largest integer has a negative reading. -/
theorem toInt_ofNat_of_le {length : Nat} (hlong : 2 ^ 63 ≤ length) (hlt : length < 2 ^ 64) :
    (Int64.ofNat length).toInt < 0 := by
  have hword : Int64.ofNat length = Int64.ofInt (length - 2 ^ 64) := by
    have hwhole : Int64.ofInt (2 ^ 64) = 0 := by decide
    rw [Int64.ofInt_sub, hwhole, Int64.sub_zero, Int64.ofInt_eq_ofNat]
  rw [hword, Int64.toInt_ofInt_of_le (by omega) (by omega)]
  omega

theorem scaledSumOf_progression_of_le (hlong : 2 ^ 63 ≤ terms.length.toNat) (factor : Int64) :
    scaledSumOf (.progression terms) factor = .ok (.int 0) := by
  have hcount : (Int64.ofNat (ArrayValue.progression terms).length).toInt.toNat = 0 := by
    have hnegative := toInt_ofNat_of_le hlong terms.length.toNat_lt
    exact Int.toNat_eq_zero.mpr (Int.le_of_lt hnegative)
  rw [scaledSumOf, hcount]
  rfl

/-- The sum of a progression is always an integer. It is exact, up to wrapping, for every length
below `2 ^ 63`; it is zero from there on, and so exact only if the exact sum wraps to zero. -/
theorem scaledSumOf_progression_exact_iff (terms : Progression) (factor : Int64) :
    ∃ total : Int64, scaledSumOf (.progression terms) factor = .ok (.int total) ∧
      (2 ^ 63 ≤ terms.length.toNat → total = 0) ∧
      (total.toInt ≡ exactSum terms factor terms.length.toNat [ZMOD 2 ^ 64] ↔
        terms.length.toNat < 2 ^ 63 ∨
          exactSum terms factor terms.length.toNat ≡ 0 [ZMOD 2 ^ 64]) := by
  by_cases hshort : terms.length.toNat < 2 ^ 63
  · refine ⟨_, scaledSumOf_progression_of_lt hshort factor, fun hlong => by omega, ?_⟩
    exact iff_of_true (toInt_ofInt_modEq _) (.inl hshort)
  · have hlong := Nat.not_lt.mp hshort
    refine ⟨0, scaledSumOf_progression_of_le hlong factor, fun _ => rfl, ?_⟩
    rw [Int64.toInt_zero, or_iff_right hshort]
    exact ⟨Int.ModEq.symm, Int.ModEq.symm⟩

/-- The shortest progression of ones whose length is no integer. -/
def longOnes : Progression :=
  { start := 1, length := 0x8000000000000000, stride := 0 }

theorem scaledSumOf_longOnes_not_exact :
    ¬∃ total : Int64, scaledSumOf (.progression longOnes) 1 = .ok (.int total) ∧
      total.toInt ≡ exactSum longOnes 1 longOnes.length.toNat [ZMOD 2 ^ 64] := by
  rintro ⟨total, hsum, hexact⟩
  have hzero : scaledSumOf (.progression longOnes) 1 = .ok (.int 0) :=
    scaledSumOf_progression_of_le (by decide) 1
  obtain rfl : total = 0 := by
    rw [hzero] at hsum
    cases hsum
    rfl
  have hones : exactSum longOnes 1 longOnes.length.toNat = 2 ^ 63 := by decide +kernel
  rw [hones] at hexact
  exact absurd hexact (by decide)

end AdaptiveEval.SampleGraph
