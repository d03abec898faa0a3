/-
  ObjectExpr.Proofs.Number.Comparison — floats are equal as numbers. The number that a finite float stands
  for is its sign, its significand and its scale (`value`); a float that is neither finite nor not-a-number is
  an infinity of its sign. Two floats are equal just if they are the same number (`equal_iff`): only the two
  zeros are one number with two spellings, and what is no number equals nothing.
-/

import ObjectExpr.Proofs.Number.Rounding

namespace ObjectExpr.Number.Binary64

def value (x : Binary64) : ℚ := (if x.isNegative then -1 else 1) * (x.significand * 2 ^ x.scale)

/-- The two floats stand for one number: one rational number, or one of the infinities. -/
inductive SameNumber : Binary64 → Binary64 → Prop
  | finite {x y : Binary64} : x.isFinite = true → y.isFinite = true → x.value = y.value → SameNumber x y
  | infinite (negative : Bool) : SameNumber (infinity negative) (infinity negative)

variable {x y : Binary64}

theorem significand_of_magnitude_zero (h : x.magnitude = 0) : x.significand = 0 := by
  rw [significand, h]
  rfl

/-- A number is zero just if its magnitude is. -/
theorem value_eq_zero_iff : x.value = 0 ↔ x.magnitude = 0 := by
  have hpow : (2 : ℚ) ^ x.scale ≠ 0 := by positivity
  constructor
  · intro h
    by_contra hne
    have hs : (x.significand : ℚ) ≠ 0 := by exact_mod_cast Nat.ne_of_gt (significand_pos hne)
    have hprod := mul_ne_zero hs hpow
    unfold value at h
    split at h
    · exact hprod (by linarith)
    · exact hprod (by linarith)
  · intro h
    rw [value, significand_of_magnitude_zero h]
    simp

theorem abs_value (x : Binary64) : |x.value| = x.significand * 2 ^ x.scale := by
  have hpos : (0 : ℚ) ≤ x.significand * 2 ^ x.scale := by positivity
  unfold value
  split
  · rw [neg_one_mul, abs_neg, abs_of_nonneg hpos]
  · rw [one_mul, abs_of_nonneg hpos]

theorem value_neg_iff (h : x.magnitude ≠ 0) : x.value < 0 ↔ x.isNegative = true := by
  have hs : (0 : ℚ) < x.significand := by exact_mod_cast significand_pos h
  have hpos : (0 : ℚ) < x.significand * 2 ^ x.scale := by positivity
  unfold value
  cases x.isNegative with
  | true => simp [hpos]
  | false => simp [hpos.le]

/-- Finite numbers of one absolute value have one magnitude. -/
theorem magnitude_eq_of_abs (hx : x.isFinite = true) (hy : y.isFinite = true) (hx0 : x.magnitude ≠ 0)
    (hy0 : y.magnitude ≠ 0) (h : |x.value| = |y.value|) : x.magnitude = y.magnitude := by
  obtain ⟨hxn, hxd⟩ := ratio_pos hx0
  obtain ⟨hyn, hyd⟩ := ratio_pos hy0
  rw [abs_value, abs_value, ← ratio_div, ← ratio_div] at h
  have hxq : (x.ratio.2 : ℚ) ≠ 0 := by exact_mod_cast Nat.ne_of_gt hxd
  have hyq : (y.ratio.2 : ℚ) ≠ 0 := by exact_mod_cast Nat.ne_of_gt hyd
  rw [div_eq_div_iff hxq hyq] at h
  rw [← nearest_ratio hx hx0, ← nearest_ratio hy hy0]
  exact nearest_congr hxn hxd hyn hyd (by exact_mod_cast h)

theorem eq_of_value (hx : x.isFinite = true) (hy : y.isFinite = true) (hx0 : x.magnitude ≠ 0) (h : x.value = y.value) :
    x = y := by
  have hy0 : y.magnitude ≠ 0 := by
    intro hy0
    exact hx0 (value_eq_zero_iff.mp (h.trans (value_eq_zero_iff.mpr hy0)))
  have hm := magnitude_eq_of_abs hx hy hx0 hy0 (congrArg abs h)
  have hn : x.isNegative = y.isNegative := by
    rw [Bool.eq_iff_iff, ← value_neg_iff hx0, ← value_neg_iff hy0, h]
  rw [← ofMagnitude_magnitude x, ← ofMagnitude_magnitude y, hm, hn]

theorem isFinite_or_infinite (h : x.isNaN = false) : x.isFinite = true ∨ x = infinity x.isNegative := by
  have hle : x.magnitude ≤ infiniteMagnitude := by simpa [isNaN] using h
  rcases Nat.lt_or_eq_of_le hle with hlt | heq
  · exact .inl (decide_eq_true hlt)
  · refine .inr ?_
    rw [infinity, ← heq, ofMagnitude_magnitude]

theorem isNaN_of_isFinite (h : x.isFinite = true) : x.isNaN = false := by
  have hlt : x.magnitude < infiniteMagnitude := of_decide_eq_true h
  exact decide_eq_false (Nat.not_lt.mpr hlt.le)

theorem isFinite_of_magnitude_zero (h : x.magnitude = 0) : x.isFinite = true := by
  rw [isFinite, h]
  rfl

theorem equal_infinity (negative : Bool) : equal (infinity negative) (infinity negative) = true := by
  cases negative <;> decide

namespace SameNumber

variable {z : Binary64}

theorem self (h : x.isNaN = false) : SameNumber x x := by
  rcases isFinite_or_infinite h with hf | hi
  · exact .finite hf hf rfl
  · rw [hi]
    exact .infinite _

theorem symm (h : SameNumber x y) : SameNumber y x := by
  cases h with
  | finite hx hy hv => exact .finite hy hx hv.symm
  | infinite negative => exact .infinite negative

theorem trans (h : SameNumber x y) (h' : SameNumber y z) : SameNumber x z := by
  cases h with
  | infinite negative => exact h'
  | finite hx hy hv =>
    cases h' with
    | infinite negative => exact .finite hx hy hv
    | finite _ hz hv' => exact .finite hx hz (hv.trans hv')

end SameNumber

/-- Equality of floats is equality of numbers. -/
theorem equal_iff : x.equal y = true ↔ SameNumber x y := by
  constructor
  · intro h
    simp only [equal, Bool.and_eq_true, Bool.or_eq_true, Bool.not_eq_true', beq_iff_eq] at h
    obtain ⟨⟨hx, -⟩, rfl | ⟨hx0, hy0⟩⟩ := h
    · exact .self hx
    · refine .finite (isFinite_of_magnitude_zero hx0) (isFinite_of_magnitude_zero hy0) ?_
      rw [value_eq_zero_iff.mpr hx0, value_eq_zero_iff.mpr hy0]
  · intro h
    cases h with
    | infinite negative => exact equal_infinity negative
    | finite hx hy hv =>
      simp only [equal, isNaN_of_isFinite hx, isNaN_of_isFinite hy, Bool.not_false, Bool.true_and, Bool.or_eq_true,
        Bool.and_eq_true, beq_iff_eq]
      by_cases hx0 : x.magnitude = 0
      · right
        exact ⟨hx0, value_eq_zero_iff.mp (hv ▸ value_eq_zero_iff.mpr hx0)⟩
      · left
        exact eq_of_value hx hy hx0 hv

theorem equal_comm (x y : Binary64) : x.equal y = y.equal x := by
  rw [Bool.eq_iff_iff, equal_iff, equal_iff]
  exact ⟨SameNumber.symm, SameNumber.symm⟩

end ObjectExpr.Number.Binary64
