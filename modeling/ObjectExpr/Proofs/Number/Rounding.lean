/-
  ObjectExpr.Proofs.Number.Rounding — what rounding a decimal depends on. The magnitude nearest to a quotient
  is a function of the quotient alone, and a decimal is rounded as its exact value, however that is split
  into digits and a power of ten (`nearestDecimal_mul_pow`). A number that is finite is the nearest to its own
  value (`nearestDecimal_exact`), so the decimal that is printed for it, with however few digits, reads back
  as that number (`nearestDecimal_shortest`).
-/

import Mathlib.Algebra.Order.Field.Power
import Mathlib.Data.Int.Log
import Mathlib.Data.Rat.Floor
import Mathlib.Tactic.Positivity
import ObjectExpr.Number.Shortest

namespace ObjectExpr.Number.Binary64

/-! ## The nearest integer -/

theorem div_le_roundHalfEven (num den : Nat) : num / den ≤ roundHalfEven num den := by
  simp only [roundHalfEven]
  split
  · exact Nat.le_refl _
  · exact Nat.le_succ _

theorem roundHalfEven_mul_right (num den : Nat) {k : Nat} (hk : 0 < k) :
    roundHalfEven (num * k) (den * k) = roundHalfEven num den := by
  have hdiv : num * k / (den * k) = num / den := Nat.mul_div_mul_right _ _ hk
  have hmod : 2 * (num * k % (den * k)) = 2 * (num % den) * k := by rw [Nat.mul_mod_mul_right, Nat.mul_assoc]
  simp only [roundHalfEven, hdiv, hmod, Nat.mul_lt_mul_right hk, Nat.mul_left_inj (Nat.ne_of_gt hk)]

theorem roundHalfEven_mul_self (n : Nat) {den : Nat} (hd : 0 < den) : roundHalfEven (n * den) den = n := by
  simp [roundHalfEven, Nat.mul_div_cancel _ hd, hd]

theorem roundHalfEven_eq_zero {num den : Nat} (h : 2 * num < den) : roundHalfEven num den = 0 := by
  have hlt : num < den := by omega
  simp [roundHalfEven, Nat.div_eq_of_lt hlt, Nat.mod_eq_of_lt hlt, h]

/-! ## The binary exponent of a quotient -/

variable {num den : Nat}

/-- The larger of an integer power of two and a quotient, on either side of the point. -/
theorem two_zpow_le_div_iff (hd : 0 < den) (e : Int) :
    (2 : ℚ) ^ e ≤ num / den ↔ if 0 ≤ e then den <<< e.toNat ≤ num else den ≤ num <<< (-e).toNat := by
  have hq : (0 : ℚ) < den := by exact_mod_cast hd
  rw [le_div_iff₀ hq]
  by_cases he : 0 ≤ e
  · obtain ⟨n, rfl⟩ := Int.eq_ofNat_of_zero_le he
    rw [if_pos he, Int.toNat_natCast, Nat.shiftLeft_eq, zpow_natCast, mul_comm]
    exact_mod_cast Iff.rfl
  · obtain ⟨n, hn⟩ := Int.eq_ofNat_of_zero_le (show 0 ≤ -e by omega)
    obtain rfl : e = -(n : Int) := by omega
    have hp : (0 : ℚ) < 2 ^ n := by positivity
    rw [if_neg he, neg_neg, Int.toNat_natCast, Nat.shiftLeft_eq, zpow_neg, zpow_natCast, inv_mul_le_iff₀ hp, mul_comm]
    exact_mod_cast Iff.rfl

theorem log_eq_of_bounds {q : ℚ} {e : Int} (hlow : (2 : ℚ) ^ e ≤ q) (hhigh : q < 2 ^ (e + 1)) : Int.log 2 q = e := by
  have hq : 0 < q := lt_of_lt_of_le (by positivity) hlow
  have h₁ : e ≤ Int.log 2 q := (Int.zpow_le_iff_le_log (by decide) hq).mp (by exact_mod_cast hlow)
  have h₂ : Int.log 2 q < e + 1 := (Int.lt_zpow_iff_log_lt (by decide) hq).mp (by exact_mod_cast hhigh)
  omega

/-- The lengths of the two numbers leave two exponents to choose from, and one comparison decides. -/
theorem log2Ratio_eq_log (hn : 0 < num) (hd : 0 < den) : log2Ratio num den = Int.log 2 (num / den : ℚ) := by
  have hq : (0 : ℚ) < den := by exact_mod_cast hd
  have hnum : (2 : ℚ) ^ (Nat.log2 num : Int) ≤ num ∧ (num : ℚ) < 2 ^ ((Nat.log2 num : Int) + 1) := by
    constructor
    · exact_mod_cast Nat.log2_self_le (Nat.ne_of_gt hn)
    · exact_mod_cast Nat.lt_log2_self
  have hden : (2 : ℚ) ^ (Nat.log2 den : Int) ≤ den ∧ (den : ℚ) < 2 ^ ((Nat.log2 den : Int) + 1) := by
    constructor
    · exact_mod_cast Nat.log2_self_le (Nat.ne_of_gt hd)
    · exact_mod_cast Nat.lt_log2_self
  obtain ⟨e, he⟩ : ∃ e : Int, e = (Nat.log2 num : Int) - Nat.log2 den := ⟨_, rfl⟩
  have hlow : (2 : ℚ) ^ (e - 1) ≤ num / den := by
    rw [le_div_iff₀ hq]
    calc (2 : ℚ) ^ (e - 1) * den ≤ 2 ^ (e - 1) * 2 ^ ((Nat.log2 den : Int) + 1) := by gcongr; exact hden.2.le
      _ = 2 ^ (Nat.log2 num : Int) := by rw [← zpow_add₀ (by norm_num)]; congr 1; omega
      _ ≤ num := hnum.1
  have hhigh : (num / den : ℚ) < 2 ^ (e + 1) := by
    rw [div_lt_iff₀ hq]
    calc (num : ℚ) < 2 ^ ((Nat.log2 num : Int) + 1) := hnum.2
      _ = 2 ^ (e + 1) * 2 ^ (Nat.log2 den : Int) := by rw [← zpow_add₀ (by norm_num)]; congr 1; omega
      _ ≤ 2 ^ (e + 1) * den := by gcongr; exact hden.1
  simp only [log2Ratio, ← he, ← two_zpow_le_div_iff hd e]
  by_cases h : (2 : ℚ) ^ e ≤ num / den
  · rw [if_pos h, log_eq_of_bounds h hhigh]
  · rw [if_neg h, log_eq_of_bounds hlow (by rw [sub_add_cancel]; exact not_le.mp h)]

/-! ## The nearest magnitude -/

/-- What a quotient rounds to does not depend on how it is written. -/
theorem nearest_mul_right (hn : 0 < num) (hd : 0 < den) {k : Nat} (hk : 0 < k) :
    nearest (num * k) (den * k) = nearest num den := by
  have hlog : log2Ratio (num * k) (den * k) = log2Ratio num den := by
    rw [log2Ratio_eq_log (Nat.mul_pos hn hk) (Nat.mul_pos hd hk), log2Ratio_eq_log hn hd]
    have : (k : ℚ) ≠ 0 := by exact_mod_cast Nat.ne_of_gt hk
    push_cast
    rw [mul_div_mul_right _ _ this]
  have hleft : ∀ n : Nat, (den * k) <<< n = den <<< n * k := fun n => by
    rw [Nat.shiftLeft_eq, Nat.shiftLeft_eq, Nat.mul_right_comm]
  have hright : ∀ n : Nat, (num * k) <<< n = num <<< n * k := fun n => by
    rw [Nat.shiftLeft_eq, Nat.shiftLeft_eq, Nat.mul_right_comm]
  simp only [nearest, hlog, hleft, hright, roundHalfEven_mul_right _ _ hk]

theorem nearest_congr {num' den' : Nat} (hn : 0 < num) (hd : 0 < den) (hn' : 0 < num') (hd' : 0 < den')
    (h : num * den' = num' * den) : nearest num den = nearest num' den' := by
  rw [← nearest_mul_right hn hd hd', h, Nat.mul_comm den den', nearest_mul_right hn' hd' hd]

/-- From `2 ^ 1024` on everything is infinite. -/
theorem nearest_eq_infinite (hd : 0 < den) (h : den <<< 1024 ≤ num) : nearest num den = infiniteMagnitude := by
  have hn : 0 < num := by
    rw [Nat.shiftLeft_eq] at h
    exact Nat.lt_of_lt_of_le (Nat.mul_pos hd (Nat.two_pow_pos _)) h
  have hlog : 1024 ≤ log2Ratio num den := by
    have hq : (0 : ℚ) < num / den := by positivity
    rw [log2Ratio_eq_log hn hd, ← Int.zpow_le_iff_le_log (by decide) hq]
    exact (two_zpow_le_div_iff hd 1024).mpr (by rw [if_pos (by decide)]; exact h)
  obtain ⟨k, hk⟩ : ∃ k : Nat, log2Ratio num den = k + 1024 := ⟨(log2Ratio num den - 1024).toNat, by omega⟩
  have hscale : max (log2Ratio num den - 52) (-1074) = ((k + 972 : Nat) : Int) := by omega
  have hlead : exponentUnit ≤ roundHalfEven num (den <<< (k + 972)) := by
    have hlow : (2 : ℚ) ^ log2Ratio num den ≤ num / den := by
      rw [log2Ratio_eq_log hn hd]
      exact_mod_cast Int.zpow_log_le_self (by decide) (show (0 : ℚ) < num / den by positivity)
    rw [two_zpow_le_div_iff hd, if_pos (by omega), hk, show ((k : Int) + 1024).toNat = k + 972 + 52 by omega,
      Nat.shiftLeft_add] at hlow
    refine Nat.le_trans ?_ (div_le_roundHalfEven _ _)
    rw [Nat.le_div_iff_mul_le (by rw [Nat.shiftLeft_eq]; positivity), Nat.mul_comm]
    rwa [Nat.shiftLeft_eq _ 52] at hlow
  simp only [nearest, hscale, Int.natCast_nonneg, if_true, Int.toNat_natCast]
  apply Nat.min_eq_right
  simp only [infiniteMagnitude, exponentUnit] at *
  omega

/-- Below `2 ^ (-1075)` everything vanishes. -/
theorem nearest_eq_zero (hn : 0 < num) (hd : 0 < den) (h : num <<< 1075 < den) : nearest num den = 0 := by
  have hlog : log2Ratio num den < -1075 := by
    have hq : (0 : ℚ) < num / den := by positivity
    rw [log2Ratio_eq_log hn hd, ← Int.lt_zpow_iff_log_lt (by decide) hq, ← not_le, Nat.cast_ofNat,
      two_zpow_le_div_iff hd, if_neg (by decide)]
    exact Nat.not_le.mpr h
  have hscale : max (log2Ratio num den - 52) (-1074) = -1074 := by omega
  have hround : roundHalfEven (num <<< 1074) den = 0 := by
    apply roundHalfEven_eq_zero
    rwa [Nat.mul_comm, ← Nat.pow_one 2, ← Nat.shiftLeft_eq, ← Nat.shiftLeft_add]
  simp only [nearest, hscale]
  rw [if_neg (by decide), show (-(-1074 : Int)).toNat = 1074 by decide, hround]
  decide

/-! ## Decimals -/

theorem two_pow_le_ten_pow (n : Nat) : 2 ^ (3 * n) ≤ 10 ^ n := by
  rw [Nat.pow_mul]
  exact Nat.pow_le_pow_left (by decide) n

theorem one_shiftLeft_le {digits n k : Nat} (hd : 0 < digits) (h : k ≤ digits.log2 + 3 * n) :
    1 <<< k ≤ digits * 10 ^ n := by
  calc 1 <<< k = 2 ^ k := Nat.one_shiftLeft k
    _ ≤ 2 ^ (digits.log2 + 3 * n) := Nat.pow_le_pow_right (by decide) h
    _ = 2 ^ digits.log2 * 2 ^ (3 * n) := Nat.pow_add _ _ _
    _ ≤ digits * 10 ^ n := Nat.mul_le_mul (Nat.log2_self_le (Nat.ne_of_gt hd)) (two_pow_le_ten_pow n)

theorem shiftLeft_lt_pow {digits n k : Nat} (h : digits.log2 + 1 + k ≤ 3 * n) : digits <<< k < 10 ^ n := by
  calc digits <<< k = digits * 2 ^ k := Nat.shiftLeft_eq _ _
    _ < 2 ^ (digits.log2 + 1) * 2 ^ k := Nat.mul_lt_mul_of_pos_right Nat.lt_log2_self (Nat.two_pow_pos _)
    _ = 2 ^ (digits.log2 + 1 + k) := (Nat.pow_add _ _ _).symm
    _ ≤ 2 ^ (3 * n) := Nat.pow_le_pow_right (by decide) h
    _ ≤ 10 ^ n := two_pow_le_ten_pow n

/-- The bounds on the bits at the far ends decide as rounding would. -/
theorem nearestDecimal_eq_nearest {digits : Nat} (hd : 0 < digits) (e : Int) :
    nearestDecimal digits e = nearest (digits * 10 ^ e.toNat) (10 ^ (-e).toNat) := by
  simp only [nearestDecimal, if_neg (Nat.ne_of_gt hd), Nat.pow_eq]
  by_cases he : 0 ≤ e
  · rw [if_pos he, show (-e).toNat = 0 by omega, Nat.pow_zero]
    split
    · exact (nearest_eq_infinite Nat.one_pos (one_shiftLeft_le hd (by omega))).symm
    · rfl
  · rw [if_neg he, show e.toNat = 0 by omega, Nat.pow_zero, Nat.mul_one]
    split
    · exact (nearest_eq_zero hd (Nat.pow_pos (by decide)) (shiftLeft_lt_pow (by omega))).symm
    · rfl

/-- Zeros at the end of the digits are worth as much in the exponent. -/
theorem nearestDecimal_mul_pow (digits j : Nat) (e : Int) :
    nearestDecimal (digits * 10 ^ j) e = nearestDecimal digits (e + j) := by
  rcases Nat.eq_zero_or_pos digits with rfl | hd
  · simp [nearestDecimal]
  · have hten : ∀ n : Nat, 0 < 10 ^ n := fun n => Nat.pow_pos (by decide)
    rw [nearestDecimal_eq_nearest (Nat.mul_pos hd (hten j)), nearestDecimal_eq_nearest hd]
    apply nearest_congr
    · exact Nat.mul_pos (Nat.mul_pos hd (hten _)) (hten _)
    · exact hten _
    · exact Nat.mul_pos hd (hten _)
    · exact hten _
    · have hexp : j + e.toNat + (-(e + j)).toNat = (e + j).toNat + (-e).toNat := by omega
      simp only [Nat.mul_assoc, ← Nat.pow_add, hexp]

/-! ## Numbers as they are -/

variable {x : Binary64}

theorem ofMagnitude_magnitude (x : Binary64) : ofMagnitude x.isNegative x.magnitude = x := by
  have hb : x.bits.toNat < 2 * signBit := x.bits.toNat_lt
  have hsum : x.magnitude + (if x.isNegative then signBit else 0) = x.bits.toNat := by
    simp only [magnitude, isNegative, decide_eq_true_eq]
    by_cases hneg : signBit ≤ x.bits.toNat
    · rw [if_pos hneg, Nat.mod_eq_sub_mod hneg, Nat.mod_eq_of_lt (by omega), Nat.sub_add_cancel hneg]
    · rw [if_neg hneg, Nat.mod_eq_of_lt (Nat.not_le.mp hneg), Nat.add_zero]
  rw [ofMagnitude, hsum, UInt64.ofNat_toNat]

/-- Below the normal numbers the magnitude is the significand; above, it has the exponent in front. -/
theorem significand_scale_cases (x : Binary64) :
    (x.magnitude < exponentUnit ∧ x.significand = x.magnitude ∧ x.scale = -1074) ∨
      (exponentUnit ≤ x.magnitude ∧ x.significand = x.magnitude % exponentUnit + exponentUnit ∧
        x.scale = (x.magnitude / exponentUnit : Nat) - 1075) := by
  have hunit : 0 < exponentUnit := by decide
  by_cases h : x.magnitude < exponentUnit
  · refine .inl ⟨h, if_pos h, ?_⟩
    rw [scale, Nat.div_eq_of_lt h]
    rfl
  · have hone : 1 ≤ x.magnitude / exponentUnit := (Nat.one_le_div_iff hunit).mpr (Nat.not_lt.mp h)
    refine .inr ⟨Nat.not_lt.mp h, if_neg h, ?_⟩
    rw [scale, Nat.max_eq_left hone]

theorem scale_ge (x : Binary64) : -1074 ≤ x.scale := by
  unfold scale
  omega

theorem significand_lt (x : Binary64) : x.significand < 2 ^ 53 := by
  have hunit : exponentUnit = 2 ^ 52 := rfl
  have hmod : x.magnitude % exponentUnit < exponentUnit := Nat.mod_lt _ (by decide)
  rcases significand_scale_cases x with ⟨hlt, hs, -⟩ | ⟨-, hs, -⟩ <;> omega

/-- Only the numbers of the least scale have fewer bits than there is room for. -/
theorem significand_ge (x : Binary64) : 2 ^ 52 ≤ x.significand ∨ x.scale = -1074 := by
  have hunit : exponentUnit = 2 ^ 52 := rfl
  rcases significand_scale_cases x with ⟨-, -, hmost⟩ | ⟨-, hs, -⟩
  · exact .inr hmost
  · left
    omega

theorem significand_pos (h : x.magnitude ≠ 0) : 0 < x.significand := by
  have hunit : exponentUnit = 2 ^ 52 := rfl
  rcases significand_scale_cases x with ⟨-, hs, -⟩ | ⟨-, hs, -⟩ <;> omega

/-- The exponent and the significand make up the magnitude again. -/
theorem scale_add_significand (x : Binary64) : (x.scale + 1074).toNat * exponentUnit + x.significand = x.magnitude := by
  rcases significand_scale_cases x with ⟨hlt, hs, hscale⟩ | ⟨hge, hs, hscale⟩
  · rw [hs, hscale]
    exact Nat.zero_add _
  · have hone : 1 ≤ x.magnitude / exponentUnit := (Nat.one_le_div_iff (by decide)).mpr hge
    have hexp : (x.scale + 1074).toNat = x.magnitude / exponentUnit - 1 := by omega
    calc (x.scale + 1074).toNat * exponentUnit + x.significand
        = (x.magnitude / exponentUnit - 1) * exponentUnit + exponentUnit + x.magnitude % exponentUnit := by
          rw [hexp, hs]
          omega
      _ = x.magnitude / exponentUnit * exponentUnit + x.magnitude % exponentUnit := by
          rw [← Nat.succ_mul, Nat.succ_eq_add_one, Nat.sub_add_cancel hone]
      _ = x.magnitude := Nat.div_add_mod' _ _

theorem ratio_pos (h : x.magnitude ≠ 0) : 0 < x.ratio.1 ∧ 0 < x.ratio.2 := by
  have hs := significand_pos h
  unfold ratio
  split <;> constructor <;> simp only [Nat.shiftLeft_eq] <;> positivity

theorem ratio_div (x : Binary64) : (x.ratio.1 / x.ratio.2 : ℚ) = x.significand * 2 ^ x.scale := by
  unfold ratio
  split
  · next h =>
    obtain ⟨n, hn⟩ := Int.eq_ofNat_of_zero_le h
    rw [hn, Int.toNat_natCast, Nat.shiftLeft_eq, zpow_natCast]
    push_cast
    rw [div_one]
  · next h =>
    obtain ⟨n, hn⟩ := Int.eq_ofNat_of_zero_le (show 0 ≤ -x.scale by omega)
    rw [hn, show x.scale = -(n : Int) by omega, Int.toNat_natCast, Nat.shiftLeft_eq, Nat.one_mul, zpow_neg, zpow_natCast]
    push_cast
    rw [div_eq_mul_inv]

/-- The scale that rounding takes for a number is the number's own. -/
theorem log2Ratio_ratio (h : x.magnitude ≠ 0) : max (log2Ratio x.ratio.1 x.ratio.2 - 52) (-1074) = x.scale := by
  obtain ⟨hn, hd⟩ := ratio_pos h
  have hs : (0 : ℚ) < x.significand := by exact_mod_cast significand_pos h
  have hq : (0 : ℚ) < x.significand * 2 ^ x.scale := by positivity
  rw [log2Ratio_eq_log hn hd, ratio_div]
  have hlt : Int.log 2 (x.significand * 2 ^ x.scale : ℚ) < 53 + x.scale := by
    rw [← Int.lt_zpow_iff_log_lt (by decide) hq, Nat.cast_ofNat, zpow_add₀ (by norm_num)]
    have : (x.significand : ℚ) < 2 ^ (53 : Int) := by exact_mod_cast significand_lt x
    gcongr
  have hmin := scale_ge x
  rcases significand_ge x with hbig | hmost
  · have hge : 52 + x.scale ≤ Int.log 2 (x.significand * 2 ^ x.scale : ℚ) := by
      rw [← Int.zpow_le_iff_le_log (by decide) hq, Nat.cast_ofNat, zpow_add₀ (by norm_num)]
      have : (2 : ℚ) ^ (52 : Int) ≤ x.significand := by exact_mod_cast hbig
      gcongr
    omega
  · omega

/-- A finite number is the nearest to its own value. -/
theorem nearest_ratio (hx : x.isFinite = true) (h : x.magnitude ≠ 0) : nearest x.ratio.1 x.ratio.2 = x.magnitude := by
  have hround : (if 0 ≤ x.scale then roundHalfEven x.ratio.1 (x.ratio.2 <<< x.scale.toNat)
      else roundHalfEven (x.ratio.1 <<< (-x.scale).toNat) x.ratio.2) = x.significand := by
    by_cases hs : 0 ≤ x.scale
    · simp only [ratio, hs, if_true, Nat.shiftLeft_eq, Nat.one_mul]
      exact roundHalfEven_mul_self _ (Nat.two_pow_pos _)
    · simp only [ratio, hs, if_false, Nat.shiftLeft_eq, Nat.one_mul]
      exact roundHalfEven_mul_self _ (Nat.two_pow_pos _)
  simp only [nearest, log2Ratio_ratio h, hround, scale_add_significand]
  exact Nat.min_eq_left (Nat.le_of_lt (of_decide_eq_true hx))

theorem nearestDecimal_exact (hx : x.isFinite = true) (h : x.magnitude ≠ 0) :
    nearestDecimal x.exact.digits x.exact.exponent = x.magnitude := by
  have hs := significand_pos h
  rw [← nearest_ratio hx h]
  unfold exact ratio
  split
  · have hpos : 0 < x.significand <<< x.scale.toNat := by rw [Nat.shiftLeft_eq]; positivity
    rw [nearestDecimal_eq_nearest hpos]
    simp
  · next hneg =>
    have hpos : 0 < x.significand * 5 ^ (-x.scale).toNat := by positivity
    dsimp only
    rw [Nat.pow_eq, nearestDecimal_eq_nearest hpos, show x.scale.toNat = 0 by omega, Nat.pow_zero, Nat.mul_one]
    refine nearest_congr hpos (Nat.pow_pos (by decide)) hs (by rw [Nat.shiftLeft_eq]; positivity) ?_
    rw [Nat.shiftLeft_eq, Nat.one_mul, Nat.mul_assoc, ← Nat.mul_pow]

/-- The decimal that is printed reads back as the number it is printed for. -/
theorem nearestDecimal_shortest (hx : x.isFinite = true) (h : x.magnitude ≠ 0) :
    nearestDecimal x.shortest.digits x.shortest.exponent = x.magnitude := by
  unfold shortest
  cases hf : x.candidates.find? x.readsBack with
  | none => exact nearestDecimal_exact hx h
  | some d => exact eq_of_beq (List.find?_some (p := x.readsBack) hf)

theorem digits_shortest_ne_zero (hx : x.isFinite = true) (h : x.magnitude ≠ 0) : x.shortest.digits ≠ 0 := by
  intro h0
  have hback := nearestDecimal_shortest hx h
  rw [h0] at hback
  exact h (hback.symm.trans rfl)

end ObjectExpr.Number.Binary64
