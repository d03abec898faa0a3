/-
  ObjectExpr.Proofs.Number.Numeral — the text of a float as digits, a point, more digits and an exponent
  (`Numeral`). In every layout the text of a finite float is such a numeral, with a point or an exponent in it
  and no zero in front of other digits, and its value rounds to that float again (`Layout.float_eq_text`).
-/

import ObjectExpr.Number.Layout
import ObjectExpr.Proofs.Number.Rounding

namespace ObjectExpr.Number

open Binary64 (nearestDecimal nearestDecimal_mul_pow)

/-! ## Digits -/

theorem isNatural_iff {ds : List Char} : isNatural ds = true ↔ ds ≠ [] ∧ ∀ c ∈ ds, c.isDigit = true := by
  simp [isNatural]

theorem isDigit_of_mem_zeros {n : Nat} : ∀ c ∈ List.replicate n '0', c.isDigit = true := by
  intro c hc
  rw [List.eq_of_mem_replicate hc]
  rfl

theorem naturalOf_append (ds es : List Char) : naturalOf (ds ++ es) = naturalOf ds * 10 ^ es.length + naturalOf es := by
  rw [naturalOf_eq, naturalOf_eq, naturalOf_eq, Nat.ofDigitChars_append, Nat.ofDigitChars_eq_ofDigitChars_zero, Nat.mul_comm]

theorem naturalOf_replicate_zero (n : Nat) : naturalOf (List.replicate n '0') = 0 := by
  rw [naturalOf_eq, Nat.ofDigitChars_replicate_zero, Nat.mul_zero]

theorem naturalOf_zeros_append (n : Nat) (ds : List Char) : naturalOf (List.replicate n '0' ++ ds) = naturalOf ds := by
  rw [naturalOf_append, naturalOf_replicate_zero, Nat.zero_mul, Nat.zero_add]

theorem naturalOf_append_zeros (ds : List Char) (n : Nat) :
    naturalOf (ds ++ List.replicate n '0') = naturalOf ds * 10 ^ n := by
  rw [naturalOf_append, naturalOf_replicate_zero, List.length_replicate, Nat.add_zero]

/-- A number other than zero does not begin with one. -/
theorem head?_naturalText {n : Nat} (h : 0 < n) : (naturalText n).head? ≠ some '0' := by
  induction n using Nat.strongRecOn with
  | ind n ih =>
    rw [naturalText, Nat.toDigits_eq_if (by decide)]
    split
    · next hlt =>
      have hall : ∀ m < 10, 0 < m → m.digitChar ≠ '0' := by decide
      intro h0
      exact hall n hlt h (Option.some.inj h0)
    · next hge =>
      rw [List.head?_append_of_ne_nil _ Nat.toDigits_ne_nil]
      exact ih (n / 10) (by omega) (by omega)

/-- The digits of a number are its significant digits and zeros. -/
theorem naturalText_eq_significantDigits (n : Nat) :
    ∃ zeros, naturalText n = significantDigits n ++ List.replicate zeros '0' := by
  have hsplit := List.takeWhile_append_dropWhile (p := (· == '0')) (l := (naturalText n).reverse)
  refine ⟨((naturalText n).reverse.takeWhile (· == '0')).length, ?_⟩
  have hzeros : (naturalText n).reverse.takeWhile (· == '0') =
      List.replicate ((naturalText n).reverse.takeWhile (· == '0')).length '0' := by
    apply List.eq_replicate_of_mem
    intro c hc
    exact eq_of_beq (List.all_eq_true.mp List.all_takeWhile c hc)
  have hrev := congrArg List.reverse hsplit
  rw [List.reverse_append, List.reverse_reverse, hzeros, List.reverse_replicate] at hrev
  exact hrev.symm

/-- Digits without a zero at their front: those that a float is laid out from. -/
structure Leading (ds : List Char) : Prop where
  natural : isNatural ds = true
  head : ds.head? ≠ some '0'

theorem Leading.append_zeros {ds : List Char} (h : Leading ds) (n : Nat) : Leading (ds ++ List.replicate n '0') := by
  obtain ⟨hne, hdigits⟩ := isNatural_iff.mp h.natural
  constructor
  · rw [isNatural_iff]
    exact ⟨List.append_ne_nil_of_left_ne_nil hne _, List.forall_mem_append.mpr ⟨hdigits, isDigit_of_mem_zeros⟩⟩
  · rw [List.head?_append_of_ne_nil _ hne]
    exact h.head

theorem Leading.take {ds : List Char} (h : Leading ds) (n : Nat) : Leading (ds.take (n + 1)) := by
  obtain ⟨hne, hdigits⟩ := isNatural_iff.mp h.natural
  constructor
  · rw [isNatural_iff]
    exact ⟨by simp [hne], fun c hc => hdigits c (List.mem_of_mem_take hc)⟩
  · rw [List.head?_take, if_neg (Nat.succ_ne_zero n)]
    exact h.head

theorem leading_significantDigits {n : Nat} (h : 0 < n) : Leading (significantDigits n) := by
  obtain ⟨zeros, hz⟩ := naturalText_eq_significantDigits n
  have hhead := head?_naturalText h
  have hne : significantDigits n ≠ [] := by
    intro hnil
    rw [hnil, List.nil_append] at hz
    have hnz : zeros ≠ 0 := by
      rintro rfl
      exact Nat.toDigits_ne_nil hz
    rw [hz, List.head?_replicate, if_neg hnz] at hhead
    exact hhead rfl
  constructor
  · rw [isNatural_iff]
    refine ⟨hne, fun c hc => isDigit_of_mem_naturalText (n := n) c ?_⟩
    rw [hz]
    exact List.mem_append_left _ hc
  · rwa [hz, List.head?_append_of_ne_nil _ hne] at hhead

/-! ## Numerals -/

/-- A float as it is written: the digits before the point and behind it, and what stands behind the `e`. -/
structure Numeral where
  whole : List Char
  fraction : List Char
  power : List Char

namespace Numeral

def fractionText (t : Numeral) : List Char := if t.fraction = [] then [] else '.' :: t.fraction

def powerText (t : Numeral) : List Char := if t.power = [] then [] else 'e' :: t.power

def text (t : Numeral) : List Char := t.whole ++ (t.fractionText ++ t.powerText)

def digits (t : Numeral) : Nat := naturalOf (t.whole ++ t.fraction)

def exponent (t : Numeral) : Int := (readInteger? t.power).getD 0 - t.fraction.length

structure Proper (t : Numeral) : Prop where
  whole_natural : isNatural t.whole = true
  /-- A zero before the point stands alone. -/
  whole_head : t.whole.head? = some '0' → t.whole = ['0']
  fraction_digits : ∀ c ∈ t.fraction, c.isDigit = true
  power_integer : t.power ≠ [] → (readInteger? t.power).isSome
  /-- The text is not one of an integer. -/
  pointed : t.fraction ≠ [] ∨ t.power ≠ []

/-- Digits without a zero at their front can stand before the point. -/
theorem proper_of_leading {t : Numeral} (h : Leading t.whole) (hf : ∀ c ∈ t.fraction, c.isDigit = true)
    (hp : t.power ≠ [] → (readInteger? t.power).isSome) (hpoint : t.fraction ≠ [] ∨ t.power ≠ []) : t.Proper :=
  ⟨h.natural, fun h0 => absurd h0 h.head, hf, hp, hpoint⟩

theorem exponent_of_no_power (whole fraction : List Char) : exponent ⟨whole, fraction, []⟩ = -fraction.length := by
  simp [exponent, readInteger?, splitSign, isNatural]

end Numeral

/-- The text is a numeral that rounds as `digits · 10 ^ e` does. -/
def Spells (text : List Char) (digits : Nat) (e : Int) : Prop :=
  ∃ t : Numeral, t.Proper ∧ text = t.text ∧ nearestDecimal t.digits t.exponent = nearestDecimal digits e

/-! ## Layouts -/

/-- The point is in front of the digits, with zeros between. -/
theorem spells_positional_of_neg {ds : List Char} (h : Leading ds) {e : Int} (he : e < 0) :
    Spells (positional ds e) (naturalOf ds) (e + 1 - ds.length) := by
  obtain ⟨hne, hdigits⟩ := isNatural_iff.mp h.natural
  refine ⟨⟨['0'], List.replicate (-e - 1).toNat '0' ++ ds, []⟩, ?_, ?_, ?_⟩
  · exact ⟨rfl, fun _ => rfl, List.forall_mem_append.mpr ⟨isDigit_of_mem_zeros, hdigits⟩, fun hp => absurd rfl hp,
      .inl (by simp [hne])⟩
  · simp [positional, he, Numeral.text, Numeral.fractionText, Numeral.powerText, hne]
  · have hone : ['0'] = List.replicate 1 '0' := rfl
    rw [Numeral.exponent_of_no_power, Numeral.digits, hone, naturalOf_zeros_append, naturalOf_zeros_append]
    congr 1
    rw [List.length_append, List.length_replicate]
    omega

/-- The point is among the digits. -/
theorem spells_positional_of_lt {ds : List Char} (h : Leading ds) {n : Nat} (hn : n + 1 < ds.length) :
    Spells (positional ds n) (naturalOf ds) (n + 1 - ds.length) := by
  have hdrop : ds.drop (n + 1) ≠ [] := by
    rw [Ne, List.drop_eq_nil_iff]
    omega
  refine ⟨⟨ds.take (n + 1), ds.drop (n + 1), []⟩, ?_, ?_, ?_⟩
  · refine Numeral.proper_of_leading (h.take n) ?_ (fun hp => absurd rfl hp) (.inl hdrop)
    exact fun c hc => (isNatural_iff.mp h.natural).2 c (List.mem_of_mem_drop hc)
  · have hpad : n + 1 - ds.length = 0 := by omega
    simp [positional, Numeral.text, Numeral.fractionText, Numeral.powerText, hpad, hdrop]
  · rw [Numeral.exponent_of_no_power, Numeral.digits, List.take_append_drop]
    congr 1
    rw [List.length_drop]
    omega

/-- The point is behind the digits, with zeros between and one more behind it. -/
theorem spells_positional_of_le {ds : List Char} (h : Leading ds) {n : Nat} (hn : ds.length ≤ n + 1) :
    Spells (positional ds n) (naturalOf ds) (n + 1 - ds.length) := by
  refine ⟨⟨ds ++ List.replicate (n + 1 - ds.length) '0', ['0'], []⟩, ?_, ?_, ?_⟩
  · refine Numeral.proper_of_leading (h.append_zeros _) (by simp) (fun hp => absurd rfl hp) (.inl (by simp))
  · have hfull : (ds ++ List.replicate (n + 1 - ds.length) '0').length = n + 1 := by
      rw [List.length_append, List.length_replicate]
      omega
    have hneg : ¬ (n : Int) < 0 := by omega
    simp only [positional, if_neg hneg, Int.toNat_natCast]
    rw [List.take_of_length_le (Nat.le_of_eq hfull), List.drop_of_length_le (Nat.le_of_eq hfull)]
    rfl
  · have hone : ['0'] = List.replicate 1 '0' := rfl
    rw [Numeral.exponent_of_no_power, Numeral.digits, hone, naturalOf_append_zeros, naturalOf_append_zeros, Nat.mul_assoc,
      ← Nat.pow_add, nearestDecimal_mul_pow]
    congr 1
    rw [List.length_replicate]
    omega

theorem spells_positional {ds : List Char} (h : Leading ds) (e : Int) :
    Spells (positional ds e) (naturalOf ds) (e + 1 - ds.length) := by
  by_cases he : e < 0
  · exact spells_positional_of_neg h he
  · obtain ⟨n, rfl⟩ := Int.eq_ofNat_of_zero_le (Int.not_lt.mp he)
    rcases Nat.lt_or_ge (n + 1) ds.length with hn | hn
    · exact spells_positional_of_lt h hn
    · exact spells_positional_of_le h hn

/-- A sign in front of an exponent that has none is not seen. -/
theorem readInteger?_plus {n : Int} (h : 0 ≤ n) : readInteger? ('+' :: integerText n) = some n := by
  obtain ⟨k, rfl⟩ := Int.eq_ofNat_of_zero_le h
  have htext : integerText k = naturalText k := if_neg (by omega)
  simp [htext, readInteger?, splitSign, isNatural_naturalText, signed]

theorem readInteger?_power {layout : Layout} (hplus : layout.plus = [] ∨ layout.plus = ['+']) (e : Int) :
    readInteger? ((if e < 0 then [] else layout.plus) ++ integerText e) = some e := by
  by_cases he : e < 0
  · rw [if_pos he, List.nil_append, readInteger?_integerText]
  · rw [if_neg he]
    rcases hplus with h | h
    · rw [h, List.nil_append, readInteger?_integerText]
    · rw [h, List.singleton_append, readInteger?_plus (Int.not_lt.mp he)]

theorem spells_scientific {layout : Layout} (hplus : layout.plus = [] ∨ layout.plus = ['+']) {ds : List Char}
    (h : Leading ds) (e : Int) : Spells (scientific layout ds e) (naturalOf ds) (e + 1 - ds.length) := by
  obtain ⟨hne, hdigits⟩ := isNatural_iff.mp h.natural
  obtain ⟨power, hpower⟩ : ∃ power, power = (if e < 0 then [] else layout.plus) ++ integerText e := ⟨_, rfl⟩
  have hread : readInteger? power = some e := hpower ▸ readInteger?_power hplus e
  have hpne : power ≠ [] := by
    rintro rfl
    simp [readInteger?, splitSign, isNatural] at hread
  refine ⟨⟨ds.take 1, ds.drop 1, power⟩, ?_, ?_, ?_⟩
  · refine Numeral.proper_of_leading (h.take 0) ?_ (fun _ => by rw [hread]; rfl) (.inr hpne)
    exact fun c hc => hdigits c (List.mem_of_mem_drop hc)
  · rw [Numeral.text, Numeral.powerText, if_neg hpne, scientific, ← hpower]
    exact List.append_assoc _ _ _
  · have hpos : 0 < ds.length := List.length_pos_iff.mpr hne
    rw [Numeral.digits, List.take_append_drop, Numeral.exponent, hread]
    congr 1
    rw [Option.getD_some, List.length_drop]
    omega

/-- The text of a decimal leaves out the zeros at its end, or moves them into the exponent. -/
theorem Layout.spells_digits {layout : Layout} (hplus : layout.plus = [] ∨ layout.plus = ['+']) {d : Decimal}
    (hd : 0 < d.digits) : Spells (layout.digits d) d.digits d.exponent := by
  obtain ⟨zeros, hz⟩ := naturalText_eq_significantDigits d.digits
  have hlead := leading_significantDigits hd
  have hlen : (naturalText d.digits).length = (significantDigits d.digits).length + zeros := by
    rw [hz, List.length_append, List.length_replicate]
  have hdigits : d.digits = naturalOf (significantDigits d.digits) * 10 ^ zeros := by
    rw [← naturalOf_append_zeros, ← hz, naturalOf_naturalText]
  obtain ⟨exponent, hexponent⟩ : ∃ exponent, exponent = d.exponent + (naturalText d.digits).length - 1 := ⟨_, rfl⟩
  have hspells : Spells (layout.digits d) (naturalOf (significantDigits d.digits))
      (exponent + 1 - (significantDigits d.digits).length) := by
    simp only [Layout.digits, ← hexponent]
    split
    · exact spells_positional hlead exponent
    · exact spells_scientific hplus hlead exponent
  obtain ⟨t, ht, htext, hvalue⟩ := hspells
  refine ⟨t, ht, htext, ?_⟩
  have hexp : exponent + 1 - (significantDigits d.digits).length = d.exponent + zeros := by omega
  rw [hvalue, hexp, ← nearestDecimal_mul_pow, ← hdigits]

/-- The text of a finite float is a numeral that rounds to the same float, behind a sign if it has one. -/
theorem Layout.float_eq_text (layout : Layout) (hplus : layout.plus = [] ∨ layout.plus = ['+']) {x : Binary64}
    (hx : x.isFinite = true) :
    ∃ t : Numeral, t.Proper ∧ layout.float x = (if x.isNegative then ['-'] else []) ++ t.text ∧
      Binary64.ofDecimal ⟨x.isNegative, t.digits, t.exponent⟩ = x := by
  obtain ⟨t, ht, htext, hvalue⟩ : ∃ t : Numeral, t.Proper ∧
      (if x.magnitude = 0 then ['0', '.', '0'] else layout.digits x.shortest) = t.text ∧
      nearestDecimal t.digits t.exponent = x.magnitude := by
    by_cases h : x.magnitude = 0
    · rw [if_pos h, h]
      exact ⟨⟨['0'], ['0'], []⟩, ⟨rfl, fun _ => rfl, by simp, by simp, .inl (by simp)⟩, rfl, rfl⟩
    · rw [if_neg h, ← Binary64.nearestDecimal_shortest hx h]
      exact Layout.spells_digits hplus (Nat.pos_of_ne_zero (Binary64.digits_shortest_ne_zero hx h))
  refine ⟨t, ht, ?_, ?_⟩
  · rw [Layout.float, htext]
    split <;> rfl
  · rw [Binary64.ofDecimal, hvalue, Binary64.ofMagnitude_magnitude]

end ObjectExpr.Number
