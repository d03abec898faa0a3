/-
  ObjectExpr.Proofs.Lexer.RawText — what a raw literal stands for is read from characters that a raw
  literal can hold. Keywords and numbers are letters, digits, signs and points (`inRaw_of_ofRaw`), so
  behind a `:` any text that stands for something is one lexeme. The text of an integer of 64 bits stands
  for that integer (`ofRaw_integerText`).
-/

import ObjectExpr.Scalar
import ObjectExpr.Token.Scan

namespace ObjectExpr

open Lexeme (inRaw)

/-! ## Characters -/

theorem inRaw_of_isAlphanum {c : Char} (h : c.isAlphanum = true) : inRaw c = true := by
  change (decide ('A'.val ≤ c.val ∧ c.val ≤ 'Z'.val) || (decide ('a'.val ≤ c.val) && decide (c.val ≤ 'z'.val)) ||
    (decide ('0'.val ≤ c.val) && decide (c.val ≤ '9'.val))) = true at h
  simp only [Bool.or_eq_true, Bool.and_eq_true, decide_eq_true_eq, UInt32.le_iff_toNat_le] at h
  change ((65 ≤ c.toNat ∧ c.toNat ≤ 90) ∨ (97 ≤ c.toNat ∧ c.toNat ≤ 122)) ∨ (48 ≤ c.toNat ∧ c.toNat ≤ 57) at h
  have hb : Text.isBlank c = false := by
    rw [← Bool.not_eq_true, Text.isBlank, Text.within_iff]
    rintro ⟨r, hr, h₁, h₂⟩
    simp only [Text.blankRanges, List.mem_cons, List.not_mem_nil, or_false] at hr
    rcases hr with rfl | rfl | rfl | rfl | rfl | rfl | rfl | rfl | rfl | rfl <;> simp only at h₁ h₂ <;> omega
  have hm : Mark.ofChar? c = none := by
    rw [Option.eq_none_iff_forall_ne_some]
    intro m hm
    obtain rfl := Mark.char_of_ofChar? hm
    revert h
    cases m <;> decide
  simp [inRaw, Lexeme.inWord, hb, hm]

theorem inRaw_of_isDigit {c : Char} (h : c.isDigit = true) : inRaw c = true :=
  inRaw_of_isAlphanum ((Bool.or_eq_true _ _).mpr (.inr h))

theorem inRaw_of_isAlpha {c : Char} (h : c.isAlpha = true) : inRaw c = true :=
  inRaw_of_isAlphanum ((Bool.or_eq_true _ _).mpr (.inl h))

theorem isAlpha_of_toLower {c : Char} (h : c.toLower.isAlpha = true) : c.isAlpha = true := by
  by_cases hu : c.isUpper = true
  · exact (Bool.or_eq_true _ _).mpr (.inl hu)
  · have hl : c.toLower = c := dif_neg fun hc => hu (decide_eq_true hc)
    rwa [hl] at h

/-! ## Numbers -/

namespace Number

theorem inRaw_of_isNatural {digits : List Char} (h : isNatural digits = true) : digits.all inRaw = true := by
  simp only [isNatural, Bool.and_eq_true, List.all_eq_true] at h
  exact List.all_eq_true.mpr fun c hc => inRaw_of_isDigit (h.2 c hc)

theorem inRaw_of_takeWhile {cs : List Char} (h : (cs.dropWhile Char.isDigit).all inRaw = true) :
    cs.all inRaw = true := by
  rw [← List.takeWhile_append_dropWhile (p := Char.isDigit) (l := cs), List.all_append, h, Bool.and_true,
    List.all_eq_true]
  exact fun c hc => inRaw_of_isDigit (List.all_eq_true.mp List.all_takeWhile c hc)

theorem inRaw_of_splitSign {cs : List Char} (h : (splitSign cs).2.all inRaw = true) : cs.all inRaw = true := by
  unfold splitSign at h
  split at h
  · exact h
  · exact h
  · exact h

theorem inRaw_of_splitFraction {cs : List Char} (h : (splitFraction cs).2.all inRaw = true) :
    cs.all inRaw = true := by
  unfold splitFraction at h
  split at h
  · rw [List.all_cons, inRaw_of_takeWhile h]; rfl
  · exact h

theorem inRaw_of_readInteger? {cs : List Char} {n : Int} (h : readInteger? cs = some n) : cs.all inRaw = true := by
  simp only [readInteger?] at h
  split at h
  · next hd => exact inRaw_of_splitSign (inRaw_of_isNatural hd)
  · cases h

theorem inRaw_of_readExponent? {cs : List Char} {n : Int} (h : readExponent? cs = some n) : cs.all inRaw = true := by
  cases cs with
  | nil => rfl
  | cons c cs =>
    simp only [readExponent?] at h
    split at h
    · next hc =>
      split at h
      · next hd =>
        rw [List.all_cons, inRaw_of_splitSign (inRaw_of_isNatural hd), Bool.and_true]
        rcases hc with rfl | rfl <;> rfl
      · cases h
    · cases h

theorem Decimal.inRaw_of_readUnsigned? {negative : Bool} {cs : List Char} {d : Decimal}
    (h : readUnsigned? negative cs = some d) : cs.all inRaw = true := by
  simp only [readUnsigned?] at h
  split at h
  · cases h
  · obtain ⟨e, he, -⟩ := Option.map_eq_some_iff.mp h
    exact inRaw_of_takeWhile (inRaw_of_splitFraction (inRaw_of_readExponent? he))

namespace Binary64

theorem inRaw_of_readWord? {negative : Bool} {cs : List Char} {x : Binary64} (h : readWord? negative cs = some x) :
    cs.all inRaw = true := by
  have hw : (cs.map Char.toLower).all Char.isAlpha = true := by
    simp only [readWord?, ← String.toList_inj, String.toList_ofList] at h
    split at h
    · next hi => rcases hi with hi | hi <;> rw [hi] <;> decide
    · split at h
      · next hi => rw [hi]; decide
      · cases h
  rw [List.all_map, List.all_eq_true] at hw
  exact List.all_eq_true.mpr fun c hc => inRaw_of_isAlpha (isAlpha_of_toLower (hw c hc))

theorem inRaw_of_read? {cs : List Char} {x : Binary64} (h : read? cs = some x) : cs.all inRaw = true := by
  simp only [read?] at h
  split at h
  · next hd => exact inRaw_of_splitSign (Decimal.inRaw_of_readUnsigned? hd)
  · exact inRaw_of_splitSign (inRaw_of_readWord? h)

end Binary64

end Number

/-! ## Raw literals -/

namespace Scalar

theorem inRaw_of_ofKeyword? {text : String} {s : Scalar} (h : ofKeyword? text = some s) :
    text.toList.all inRaw = true := by
  unfold ofKeyword? at h
  split at h
  · next ht => rw [ht]; decide
  · split at h
    · next ht => rw [ht]; decide
    · split at h
      · next ht => rw [ht]; decide
      · cases h

theorem inRaw_of_ofNumber? {text : String} {s : Scalar} (h : ofNumber? text = some s) :
    text.toList.all inRaw = true := by
  unfold ofNumber? at h
  split at h
  · next n hn =>
    obtain ⟨i, hi, -⟩ := Option.bind_eq_some_iff.mp hn
    exact Number.inRaw_of_readInteger? hi
  · obtain ⟨x, hx, -⟩ := Option.map_eq_some_iff.mp h
    exact Number.Binary64.inRaw_of_read? hx

/-- A text that stands for something is made of characters that a raw literal can hold. -/
theorem inRaw_of_ofRaw {text : String} {s : Scalar} (h : ofRaw text = .ok s) : text.toList.all inRaw = true := by
  unfold ofRaw at h
  split at h
  · next hs =>
    rcases Option.or_eq_some_iff.mp hs with hk | ⟨-, hn⟩
    · exact inRaw_of_ofKeyword? hk
    · exact inRaw_of_ofNumber? hn
  · cases h

theorem integer?_integerText (n : Int64) : integer? (String.ofList (Number.integerText n.toInt)) = some n := by
  rw [integer?, String.toList_ofList, Number.readInteger?_integerText, Option.bind_some,
    if_pos ⟨n.minValue_le_toInt, n.toInt_le⟩, Int64.ofInt_toInt]

/-- No keyword spells an integer. -/
theorem ofKeyword?_of_integer? {text : String} {n : Int64} (h : integer? text = some n) : ofKeyword? text = none := by
  have ht : text ≠ "true" := by rintro rfl; cases h
  have hf : text ≠ "false" := by rintro rfl; cases h
  have hn : text ≠ "null" := by rintro rfl; cases h
  rw [ofKeyword?, if_neg ht, if_neg hf, if_neg hn]

theorem ofRaw_integerText (n : Int64) : ofRaw (String.ofList (Number.integerText n.toInt)) = .ok (.integer n) := by
  have h := integer?_integerText n
  simp only [ofRaw, ofKeyword?_of_integer? h, ofNumber?, h, Option.none_or]

end Scalar

end ObjectExpr
