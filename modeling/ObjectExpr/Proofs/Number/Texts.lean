/-
  ObjectExpr.Proofs.Number.Texts — the texts that are read as numbers, said without a reader. An integer is
  an optional sign and at least one digit, and it is worth its digits at their places (`SpellsInteger`). A
  float is an optional sign and either digits with at most one point and an optional exponent, or one of
  three words in any letter case (`SpellsFloat`). These are the texts that are read, and an integer is read as
  what it is worth: `readInteger?_eq_some_iff` and `Binary64.exists_read?_iff`. As a float, an integer is read
  as the float nearest to it (`Binary64.read?_of_spellsInteger`).
-/

import ObjectExpr.Proofs.Lexer.Munch
import ObjectExpr.Proofs.Number.Numeral

namespace ObjectExpr.Number

/-! ## The grammar of numbers -/

/-- `[+-]?`, and whether it is a minus. -/
inductive IsSign : Bool → List Char → Prop
  | none : IsSign false []
  | plus : IsSign false ['+']
  | minus : IsSign true ['-']

/-- `[0-9]*` -/
def IsDigits (cs : List Char) : Prop := ∀ c ∈ cs, c.isDigit = true

/-- What digits are worth at their places, the last of them standing for units. -/
def placeValue : List Char → Nat
  | [] => 0
  | c :: cs => (c.toNat - '0'.toNat) * 10 ^ cs.length + placeValue cs

/-- `[+-]?[0-9]+`, and what it is worth. -/
inductive SpellsInteger : List Char → Int → Prop
  | mk {negative : Bool} {sign digits : List Char} : IsSign negative sign → digits ≠ [] → IsDigits digits →
      SpellsInteger (sign ++ digits) (if negative then -(placeValue digits : Int) else placeValue digits)

/-- `[0-9]+\.?[0-9]*|\.[0-9]+` -/
inductive IsMantissa : List Char → Prop
  | whole {digits : List Char} : digits ≠ [] → IsDigits digits → IsMantissa digits
  | point {whole fraction : List Char} : IsDigits whole → IsDigits fraction → whole ++ fraction ≠ [] →
      IsMantissa (whole ++ '.' :: fraction)

/-- `([eE][+-]?[0-9]+)?` -/
inductive IsPower : List Char → Prop
  | none : IsPower []
  | exponent {e : Char} {negative : Bool} {sign digits : List Char} : e = 'e' ∨ e = 'E' → IsSign negative sign →
      digits ≠ [] → IsDigits digits → IsPower (e :: (sign ++ digits))

/-- The words that stand for no decimal. -/
def floatWords : List (List Char) := ["inf".toList, "infinity".toList, "nan".toList]

inductive SpellsFloat : List Char → Prop
  | decimal {negative : Bool} {sign mantissa power : List Char} : IsSign negative sign → IsMantissa mantissa →
      IsPower power → SpellsFloat (sign ++ (mantissa ++ power))
  | word {negative : Bool} {sign word : List Char} : IsSign negative sign → word.map Char.toLower ∈ floatWords →
      SpellsFloat (sign ++ word)

/-! ## Signs -/

/-- Nothing in front that could be a sign. -/
def Unsigned (cs : List Char) : Prop := ∀ c ∈ cs.head?, c ≠ '-' ∧ c ≠ '+'

theorem exists_sign (cs : List Char) : ∃ sign, IsSign (splitSign cs).1 sign ∧ sign ++ (splitSign cs).2 = cs := by
  unfold splitSign
  split
  · exact ⟨['-'], .minus, rfl⟩
  · exact ⟨['+'], .plus, rfl⟩
  · exact ⟨[], .none, rfl⟩

theorem splitSign_append {negative : Bool} {sign cs : List Char} (hs : IsSign negative sign) (hc : Unsigned cs) :
    splitSign (sign ++ cs) = (negative, cs) := by
  cases hs with
  | plus => rfl
  | minus => rfl
  | none =>
    rw [List.nil_append]
    unfold splitSign
    split
    · exact absurd rfl (hc '-' rfl).1
    · exact absurd rfl (hc '+' rfl).2
    · rfl

theorem unsigned_of_isDigit {cs : List Char} (h : ∀ c ∈ cs.head?, c.isDigit = true) : Unsigned cs := by
  intro c hc
  have hd := h c hc
  constructor
  · rintro rfl
    cases hd
  · rintro rfl
    cases hd

theorem IsDigits.head {cs : List Char} (h : IsDigits cs) : ∀ c ∈ cs.head?, c.isDigit = true := fun c hc =>
  h c (List.mem_of_mem_head? hc)

theorem isDigits_takeWhile (cs : List Char) : IsDigits (cs.takeWhile Char.isDigit) := fun _ hc =>
  List.mem_takeWhile_imp hc

/-! ## Integers -/

theorem naturalOf_eq_placeValue (digits : List Char) : naturalOf digits = placeValue digits := by
  induction digits with
  | nil => rfl
  | cons c cs ih =>
    have hone : naturalOf [c] = c.toNat - '0'.toNat := by
      rw [naturalOf_eq, Nat.ofDigitChars_cons, Nat.ofDigitChars_nil, Nat.mul_zero, Nat.zero_add]
    rw [← List.singleton_append, naturalOf_append, ih, hone]
    rfl

/-- The integers that are read are those that the grammar spells, for what they are worth. -/
theorem readInteger?_eq_some_iff {cs : List Char} {n : Int} : readInteger? cs = some n ↔ SpellsInteger cs n := by
  constructor
  · intro h
    obtain ⟨sign, hs, hcs⟩ := exists_sign cs
    simp only [readInteger?] at h
    split at h
    · next hn =>
      obtain ⟨hne, hd⟩ := isNatural_iff.mp hn
      obtain rfl := Option.some.inj h
      rw [signed, naturalOf_eq_placeValue]
      have hspells := SpellsInteger.mk hs hne hd
      rwa [hcs] at hspells
    · cases h
  · rintro ⟨hs, hne, hd⟩
    have hunsigned := unsigned_of_isDigit (IsDigits.head hd)
    simp only [readInteger?, splitSign_append hs hunsigned, isNatural_iff.mpr ⟨hne, hd⟩, if_true, signed,
      naturalOf_eq_placeValue]

/-! ## Decimals -/

theorem exists_readExponent?_iff {cs : List Char} : (∃ e, readExponent? cs = some e) ↔ IsPower cs := by
  constructor
  · rintro ⟨e, h⟩
    cases cs with
    | nil => exact .none
    | cons c cs =>
      obtain ⟨sign, hs, hcs⟩ := exists_sign cs
      simp only [readExponent?] at h
      split at h
      · next hc =>
        split at h
        · next hn =>
          obtain ⟨hne, hd⟩ := isNatural_iff.mp hn
          rw [← hcs]
          exact .exponent hc hs hne hd
        · cases h
      · cases h
  · intro h
    cases h with
    | none => exact ⟨0, rfl⟩
    | exponent hc hs hne hd =>
      have hunsigned := unsigned_of_isDigit (IsDigits.head hd)
      simp only [readExponent?, if_pos hc, splitSign_append hs hunsigned, isNatural_iff.mpr ⟨hne, hd⟩, if_true]
      exact ⟨_, rfl⟩

theorem IsPower.head {cs : List Char} (h : IsPower cs) : ∀ c ∈ cs.head?, c = 'e' ∨ c = 'E' := by
  intro c hc
  cases h with
  | none => cases hc
  | exponent he =>
    cases hc
    exact he

theorem IsPower.notDigit {cs : List Char} (h : IsPower cs) : ∀ c ∈ cs.head?, c.isDigit = false := by
  intro c hc
  rcases h.head c hc with rfl | rfl <;> rfl

theorem splitFraction_cases (cs : List Char) :
    (∃ tail, cs = '.' :: tail ∧ splitFraction cs = (tail.takeWhile Char.isDigit, tail.dropWhile Char.isDigit)) ∨
      splitFraction cs = ([], cs) := by
  unfold splitFraction
  split
  · exact .inl ⟨_, rfl, rfl⟩
  · exact .inr rfl

theorem IsPower.splitFraction_eq {cs : List Char} (h : IsPower cs) : splitFraction cs = ([], cs) := by
  rcases splitFraction_cases cs with ⟨tail, rfl, -⟩ | hs
  · rcases h.head '.' rfl with hd | hd <;> cases hd
  · exact hs

/-- A decimal from the digits before the point, those behind it, and the exponent. -/
theorem readUnsigned?_of_parts {negative : Bool} {cs whole fraction power : List Char}
    (hw : cs.takeWhile Char.isDigit = whole) (hf : splitFraction (cs.dropWhile Char.isDigit) = (fraction, power)) :
    Decimal.readUnsigned? negative cs =
      if whole ++ fraction = [] then none
      else (readExponent? power).map fun e => ⟨negative, naturalOf (whole ++ fraction), e - fraction.length⟩ := by
  simp only [Decimal.readUnsigned?, hw, hf]

/-- Digits that an exponent or nothing follows are the digits of a decimal, with no point. -/
theorem readUnsigned?_digits (negative : Bool) {digits power : List Char} (hne : digits ≠ []) (hd : IsDigits digits)
    (hp : IsPower power) :
    Decimal.readUnsigned? negative (digits ++ power) =
      (readExponent? power).map fun e => ⟨negative, naturalOf digits, e⟩ := by
  have hdrop := dropWhile_of_boundary hd hp.notDigit
  rw [readUnsigned?_of_parts (takeWhile_of_boundary hd hp.notDigit) (by rw [hdrop, hp.splitFraction_eq]), List.append_nil,
    if_neg hne]
  simp

theorem exists_readUnsigned?_iff (negative : Bool) {cs : List Char} :
    (∃ d, Decimal.readUnsigned? negative cs = some d) ↔
      ∃ mantissa power, cs = mantissa ++ power ∧ IsMantissa mantissa ∧ IsPower power := by
  constructor
  · rintro ⟨d, h⟩
    have hsplit : cs.takeWhile Char.isDigit ++ cs.dropWhile Char.isDigit = cs := List.takeWhile_append_dropWhile
    have hwhole := isDigits_takeWhile cs
    rcases splitFraction_cases (cs.dropWhile Char.isDigit) with ⟨tail, hdrop, hf⟩ | hf
    · rw [readUnsigned?_of_parts rfl hf] at h
      split at h
      · cases h
      next hne =>
      obtain ⟨e, he, -⟩ := Option.map_eq_some_iff.mp h
      refine ⟨_, _, ?_, .point hwhole (isDigits_takeWhile tail) hne, exists_readExponent?_iff.mp ⟨e, he⟩⟩
      rw [List.append_assoc, List.cons_append, List.takeWhile_append_dropWhile, ← hdrop, hsplit]
    · rw [readUnsigned?_of_parts rfl hf, List.append_nil] at h
      split at h
      · cases h
      next hne =>
      obtain ⟨e, he, -⟩ := Option.map_eq_some_iff.mp h
      exact ⟨_, _, hsplit.symm, .whole hne hwhole, exists_readExponent?_iff.mp ⟨e, he⟩⟩
  · rintro ⟨mantissa, power, rfl, hm, hp⟩
    obtain ⟨e, he⟩ := exists_readExponent?_iff.mpr hp
    cases hm with
    | whole hne hd =>
      rw [readUnsigned?_digits negative hne hd hp, he]
      exact ⟨_, rfl⟩
    | @point whole fraction hw hf hne =>
      have hstop : ∀ c ∈ ('.' :: (fraction ++ power)).head?, c.isDigit = false := by
        intro c hc
        cases hc
        rfl
      have hfraction : splitFraction ('.' :: (fraction ++ power)) = (fraction, power) := by
        rw [splitFraction, takeWhile_of_boundary hf hp.notDigit, dropWhile_of_boundary hf hp.notDigit]
      rw [List.append_assoc, List.cons_append,
        readUnsigned?_of_parts (takeWhile_of_boundary hw hstop) (by rw [dropWhile_of_boundary hw hstop, hfraction]),
        if_neg hne, he]
      exact ⟨_, rfl⟩

/-! ## Floats -/

theorem IsMantissa.unsigned {cs : List Char} (h : IsMantissa cs) (rest : List Char) : Unsigned (cs ++ rest) := by
  cases h with
  | whole hne hd =>
    have hhead : (cs ++ rest).head? = cs.head? := List.head?_append_of_ne_nil _ hne
    refine unsigned_of_isDigit ?_
    rw [hhead]
    exact IsDigits.head hd
  | @point whole fraction hw hf _ =>
    cases whole with
    | nil =>
      intro c hc
      cases hc
      decide
    | cons d ds =>
      have hhead := IsDigits.head hw
      exact unsigned_of_isDigit hhead

theorem unsigned_of_word {word : List Char} (h : word.map Char.toLower ∈ floatWords) : Unsigned word := by
  have hlower : (word.map Char.toLower).head? = some 'i' ∨ (word.map Char.toLower).head? = some 'n' := by
    simp only [floatWords, List.mem_cons, List.not_mem_nil, or_false] at h
    rcases h with h | h | h
    · exact .inl (congrArg List.head? h)
    · exact .inl (congrArg List.head? h)
    · exact .inr (congrArg List.head? h)
  intro c hc
  have hmapped : (word.map Char.toLower).head? = some c.toLower := by rw [List.head?_map, hc, Option.map_some]
  rw [hmapped] at hlower
  constructor
  · rintro rfl
    rcases hlower with h | h <;> cases h
  · rintro rfl
    rcases hlower with h | h <;> cases h

namespace Binary64

theorem exists_readWord?_iff (negative : Bool) {cs : List Char} :
    (∃ x, readWord? negative cs = some x) ↔ cs.map Char.toLower ∈ floatWords := by
  simp only [readWord?, floatWords, List.mem_cons, List.not_mem_nil, or_false, ← String.toList_inj, String.toList_ofList]
  split
  · next h =>
    refine iff_of_true ⟨_, rfl⟩ ?_
    rcases h with h | h
    · exact .inl h
    · exact .inr (.inl h)
  · next h =>
    split
    · next hn => exact iff_of_true ⟨_, rfl⟩ (.inr (.inr hn))
    · next hn =>
      refine iff_of_false (nofun) ?_
      rintro (hi | hi | hi)
      · exact h (.inl hi)
      · exact h (.inr hi)
      · exact hn hi

/-- The floats that are read are those that the grammar spells. -/
theorem exists_read?_iff {cs : List Char} : (∃ x, read? cs = some x) ↔ SpellsFloat cs := by
  constructor
  · rintro ⟨x, h⟩
    obtain ⟨sign, hs, hcs⟩ := exists_sign cs
    simp only [read?] at h
    split at h
    · next d hd =>
      obtain ⟨mantissa, power, hparts, hm, hp⟩ := (exists_readUnsigned?_iff _).mp ⟨d, hd⟩
      rw [← hcs, hparts]
      exact .decimal hs hm hp
    · rw [← hcs]
      exact .word hs ((exists_readWord?_iff _).mp ⟨x, h⟩)
  · intro h
    cases h with
    | @decimal negative sign mantissa power hs hm hp =>
      obtain ⟨d, hd⟩ := (exists_readUnsigned?_iff negative).mpr ⟨mantissa, power, rfl, hm, hp⟩
      simp only [read?, splitSign_append hs (hm.unsigned power), hd]
      exact ⟨_, rfl⟩
    | @word negative sign word hs hw =>
      simp only [read?, splitSign_append hs (unsigned_of_word hw)]
      split
      · exact ⟨_, rfl⟩
      · exact (exists_readWord?_iff negative).mpr hw

/-- As a float, an integer other than zero is read as the float nearest to it. -/
theorem read?_of_spellsInteger {cs : List Char} {n : Int} (h : SpellsInteger cs n) (hn : n ≠ 0) :
    read? cs = some (ofDecimal ⟨n < 0, n.natAbs, 0⟩) := by
  obtain ⟨hs, hne, hd⟩ := h
  next negative sign digits =>
  have hread := readUnsigned?_digits negative hne hd .none
  rw [List.append_nil, naturalOf_eq_placeValue] at hread
  have hsign : negative = decide ((if negative then -(placeValue digits : Int) else placeValue digits) < 0) := by
    cases negative with
    | false => simp
    | true =>
      simp only [if_true] at hn ⊢
      exact (decide_eq_true (by omega)).symm
  have habs : (if negative then -(placeValue digits : Int) else placeValue digits).natAbs = placeValue digits := by
    cases negative <;> simp
  simp only [read?, splitSign_append hs (unsigned_of_isDigit (IsDigits.head hd)), hread, habs, ← hsign, readExponent?,
    Option.map_some]

end Binary64

end ObjectExpr.Number
