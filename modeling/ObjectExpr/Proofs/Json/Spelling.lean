/-
  ObjectExpr.Proofs.Json.Spelling — the symbols of what is written. `HasSymbols text symbols` says that a text has
  these symbols in front of anything that does not go on with a keyword or a number. A string is read as it was,
  whatever characters it has (`HasSymbols.stringText_append`), an integer as that integer (`hasSymbols_integerText`)
  and a finite float as that float (`hasSymbols_float`).
-/

import Mathlib.Tactic.SplitIfs
import ObjectExpr.Proofs.Json.Decoding
import ObjectExpr.Proofs.Lexer.Munch
import ObjectExpr.Proofs.Number.Numeral

namespace ObjectExpr.Json

open Number (Binary64 Numeral)

/-! ## Numbers -/

theorem isBare_of_isDigit {c : Char} (h : c.isDigit = true) : isBare c = true := by
  simp [isBare, Char.isAlphanum, h]

theorem isWhole_of_proper {t : Numeral} (h : t.Proper) : isWhole t.whole = true := by
  rw [isWhole, h.whole_natural, Bool.true_and]
  by_cases h0 : t.whole.head? = some '0'
  · simp [h.whole_head h0]
  · simp [h0]

/-- The text of an integer has no zero in front of other digits. -/
theorem isWhole_naturalText (n : Nat) : isWhole (Number.naturalText n) = true := by
  rw [isWhole, Number.isNatural_naturalText, Bool.true_and]
  rcases Nat.eq_zero_or_pos n with rfl | hn
  · rfl
  · simp [Number.head?_naturalText hn]

theorem unsigned?_naturalText (negative : Bool) (n : Nat) :
    unsigned? negative (Number.naturalText n) = some (.integer (Number.signed negative n)) := by
  have htake : (Number.naturalText n).takeWhile Char.isDigit = Number.naturalText n :=
    List.takeWhile_eq_self_iff.mpr Number.isDigit_of_mem_naturalText
  have hdrop : (Number.naturalText n).dropWhile Char.isDigit = [] :=
    List.dropWhile_eq_nil_iff.mpr Number.isDigit_of_mem_naturalText
  simp [unsigned?, htake, hdrop, isWhole_naturalText]

theorem isDigit_head?_powerText (t : Numeral) : ∀ c ∈ t.powerText.head?, c.isDigit = false := by
  intro c hc
  unfold Numeral.powerText at hc
  split at hc
  · cases hc
  · cases hc
    rfl

theorem isDigit_head?_tail (t : Numeral) : ∀ c ∈ (t.fractionText ++ t.powerText).head?, c.isDigit = false := by
  intro c hc
  by_cases hf : t.fraction = []
  · rw [Numeral.fractionText, if_pos hf] at hc
    exact isDigit_head?_powerText t c hc
  · rw [Numeral.fractionText, if_neg hf] at hc
    cases hc
    rfl

theorem tail_ne_nil {t : Numeral} (h : t.Proper) : t.fractionText ++ t.powerText ≠ [] := by
  rcases h.pointed with hf | hp
  · simp [Numeral.fractionText, hf]
  · simp [Numeral.powerText, hp]

theorem fraction?_tail {t : Numeral} (h : t.Proper) :
    fraction? (t.fractionText ++ t.powerText) = some (t.fraction, t.powerText) := by
  by_cases hf : t.fraction = []
  · rw [Numeral.fractionText, if_pos hf, List.nil_append, hf]
    unfold fraction?
    split
    · next cs hcs =>
      unfold Numeral.powerText at hcs
      split at hcs
      · cases hcs
      · exact absurd (List.cons.inj hcs).1 (by decide)
    · rfl
  · have htake := takeWhile_of_boundary h.fraction_digits (isDigit_head?_powerText t)
    have hdrop := dropWhile_of_boundary h.fraction_digits (isDigit_head?_powerText t)
    rw [Numeral.fractionText, if_neg hf, List.cons_append, fraction?, htake, hdrop, if_neg hf]

theorem power?_powerText {t : Numeral} (h : t.Proper) :
    power? t.powerText = some ((Number.readInteger? t.power).getD 0) := by
  by_cases hp : t.power = []
  · rw [Numeral.powerText, if_pos hp, hp]
    rfl
  · obtain ⟨e, he⟩ := Option.isSome_iff_exists.mp (h.power_integer hp)
    rw [Numeral.powerText, if_neg hp, power?, if_pos (.inl rfl), he]
    rfl

/-- A numeral is read as the float that its decimal rounds to. -/
theorem unsigned?_text (negative : Bool) {t : Numeral} (h : t.Proper) :
    unsigned? negative t.text = some (.float (Binary64.ofDecimal ⟨negative, t.digits, t.exponent⟩)) := by
  have hdigits := (Number.isNatural_iff.mp h.whole_natural).2
  have htake := takeWhile_of_boundary hdigits (isDigit_head?_tail t)
  have hdrop := dropWhile_of_boundary hdigits (isDigit_head?_tail t)
  rw [Numeral.text, unsigned?]
  simp only [htake, hdrop, isWhole_of_proper h, Bool.not_true, Bool.false_eq_true, if_false, if_neg (tail_ne_nil h),
    fraction?_tail h, power?_powerText h, Option.bind_some, Option.map_some]
  rfl

/-- A text that begins with digits has no minus. -/
theorem number?_of_isNatural {ds : List Char} (h : Number.isNatural ds = true) (rest : List Char) :
    number? (ds ++ rest) = unsigned? false (ds ++ rest) := by
  obtain ⟨hne, hdigits⟩ := Number.isNatural_iff.mp h
  unfold number?
  split
  · next cs hcs =>
    have hhead : (ds ++ rest).head? = some '-' := by rw [hcs, List.head?_cons]
    rw [List.head?_append_of_ne_nil _ hne] at hhead
    exact absurd (hdigits _ (List.mem_of_mem_head? hhead)) (by decide)
  · rfl

/-- A keyword is no number. -/
theorem bare?_of_number? {cs : List Char} {a : Atom} (h : number? cs = some a) : bare? cs = some a := by
  have hword : ∀ word ∈ ["null", "true", "false"], cs ≠ word.toList := by
    intro word hw hcs
    subst hcs
    revert h
    simp only [List.mem_cons, List.not_mem_nil, or_false] at hw
    rcases hw with rfl | rfl | rfl <;> exact nofun
  rw [bare?, if_neg (hword _ (by simp)), if_neg (hword _ (by simp)), if_neg (hword _ (by simp)), h]

theorem number?_integerText (n : Int) : number? (Number.integerText n) = some (.integer n) := by
  unfold Number.integerText
  split
  · next hn =>
    rw [number?, unsigned?_naturalText, Number.signed, if_pos rfl]
    congr 2
    omega
  · next hn =>
    have hplain := number?_of_isNatural (Number.isNatural_naturalText n.natAbs) []
    rw [List.append_nil] at hplain
    rw [hplain, unsigned?_naturalText, Number.signed, if_neg (by decide)]
    congr 2
    omega

theorem number?_float {x : Binary64} (hx : x.isFinite = true) : number? (floatLayout.float x) = some (.float x) := by
  obtain ⟨t, ht, htext, hvalue⟩ := floatLayout.float_eq_text (.inr rfl) hx
  rw [htext]
  cases hneg : x.isNegative with
  | true =>
    rw [hneg] at hvalue
    rw [if_pos rfl, List.singleton_append, number?, unsigned?_text true ht, hvalue]
  | false =>
    rw [hneg] at hvalue
    have hplain : number? t.text = unsigned? false t.text := number?_of_isNatural ht.whole_natural _
    rw [if_neg (by decide), List.nil_append, hplain, unsigned?_text false ht, hvalue]

/-! ### Their characters -/

theorem isBare_of_isNatural {ds : List Char} (h : Number.isNatural ds = true) : ∀ c ∈ ds, isBare c = true :=
  fun c hc => isBare_of_isDigit ((Number.isNatural_iff.mp h).2 c hc)

theorem isBare_integerText (n : Int) : ∀ c ∈ Number.integerText n, isBare c = true := by
  have hdigits := isBare_of_isNatural (Number.isNatural_naturalText n.natAbs)
  unfold Number.integerText
  split
  · rw [List.forall_mem_cons]
    exact ⟨rfl, hdigits⟩
  · exact hdigits

theorem isBare_of_readInteger? {cs : List Char} {n : Int} (h : Number.readInteger? cs = some n) :
    ∀ c ∈ cs, isBare c = true := by
  have hdigits : Number.isNatural (Number.splitSign cs).2 = true := by
    simp only [Number.readInteger?] at h
    split at h
    · assumption
    · cases h
  have hbare := isBare_of_isNatural hdigits
  unfold Number.splitSign at hbare
  split at hbare
  · rw [List.forall_mem_cons]
    exact ⟨rfl, hbare⟩
  · rw [List.forall_mem_cons]
    exact ⟨rfl, hbare⟩
  · exact hbare

theorem isBare_fractionText {t : Numeral} (h : t.Proper) : ∀ c ∈ t.fractionText, isBare c = true := by
  unfold Numeral.fractionText
  split
  · exact nofun
  · rw [List.forall_mem_cons]
    exact ⟨rfl, fun c hc => isBare_of_isDigit (h.fraction_digits c hc)⟩

theorem isBare_powerText {t : Numeral} (h : t.Proper) : ∀ c ∈ t.powerText, isBare c = true := by
  unfold Numeral.powerText
  split
  · exact nofun
  · next hp =>
    have he := Option.some_get (h.power_integer hp)
    rw [List.forall_mem_cons]
    exact ⟨rfl, isBare_of_readInteger? he.symm⟩

theorem isBare_text {t : Numeral} (h : t.Proper) : ∀ c ∈ t.text, isBare c = true := by
  rw [Numeral.text, List.forall_mem_append, List.forall_mem_append]
  exact ⟨isBare_of_isNatural h.whole_natural, isBare_fractionText h, isBare_powerText h⟩

theorem isBare_float {x : Binary64} (hx : x.isFinite = true) : ∀ c ∈ floatLayout.float x, isBare c = true := by
  obtain ⟨t, ht, htext, -⟩ := floatLayout.float_eq_text (.inr rfl) hx
  rw [htext, List.forall_mem_append]
  refine ⟨?_, isBare_text ht⟩
  split
  · rw [List.forall_mem_singleton]
    rfl
  · exact nofun

/-! ## Strings -/

theorem string?_plain {c : Char} (hq : c ≠ '"') (hb : c ≠ '\\') (hc : ¬c.toNat < 0x20) (cs : List Char) :
    string? (c :: cs) = (string? cs).map fun (ds, rest) => (c :: ds, rest) := by
  rw [string?, if_neg hq, if_neg hb, if_neg hc]

theorem string?_escape {cs : List Char} {d : Char} {n : Nat} (h : escape? cs = some (d, n)) :
    string? ('\\' :: cs) = (string? (cs.drop n)).map fun (ds, rest) => (d :: ds, rest) := by
  rw [string?, if_neg (by decide), if_pos rfl, h]
  rfl

theorem unit?_append {cs : List Char} {n : Nat} (h : unit? cs = some n) (rest : List Char) :
    unit? (cs ++ rest) = some n := by
  match cs with
  | a :: b :: c :: d :: _ => exact h

/-- A control character has four hexadecimal digits, which stand for it. -/
theorem controlCode_spec {c : Char} (h : c.toNat < 0x20) :
    unit? (controlCode c) = some c.toNat ∧ (controlCode c).length = 4 := by
  have hall : ∀ n < 0x20, unit? (controlCode (Char.ofNat n)) = some n ∧ (controlCode (Char.ofNat n)).length = 4 := by
    decide
  have hc := hall c.toNat h
  rwa [Char.ofNat_toNat] at hc

/-- An escape of one letter. -/
theorem string?_letter {c e : Char} (h : ∀ cs, escape? (e :: cs) = some (c, 1)) (cs : List Char) :
    string? (['\\', e] ++ cs) = (string? cs).map fun (ds, rest) => (c :: ds, rest) :=
  string?_escape (h cs)

theorem string?_controlCode {c : Char} (hc : c.toNat < 0x20) (cs : List Char) :
    string? ('\\' :: 'u' :: controlCode c ++ cs) = (string? cs).map fun (ds, rest) => (c :: ds, rest) := by
  obtain ⟨hunit, hlen⟩ := controlCode_spec hc
  have hesc : escape? ('u' :: (controlCode c ++ cs)) = some (c, 5) := by
    rw [escape?, unit?_append hunit, Option.bind_some, if_neg (by omega), if_neg (by omega), Char.ofNat_toNat]
  have hrest : ('u' :: (controlCode c ++ cs)).drop 5 = cs := by
    rw [List.drop_succ_cons, ← hlen, List.drop_left]
  rw [List.cons_append, List.cons_append, string?_escape hesc, hrest]

theorem string?_escapedChar (c : Char) (cs : List Char) :
    string? (escapedChar c ++ cs) = (string? cs).map fun (ds, rest) => (c :: ds, rest) := by
  unfold escapedChar
  split_ifs with hquoted hn hr ht hb hf hc
  · rcases hquoted with rfl | rfl
    · exact string?_letter (fun _ => rfl) cs
    · exact string?_letter (fun _ => rfl) cs
  · subst hn
    exact string?_letter (fun _ => rfl) cs
  · subst hr
    exact string?_letter (fun _ => rfl) cs
  · subst ht
    exact string?_letter (fun _ => rfl) cs
  · subst hb
    exact string?_letter (fun _ => rfl) cs
  · subst hf
    exact string?_letter (fun _ => rfl) cs
  · exact string?_controlCode hc cs
  · exact string?_plain (fun h => hquoted (.inl h)) (fun h => hquoted (.inr h)) hc cs

/-- What is written for a string is read as that string. -/
theorem string?_flatMap_escapedChar (cs rest : List Char) :
    string? (cs.flatMap escapedChar ++ '"' :: rest) = some (cs, rest) := by
  induction cs with
  | nil => rw [List.flatMap_nil, List.nil_append, string?, if_pos rfl]
  | cons c cs ih => rw [List.flatMap_cons, List.append_assoc, string?_escapedChar, ih, Option.map_some]

/-! ## Texts and their symbols -/

/-- A keyword or a number ends before the text. -/
def Apart (rest : List Char) : Prop := ∀ c ∈ rest.head?, isBare c = false

theorem Apart.append {text rest : List Char} (h : Apart text) (hr : Apart rest) : Apart (text ++ rest) := by
  cases text with
  | nil => exact hr
  | cons c text => exact h

theorem isBare_of_isSpace {c : Char} (h : isSpace c = true) : isBare c = false := by
  have hcases : c = ' ' ∨ c = '\t' ∨ c = '\n' ∨ c = '\r' := of_decide_eq_true h
  rcases hcases with rfl | rfl | rfl | rfl <;> rfl

theorem apart_of_space {text : List Char} (h : ∀ c ∈ text, isSpace c = true) : Apart text :=
  fun c hc => isBare_of_isSpace (h c (List.mem_of_mem_head? hc))

theorem symbols?_space {c : Char} (hc : isSpace c = true) (cs : List Char) : symbols? (c :: cs) = symbols? cs := by
  rw [symbols?, if_neg (by simp [isBare_of_isSpace hc]), if_pos hc]

/-- The text has these symbols in front of whatever does not go on with a keyword or a number. -/
def HasSymbols (text : List Char) (symbols : List Symbol) : Prop :=
  ∀ rest, Apart rest → symbols? (text ++ rest) = (symbols? rest).map (symbols ++ ·)

namespace HasSymbols

variable {text : List Char} {symbols : List Symbol}

theorem nil : HasSymbols [] [] := by
  intro rest _
  simp

theorem append {text' : List Char} {symbols' : List Symbol} (h : HasSymbols text symbols) (h' : HasSymbols text' symbols')
    (ha : Apart text') : HasSymbols (text ++ text') (symbols ++ symbols') := by
  intro rest hr
  rw [List.append_assoc, h _ (ha.append hr), h' rest hr, Option.map_map]
  simp [Function.comp_def]

theorem space_append {space : List Char} (hs : ∀ c ∈ space, isSpace c = true) (h : HasSymbols text symbols) :
    HasSymbols (space ++ text) symbols := by
  induction space with
  | nil => exact h
  | cons c space ih =>
    obtain ⟨hc, hs⟩ := List.forall_mem_cons.mp hs
    intro rest hr
    rw [List.cons_append, List.cons_append, symbols?_space hc, ih hs rest hr]

theorem mark_cons {c : Char} {m : Symbol} (hc : mark? c = some m) (h : HasSymbols text symbols) :
    HasSymbols (c :: text) (m :: symbols) := by
  intro rest hr
  have hplain : isBare c = false ∧ isSpace c = false ∧ c ≠ '"' := by
    unfold mark? at hc
    split_ifs at hc with h h h h h h
    all_goals
      subst h
      exact ⟨rfl, rfl, by decide⟩
  rw [List.cons_append, symbols?, if_neg (by simp [hplain.1]), if_neg (by simp [hplain.2.1]), if_neg hplain.2.2, hc,
    Option.bind_some, h rest hr, Option.map_map]
  rfl

theorem stringText_append (s : String) (h : HasSymbols text symbols) :
    HasSymbols (stringText s ++ text) (.atom (.string s) :: symbols) := by
  intro rest hr
  have hs : string? (s.toList.flatMap escapedChar ++ '"' :: (text ++ rest)) = some (s.toList, text ++ rest) :=
    string?_flatMap_escapedChar _ _
  have htext : stringText s ++ text ++ rest = '"' :: (s.toList.flatMap escapedChar ++ '"' :: (text ++ rest)) := by
    simp [stringText]
  rw [htext, symbols?, if_neg (by decide), if_neg (by decide), if_pos rfl, hs]
  simp only
  rw [h rest hr, Option.map_map, String.ofList_toList]
  rfl

end HasSymbols

theorem hasSymbols_bare {word : List Char} {a : Atom} (hw : ∀ c ∈ word, isBare c = true) (ha : bare? word = some a) :
    HasSymbols word [.atom a] := by
  intro rest hr
  cases word with
  | nil => cases ha
  | cons c cs =>
    obtain ⟨hc, hcs⟩ := List.forall_mem_cons.mp hw
    rw [List.cons_append, symbols?, if_pos hc, takeWhile_of_boundary hcs hr, dropWhile_of_boundary hcs hr, ha]
    rfl

theorem hasSymbols_integerText (n : Int) : HasSymbols (Number.integerText n) [.atom (.integer n)] :=
  hasSymbols_bare (isBare_integerText n) (bare?_of_number? (number?_integerText n))

theorem hasSymbols_float {x : Binary64} (hx : x.isFinite = true) : HasSymbols (floatLayout.float x) [.atom (.float x)] :=
  hasSymbols_bare (isBare_float hx) (bare?_of_number? (number?_float hx))

theorem hasSymbols_null : HasSymbols "null".toList [.atom .null] := hasSymbols_bare (List.all_eq_true.mp rfl) rfl

theorem hasSymbols_booleanText (b : Bool) : HasSymbols (booleanText b) [.atom (.boolean b)] := by
  cases b with
  | true => exact hasSymbols_bare (List.all_eq_true.mp rfl) rfl
  | false => exact hasSymbols_bare (List.all_eq_true.mp rfl) rfl

end ObjectExpr.Json
