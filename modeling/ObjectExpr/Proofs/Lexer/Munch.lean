/-
  ObjectExpr.Proofs.Lexer.Munch — which lexeme stands in front of a text. A lexeme holds only characters
  that its kind can hold (`WellSpelled`), and what follows it does not go on with it (`EndsBefore`). These
  two, which do not say how a lexeme is read, leave one lexeme in front of a text: the longest one of its
  kind, which is the one that is read (`scan_eq_some_iff`, `Cursor.pull_of_fits`).
-/

import ObjectExpr.Proofs.Lexer.Seam

namespace ObjectExpr

open Text (isBlank byteSize)

/-! ## What a lexeme holds and where it ends -/

/-- A blank or a mark: it ends bare words and the names of variables. -/
def Separates (c : Char) : Prop := isBlank c = true ∨ ∃ m : Mark, m.char = c

/-- A blank or a mark, but not the dot: it ends raw literals. -/
def SeparatesRaw (c : Char) : Prop := isBlank c = true ∨ ∃ m : Mark, m ≠ .dot ∧ m.char = c

namespace Lexeme

/-- What the text of a lexeme can hold. -/
def WellSpelled : Lexeme → Prop
  | mark _ => True
  | bare text => text ≠ [] ∧ (∀ c ∈ text, ¬Separates c) ∧ ∀ c ∈ text.head?, c ≠ '"' ∧ c ≠ ':' ∧ c ≠ '^'
  | quoted text => '"' ∉ text
  | raw text => ∀ c ∈ text, ¬SeparatesRaw c
  | env name => ∀ c ∈ name, ¬Separates c

/-- What can follow a lexeme: after a mark or a closing quote, anything. -/
def EndsBefore (rest : List Char) : Lexeme → Prop
  | mark _ | quoted _ => True
  | bare _ | env _ => ∀ c ∈ rest.head?, Separates c
  | raw _ => ∀ c ∈ rest.head?, SeparatesRaw c

/-- At the end of a text every lexeme can end. -/
theorem endsBefore_nil (l : Lexeme) : l.EndsBefore [] := by
  cases l with
  | mark m => trivial
  | quoted text => trivial
  | bare text => exact nofun
  | raw text => exact nofun
  | env name => exact nofun

theorem inWord_eq_false_iff {c : Char} : inWord c = false ↔ Separates c := by
  have hm : (Mark.ofChar? c).isNone = false ↔ ∃ m : Mark, m.char = c := by
    constructor
    · intro h
      cases hm : Mark.ofChar? c with
      | none => rw [hm] at h; cases h
      | some m => exact ⟨m, Mark.char_of_ofChar? hm⟩
    · intro h
      obtain ⟨m, rfl⟩ := h
      rw [Mark.ofChar?_char]
      rfl
  rw [Separates, ← hm, inWord]
  cases isBlank c <;> simp

theorem inWord_iff {c : Char} : inWord c = true ↔ ¬Separates c := by
  rw [← inWord_eq_false_iff, Bool.not_eq_false]

theorem inRaw_eq_false_iff {c : Char} : inRaw c = false ↔ SeparatesRaw c := by
  rw [inRaw, Bool.or_eq_false_iff, inWord_eq_false_iff]
  constructor
  · intro h
    obtain ⟨hb | ⟨m, hm⟩, hc⟩ := h
    · exact .inl hb
    · refine .inr ⟨m, ?_, hm⟩
      intro he
      subst he hm
      cases hc
  · intro h
    rcases h with hb | ⟨m, hne, hm⟩
    · have hc : c ≠ '.' := by
        intro hc
        subst hc
        cases hb
      exact ⟨.inl hb, by simpa using hc⟩
    · subst hm
      refine ⟨.inr ⟨m, rfl⟩, ?_⟩
      cases m with
      | dot => exact absurd rfl hne
      | _ => rfl

theorem inRaw_iff {c : Char} : inRaw c = true ↔ ¬SeparatesRaw c := by
  rw [← inRaw_eq_false_iff, Bool.not_eq_false]

end Lexeme

/-! ## Up to where a text has to end -/

section

variable {p : Char → Bool} {text rest : List Char}

theorem takeWhile_of_boundary (h : ∀ c ∈ text, p c = true) (hr : ∀ c ∈ rest.head?, p c = false) :
    (text ++ rest).takeWhile p = text := by
  rw [takeWhile_append_of_head hr, List.takeWhile_eq_self_iff.mpr h]

theorem dropWhile_of_boundary (h : ∀ c ∈ text, p c = true) (hr : ∀ c ∈ rest.head?, p c = false) :
    (text ++ rest).dropWhile p = rest := by
  rw [dropWhile_append_of_head hr, List.dropWhile_eq_nil_iff.mpr h, List.nil_append]

theorem head?_dropWhile (cs : List Char) : ∀ c ∈ (cs.dropWhile p).head?, p c = false := by
  intro c hc
  have hd := List.head?_dropWhile_not p cs
  rw [hc] at hd
  simpa using hd

end

/-! ## The lexeme in front of a text -/

namespace Lexeme

variable {c : Char} {cs rest : List Char} {l : Lexeme}

theorem fits_of_scanQuoted (h : scanQuoted cs = some (l, rest)) : l.WellSpelled ∧ l.EndsBefore rest := by
  unfold scanQuoted at h
  split at h
  · cases h
  · cases h
    refine ⟨?_, trivial⟩
    intro hq
    have := List.mem_takeWhile_imp hq
    cases this

theorem fits_of_scan (hc : isBlank c = false) (h : scan c cs = some (l, rest)) :
    l.WellSpelled ∧ l.EndsBefore rest := by
  have hword : ∀ d ∈ cs.takeWhile inWord, ¬Separates d := fun d hd => inWord_iff.mp (List.mem_takeWhile_imp hd)
  have hends : ∀ d ∈ (cs.dropWhile inWord).head?, Separates d := fun d hd =>
    inWord_eq_false_iff.mp (head?_dropWhile cs d hd)
  unfold scan at h
  cases hm : Mark.ofChar? c with
  | some m =>
    rw [hm] at h
    cases h
    exact ⟨trivial, trivial⟩
  | none =>
    simp only [hm] at h
    by_cases hquote : c = '"'
    · rw [if_pos hquote] at h
      exact fits_of_scanQuoted h
    rw [if_neg hquote] at h
    by_cases hcolon : c = ':'
    · rw [if_pos hcolon] at h
      cases h
      refine ⟨?_, ?_⟩
      · intro d hd
        exact inRaw_iff.mp (List.mem_takeWhile_imp hd)
      · intro d hd
        exact inRaw_eq_false_iff.mp (head?_dropWhile cs d hd)
    rw [if_neg hcolon] at h
    by_cases hcaret : c = '^'
    · rw [if_pos hcaret] at h
      cases h
      exact ⟨hword, hends⟩
    · rw [if_neg hcaret] at h
      cases h
      have hfirst : ¬Separates c := inWord_iff.mp (by simp [inWord, hc, hm])
      refine ⟨⟨List.cons_ne_nil _ _, List.forall_mem_cons.mpr ⟨hfirst, hword⟩, ?_⟩, hends⟩
      intro d hd
      cases hd
      exact ⟨hquote, hcolon, hcaret⟩

theorem scan_of_fits (hs : l.source ++ rest = c :: cs) (hw : l.WellSpelled) (he : l.EndsBefore rest) :
    scan c cs = some (l, rest) := by
  cases l with
  | mark m =>
    cases hs
    simp [scan]
  | quoted text =>
    have hall : ∀ d ∈ text, inQuotes d = true := by
      intro d hd
      have hne : d ≠ '"' := ne_of_mem_of_not_mem hd hw
      simpa [inQuotes] using hne
    have hstop : ∀ d ∈ ('"' :: rest).head?, inQuotes d = false := by
      intro d hd
      cases hd
      rfl
    cases hs
    have ht := takeWhile_of_boundary hall hstop
    have hd := dropWhile_of_boundary hall hstop
    simp [scan, scanQuoted, ht, hd, show Mark.ofChar? '"' = none by decide]
  | raw text =>
    have hall : ∀ d ∈ text, inRaw d = true := fun d hd => inRaw_iff.mpr (hw d hd)
    have hstop : ∀ d ∈ rest.head?, inRaw d = false := fun d hd => inRaw_eq_false_iff.mpr (he d hd)
    cases hs
    have ht := takeWhile_of_boundary hall hstop
    have hd := dropWhile_of_boundary hall hstop
    simp [scan, ht, hd, show Mark.ofChar? ':' = none by decide]
  | env name =>
    have hall : ∀ d ∈ name, inWord d = true := fun d hd => inWord_iff.mpr (hw d hd)
    have hstop : ∀ d ∈ rest.head?, inWord d = false := fun d hd => inWord_eq_false_iff.mpr (he d hd)
    cases hs
    have ht := takeWhile_of_boundary hall hstop
    have hd := dropWhile_of_boundary hall hstop
    simp [scan, ht, hd, show Mark.ofChar? '^' = none by decide]
  | bare text =>
    obtain ⟨hne, hword, hfirst⟩ := hw
    obtain ⟨d, ds, rfl⟩ := List.exists_cons_of_ne_nil hne
    obtain ⟨hquote, hcolon, hcaret⟩ := hfirst d rfl
    obtain ⟨hd, hds⟩ := List.forall_mem_cons.mp hword
    have hall : ∀ e ∈ ds, inWord e = true := fun e he => inWord_iff.mpr (hds e he)
    have hstop : ∀ e ∈ rest.head?, inWord e = false := fun e he' => inWord_eq_false_iff.mpr (he e he')
    have hm : Mark.ofChar? d = none := by
      have hin := inWord_iff.mpr hd
      simp only [inWord, Bool.and_eq_true, Option.isNone_iff_eq_none] at hin
      exact hin.2
    have ht := takeWhile_of_boundary hall hstop
    have hdrop := dropWhile_of_boundary hall hstop
    cases hs
    simp [scan, ht, hdrop, hm, hquote, hcolon, hcaret]

/-- The lexeme in front of a text is the one that is well spelled and ends where it has to. -/
theorem scan_eq_some_iff (hc : isBlank c = false) :
    scan c cs = some (l, rest) ↔ l.source ++ rest = c :: cs ∧ l.WellSpelled ∧ l.EndsBefore rest := by
  constructor
  · intro h
    exact ⟨source_append_of_scan h, fits_of_scan hc h⟩
  · intro h
    obtain ⟨hs, hw, he⟩ := h
    exact scan_of_fits hs hw he

/-- No lexeme is empty or starts with a blank. -/
theorem exists_source_of_wellSpelled (h : l.WellSpelled) : ∃ c cs, l.source = c :: cs ∧ isBlank c = false := by
  cases l with
  | mark m => exact ⟨m.char, [], rfl, by cases m <;> rfl⟩
  | quoted text => exact ⟨'"', _, rfl, rfl⟩
  | raw text => exact ⟨':', _, rfl, rfl⟩
  | env name => exact ⟨'^', _, rfl, rfl⟩
  | bare text =>
    obtain ⟨hne, hword, -⟩ := h
    obtain ⟨c, cs, rfl⟩ := List.exists_cons_of_ne_nil hne
    refine ⟨c, cs, rfl, ?_⟩
    have hc : ¬Separates c := hword c List.mem_cons_self
    rw [← Bool.not_eq_true]
    intro hb
    exact hc (.inl hb)

end Lexeme

/-! ## The token behind blanks -/

namespace Cursor

variable {blanks rest : List Char}

theorem skipBlanks_of_boundary (h : ∀ c ∈ blanks, isBlank c = true) (hr : ∀ c ∈ rest.head?, isBlank c = false) (k : Nat) :
    skipBlanks ⟨blanks ++ rest, k⟩ = ⟨rest, k + byteSize blanks⟩ := by
  rw [skipBlanks, takeWhile_of_boundary h hr, dropWhile_of_boundary h hr]

/-- Behind blanks, a lexeme that is well spelled and ends where it has to is the next token. -/
theorem pull_of_fits (hb : ∀ c ∈ blanks, isBlank c = true) {l : Lexeme} (hw : l.WellSpelled) (he : l.EndsBefore rest)
    (k : Nat) :
    pull ⟨blanks ++ (l.source ++ rest), k⟩ =
      (.token ⟨l, k + byteSize blanks⟩, ⟨rest, k + byteSize blanks + byteSize l.source⟩) := by
  obtain ⟨c, cs, hs, hc⟩ := Lexeme.exists_source_of_wellSpelled hw
  have hfront : l.source ++ rest = c :: (cs ++ rest) := by
    rw [hs]
    rfl
  have hhead : ∀ d ∈ (l.source ++ rest).head?, isBlank d = false := by
    intro d hd
    rw [hfront] at hd
    cases hd
    exact hc
  have hscan : Lexeme.scan c (cs ++ rest) = some (l, rest) := Lexeme.scan_of_fits hfront hw he
  rw [pull, skipBlanks_of_boundary hb hhead]
  exact take_eq_token_iff.mpr ⟨c, cs ++ rest, rest, hfront, hscan, rfl, rfl⟩

end Cursor

end ObjectExpr
