/-
  ObjectExpr.Token.Scan — one lexeme off the front of a text that starts with no blank. A bare word
  runs to the next blank or mark, and so does the name of a variable; a raw literal runs on over dots,
  since floats hold them; a quoted string runs to the next quote, whatever stands before it.
  A quote, `:` or `^` is special only at the start of a lexeme.

  `source_append_of_scan`: the spelling of the lexeme and the rest are the text that was read.
  `scan_eq_none_iff`: the only text with no lexeme in front is a quote that is never closed.
-/

import ObjectExpr.Text.Blank
import ObjectExpr.Token

namespace ObjectExpr.Lexeme

open Text (isBlank)

/-- A character that a bare word or the name of a variable can hold. -/
def inWord (c : Char) : Bool := !isBlank c && (Mark.ofChar? c).isNone

/-- A character that a raw literal can hold. -/
def inRaw (c : Char) : Bool := inWord c || c == '.'

def inQuotes (c : Char) : Bool := c != '"'

/-- The string that an opening quote before `cs` starts, and what follows its closing quote. -/
def scanQuoted (cs : List Char) : Option (Lexeme × List Char) :=
  match cs.dropWhile inQuotes with
  | [] => none
  | _ :: rest => some (.quoted (cs.takeWhile inQuotes), rest)

/-- The lexeme in front of `c :: cs`, with `c` not blank, and the text behind it. -/
def scan (c : Char) (cs : List Char) : Option (Lexeme × List Char) :=
  match Mark.ofChar? c with
  | some m => some (.mark m, cs)
  | none =>
    if c = '"' then scanQuoted cs
    else if c = ':' then some (.raw (cs.takeWhile inRaw), cs.dropWhile inRaw)
    else if c = '^' then some (.env (cs.takeWhile inWord), cs.dropWhile inWord)
    else some (.bare (c :: cs.takeWhile inWord), cs.dropWhile inWord)

/-! ## What is read is what was there -/

theorem head_dropWhile_inQuotes {cs rest : List Char} {c : Char} (h : cs.dropWhile inQuotes = c :: rest) :
    c = '"' := by
  induction cs with
  | nil => simp at h
  | cons d ds ih =>
    rw [List.dropWhile_cons] at h
    split at h
    · exact ih h
    · next hd =>
      obtain ⟨rfl, -⟩ := List.cons.inj h
      simpa [inQuotes] using hd

theorem dropWhile_inQuotes_eq_nil {cs : List Char} : cs.dropWhile inQuotes = [] ↔ '"' ∉ cs := by
  induction cs with
  | nil => simp
  | cons d ds ih =>
    rw [List.dropWhile_cons]
    by_cases hd : d = '"'
    · simp [inQuotes, hd]
    · simp [inQuotes, hd, Ne.symm hd, ← ih]

theorem source_append_of_scanQuoted {cs rest : List Char} {l : Lexeme}
    (h : scanQuoted cs = some (l, rest)) : l.source ++ rest = '"' :: cs := by
  unfold scanQuoted at h
  split at h
  · cases h
  · next c tail hd =>
    obtain ⟨rfl, rfl⟩ := Prod.mk.inj (Option.some.inj h)
    have hc := head_dropWhile_inQuotes hd
    subst hc
    have hs := List.takeWhile_append_dropWhile (p := inQuotes) (l := cs)
    rw [hd] at hs
    simp [source, hs]

theorem source_append_of_scan {c : Char} {cs rest : List Char} {l : Lexeme}
    (h : scan c cs = some (l, rest)) : l.source ++ rest = c :: cs := by
  unfold scan at h
  split at h
  · next m hm =>
    obtain ⟨rfl, rfl⟩ := Prod.mk.inj (Option.some.inj h)
    simp [source, Mark.char_of_ofChar? hm]
  · split at h
    · next hq => subst hq; exact source_append_of_scanQuoted h
    · split at h
      · next hc =>
        obtain ⟨rfl, rfl⟩ := Prod.mk.inj (Option.some.inj h)
        simp [source, hc]
      · split at h
        · next hc =>
          obtain ⟨rfl, rfl⟩ := Prod.mk.inj (Option.some.inj h)
          simp [source, hc]
        · obtain ⟨rfl, rfl⟩ := Prod.mk.inj (Option.some.inj h)
          simp [source]

theorem source_ne_nil_of_scan {c : Char} {cs rest : List Char} {l : Lexeme}
    (h : scan c cs = some (l, rest)) : l.source ≠ [] := by
  unfold scan scanQuoted at h
  repeat' split at h
  all_goals cases h
  all_goals simp [source]

/-- A lexeme takes at least one character. -/
theorem length_rest_of_scan {c : Char} {cs rest : List Char} {l : Lexeme}
    (h : scan c cs = some (l, rest)) : rest.length ≤ cs.length := by
  have hs := congrArg List.length (source_append_of_scan h)
  have hp := List.length_pos_iff.mpr (source_ne_nil_of_scan h)
  simp only [List.length_append, List.length_cons] at hs
  omega

/-- There is no lexeme only where a quote is opened and never closed. -/
theorem scan_eq_none_iff {c : Char} {cs : List Char} :
    scan c cs = none ↔ c = '"' ∧ '"' ∉ cs := by
  rw [← dropWhile_inQuotes_eq_nil]
  constructor
  · intro h
    unfold scan scanQuoted at h
    repeat' split at h
    all_goals simp_all
  · rintro ⟨rfl, hd⟩
    simp [scan, scanQuoted, hd, show Mark.ofChar? '"' = none by decide]

end ObjectExpr.Lexeme
