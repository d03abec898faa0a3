/-
  ObjectExpr.Proofs.Lexer.Rejoined — a text, and its lines trimmed and joined by spaces. The two differ in
  blanks only: where the text goes on to another line, the other has one space, and where the text ends, the
  other may end before its last blanks (`Rejoined`). Blanks end the same lexemes, and no blank is a quote. So
  the lexemes of the two are the same, but for quoted texts that go on over a line end; and what ends the one
  at an open quote ends the other there (`Cursor.read_rejoined`).
-/

import Mathlib.Data.List.Forall2
import ObjectExpr.Proofs.Lexer.Munch
import ObjectExpr.Proofs.Text.Lines

namespace ObjectExpr

open Text (isBlank byteSize cutLines trim)

/-- The second text has a space for blanks with a line end, and may lack blanks at its end. -/
inductive Rejoined : List Char → List Char → Prop
  | blank {bs : List Char} : (∀ c ∈ bs, isBlank c = true) → Rejoined bs []
  | char (c : Char) {cs ds : List Char} : Rejoined cs ds → Rejoined (c :: cs) (c :: ds)
  | lineEnd {gap cs ds : List Char} : '\n' ∈ gap → (∀ c ∈ gap, isBlank c = true) → Rejoined cs ds →
      Rejoined (gap ++ cs) (' ' :: ds)

theorem breaks_append {gap : List Char} (hne : gap ≠ []) (hb : ∀ c ∈ gap, isBlank c = true) (cs : List Char) :
    Breaks (gap ++ cs) := by
  obtain ⟨b, bs, rfl⟩ := List.exists_cons_of_ne_nil hne
  intro c hc
  cases hc
  exact hb b List.mem_cons_self

namespace Rejoined

open Lexeme (inWord inRaw inQuotes)

variable {cs ds : List Char} {p : Char → Bool}

/-! ## Up to a character that fails -/

/-- If all blanks have a property or none has, it fails at the same place in both. -/
theorem dropWhile (h : Rejoined cs ds)
    (hp : (∀ c, isBlank c = true → p c = true) ∨ ∀ c, isBlank c = true → p c = false) :
    Rejoined (cs.dropWhile p) (ds.dropWhile p) := by
  induction h with
  | @blank bs hb => exact .blank fun c hc => hb c ((List.dropWhile_sublist p).mem hc)
  | @char c cs ds h ih =>
    rw [List.dropWhile_cons, List.dropWhile_cons]
    split
    · exact ih
    · exact .char c h
  | @lineEnd gap cs ds hn hb h ih =>
    rcases hp with hp | hp
    · rw [List.dropWhile_append_of_pos fun c hc => hp c (hb c hc), List.dropWhile_cons_of_pos (hp ' ' rfl)]
      exact ih
    · have hstop : ∀ c ∈ (gap ++ cs).head?, p c = false := fun c hc =>
        hp c (breaks_append (List.ne_nil_of_mem hn) hb cs c hc)
      have hdrop : (gap ++ cs).dropWhile p = gap ++ cs := dropWhile_append_of_head hstop []
      rw [hdrop, List.dropWhile_cons_of_neg (by simp [hp ' ' rfl])]
      exact .lineEnd hn hb h

/-- What stands before the first blank is the same. -/
theorem takeWhile_eq (h : Rejoined cs ds) (hp : ∀ c, isBlank c = true → p c = false) :
    cs.takeWhile p = ds.takeWhile p := by
  induction h with
  | blank hb => exact takeWhile_eq_nil_of_head fun c hc => hp c (Breaks.of_blank hb c hc)
  | char c h ih => rw [List.takeWhile_cons, List.takeWhile_cons, ih]
  | @lineEnd gap cs ds hn hb h ih =>
    rw [List.takeWhile_cons_of_neg (by simp [hp ' ' rfl])]
    exact takeWhile_eq_nil_of_head fun c hc => hp c (breaks_append (List.ne_nil_of_mem hn) hb cs c hc)

theorem inQuotes_of_isBlank (c : Char) (hc : isBlank c = true) : inQuotes c = true := by
  have hne : c ≠ '"' := by
    rintro rfl
    cases hc
  simpa [inQuotes] using hne

theorem inWord_of_isBlank (c : Char) (hc : isBlank c = true) : inWord c = false :=
  Lexeme.inWord_eq_false_iff.mpr (.inl hc)

theorem inRaw_of_isBlank (c : Char) (hc : isBlank c = true) : inRaw c = false :=
  Lexeme.inRaw_eq_false_iff.mpr (.inl hc)

/-- What stands before a quote is the same, if it holds no line end. -/
theorem takeWhile_inQuotes (h : Rejoined cs ds) (hq : cs.dropWhile inQuotes ≠ []) (hn : '\n' ∉ cs.takeWhile inQuotes) :
    cs.takeWhile inQuotes = ds.takeWhile inQuotes := by
  induction h with
  | blank hb => exact absurd (List.dropWhile_eq_nil_iff.mpr fun c hc => inQuotes_of_isBlank c (hb c hc)) hq
  | char c h ih =>
    rw [List.takeWhile_cons, List.takeWhile_cons]
    by_cases hc : inQuotes c = true
    · rw [List.dropWhile_cons_of_pos hc] at hq
      rw [List.takeWhile_cons_of_pos hc, List.mem_cons, not_or] at hn
      rw [if_pos hc, if_pos hc, ih hq hn.2]
    · rw [if_neg hc, if_neg hc]
  | lineEnd hgap hb h ih =>
    rw [List.takeWhile_append_of_pos fun c hc => inQuotes_of_isBlank c (hb c hc)] at hn
    exact absurd (List.mem_append_left _ hgap) hn

/-- With no blank in front, both are at their end or both go on with the same character. -/
theorem eq_nil_or_cons (h : Rejoined cs ds) (hc : ∀ c ∈ cs.head?, isBlank c = false) :
    (cs = [] ∧ ds = []) ∨ ∃ c cs' ds', cs = c :: cs' ∧ ds = c :: ds' ∧ Rejoined cs' ds' := by
  cases h with
  | blank hb =>
    cases cs with
    | nil => exact .inl ⟨rfl, rfl⟩
    | cons c cs => cases (hc c rfl).symm.trans (hb c List.mem_cons_self)
  | char c h => exact .inr ⟨c, _, _, rfl, rfl, h⟩
  | @lineEnd gap cs ds hn hb h =>
    obtain ⟨b, bs, rfl⟩ := List.exists_cons_of_ne_nil (List.ne_nil_of_mem hn)
    cases (hc b rfl).symm.trans (hb b List.mem_cons_self)

end Rejoined

/-! ## Lexemes -/

/-- The same lexeme, or two quoted texts, of which the first goes on over a line end. -/
inductive LexemesMatch : Lexeme → Lexeme → Prop
  | same (l : Lexeme) : LexemesMatch l l
  | quoted {text text' : List Char} : '\n' ∈ text → LexemesMatch (.quoted text) (.quoted text')

/-- Both come to the end of their text, or both to a quote that is never closed. -/
inductive EndingsMatch : Ending → Ending → Prop
  | finish (p q : Nat) : EndingsMatch (.finish p) (.finish q)
  | unterminated (p q : Nat) : EndingsMatch (.unterminated p) (.unterminated q)

/-- The same lexemes in front, with texts behind that are rejoined. -/
def ScansMatch : Option (Lexeme × List Char) → Option (Lexeme × List Char) → Prop :=
  Option.Rel fun x y => LexemesMatch x.1 y.1 ∧ Rejoined x.2 y.2

namespace Lexeme

variable {cs ds : List Char}

theorem scanQuoted_rejoined (h : Rejoined cs ds) : ScansMatch (scanQuoted cs) (scanQuoted ds) := by
  have hdrop := h.dropWhile (.inl Rejoined.inQuotes_of_isBlank)
  have hstop : ∀ c ∈ (cs.dropWhile inQuotes).head?, isBlank c = false := by
    intro c hc
    have hq := head?_dropWhile cs c hc
    rw [← Bool.not_eq_true]
    intro hb
    cases hq.symm.trans (Rejoined.inQuotes_of_isBlank c hb)
  unfold scanQuoted
  rcases hdrop.eq_nil_or_cons hstop with ⟨hcs, hds⟩ | ⟨c, rest, rest', hcs, hds, hrest⟩
  · rw [hcs, hds]
    exact .none
  · have hq : cs.dropWhile inQuotes ≠ [] := by simp [hcs]
    have htake := h.takeWhile_inQuotes hq
    rw [hcs, hds]
    by_cases hn : '\n' ∈ cs.takeWhile inQuotes
    · exact .some ⟨.quoted hn, hrest⟩
    · rw [htake hn]
      exact .some ⟨.same _, hrest⟩

theorem scan_rejoined (h : Rejoined cs ds) (c : Char) : ScansMatch (scan c cs) (scan c ds) := by
  have hword := h.dropWhile (.inr Rejoined.inWord_of_isBlank)
  have hraw := h.dropWhile (.inr Rejoined.inRaw_of_isBlank)
  unfold scan
  rw [h.takeWhile_eq Rejoined.inWord_of_isBlank, h.takeWhile_eq Rejoined.inRaw_of_isBlank]
  cases Mark.ofChar? c with
  | some m => exact .some ⟨.same _, h⟩
  | none =>
    by_cases hquote : c = '"'
    · simp only [if_pos hquote]
      exact scanQuoted_rejoined h
    by_cases hcolon : c = ':'
    · simp only [if_neg hquote, if_pos hcolon]
      exact .some ⟨.same _, hraw⟩
    by_cases hcaret : c = '^'
    · simp only [if_neg hquote, if_neg hcolon, if_pos hcaret]
      exact .some ⟨.same _, hword⟩
    · simp only [if_neg hquote, if_neg hcolon, if_neg hcaret]
      exact .some ⟨.same _, hword⟩

end Lexeme

/-! ## Tokens -/

namespace Cursor

inductive PullsMatch : Pull × Cursor → Pull × Cursor → Prop
  | token {t u : Token} {c d : Cursor} : LexemesMatch t.lexeme u.lexeme → Rejoined c.rest d.rest →
      PullsMatch (.token t, c) (.token u, d)
  | last {e e' : Ending} (c d : Cursor) : EndingsMatch e e' → PullsMatch (.last e, c) (.last e', d)

theorem pull_rejoined {c d : Cursor} (h : Rejoined c.rest d.rest) : PullsMatch c.pull d.pull := by
  have hskip : Rejoined c.skipBlanks.rest d.skipBlanks.rest := h.dropWhile (.inl fun _ hb => hb)
  have hstop : ∀ b ∈ c.skipBlanks.rest.head?, isBlank b = false := head?_dropWhile c.rest
  rw [pull, pull]
  generalize c.skipBlanks = c at hskip hstop
  generalize d.skipBlanks = d at hskip
  obtain ⟨cs, k⟩ := c
  obtain ⟨ds, k'⟩ := d
  rcases hskip.eq_nil_or_cons hstop with ⟨rfl, rfl⟩ | ⟨b, cs, ds, rfl, rfl, hrest⟩
  · exact .last _ _ (.finish k k')
  · have hscan := Lexeme.scan_rejoined hrest b
    unfold take
    dsimp only
    generalize Lexeme.scan b cs = x at hscan
    generalize Lexeme.scan b ds = y at hscan
    cases hscan with
    | none => exact .last _ _ (.unterminated k k')
    | some hm => exact .token hm.1 hm.2

/-- The lexemes of the two texts match, one by one, and so do their ends. -/
theorem read_rejoined {c d : Cursor} (h : Rejoined c.rest d.rest) :
    List.Forall₂ (fun t u => LexemesMatch t.lexeme u.lexeme) c.read.1 d.read.1 ∧ EndingsMatch c.read.2 d.read.2 := by
  induction c using pull_induction generalizing d with
  | token c t next hp ih =>
    have hpull := pull_rejoined h
    rw [hp] at hpull
    generalize hq : d.pull = y at hpull
    cases hpull with
    | token hl hrest =>
      obtain ⟨hts, he⟩ := ih hrest
      rw [read_of_token hp, read_of_token hq]
      exact ⟨.cons hl hts, he⟩
  | last c e next hp =>
    have hpull := pull_rejoined h
    rw [hp] at hpull
    generalize hq : d.pull = y at hpull
    cases hpull with
    | last _ _ he =>
      rw [read_of_last hp, read_of_last hq]
      exact ⟨.nil, he⟩

end Cursor

/-! ## Lines -/

theorem Rejoined.append_left {cs ds : List Char} (h : Rejoined cs ds) (front : List Char) :
    Rejoined (front ++ cs) (front ++ ds) := by
  induction front with
  | nil => exact h
  | cons c front ih => exact .char c ih

/-- Lines that are trimmed and joined by spaces. -/
def rejoin (ls : List (List Char)) : List Char := [' '].intercalate (ls.map trim)

theorem rejoin_cons_cons (line next : List Char) (ls : List (List Char)) :
    rejoin (line :: next :: ls) = trim line ++ ' ' :: rejoin (next :: ls) := by
  rw [rejoin, List.map_cons, List.map_cons, List.intercalate_cons_cons, List.append_assoc]
  rfl

/-- But for blanks in front, lines that end in line feeds are the lines trimmed and joined. -/
theorem exists_rejoined_lines {ls : List (List Char)} (h : ∀ line ∈ ls.dropLast, line.getLast? = some '\n') :
    ∃ bs rest, (∀ c ∈ bs, isBlank c = true) ∧ ls.flatten = bs ++ rest ∧ Rejoined rest (rejoin ls) := by
  induction ls with
  | nil => exact ⟨[], [], by simp, rfl, .blank (by simp)⟩
  | cons line ls ih =>
    cases ls with
    | nil =>
      obtain ⟨front, back, hf, hb, hline⟩ := Text.exists_trim line
      refine ⟨front, trim line ++ back, hf, by rw [List.flatten_singleton, ← List.append_assoc, hline], ?_⟩
      rw [rejoin, List.map_singleton, List.intercalate_singleton]
      simpa using (Rejoined.blank hb).append_left (trim line)
    | cons next ls =>
      rw [List.dropLast_cons_cons, List.forall_mem_cons] at h
      obtain ⟨body, rfl⟩ := List.getLast?_eq_some_iff.mp h.1
      obtain ⟨bs, rest, hbs, hflat, hrest⟩ := ih h.2
      obtain ⟨front, back, hf, hb, hbody⟩ := Text.exists_trim body
      have hn : '\n' ∈ back ++ ['\n'] ++ bs := by simp
      have hgap : ∀ c ∈ back ++ ['\n'] ++ bs, isBlank c = true := by
        intro c hc
        simp only [List.mem_append, List.mem_singleton] at hc
        rcases hc with (hc | rfl) | hc
        · exact hb c hc
        · rfl
        · exact hbs c hc
      refine ⟨front, trim body ++ ((back ++ ['\n'] ++ bs) ++ rest), hf, ?_, ?_⟩
      · calc ((body ++ ['\n']) :: next :: ls).flatten
            = (body ++ ['\n']) ++ (bs ++ rest) := by rw [List.flatten_cons, hflat]
          _ = ((front ++ trim body ++ back) ++ ['\n']) ++ (bs ++ rest) := by rw [hbody]
          _ = front ++ (trim body ++ ((back ++ ['\n'] ++ bs) ++ rest)) := by simp only [List.append_assoc]
      · rw [rejoin_cons_cons, Text.trim_append_lineFeed]
        exact .append_left (.lineEnd hn hgap hrest) (trim body)

theorem exists_rejoined (cs : List Char) :
    ∃ bs rest, (∀ c ∈ bs, isBlank c = true) ∧ cs = bs ++ rest ∧ Rejoined rest (rejoin (cutLines cs)) := by
  have hends : ∀ line ∈ (cutLines cs).dropLast, line.getLast? = some '\n' := fun _ hl => Text.getLast?_of_mem_dropLast hl
  have h := exists_rejoined_lines hends
  rwa [Text.flatten_cutLines] at h

end ObjectExpr
