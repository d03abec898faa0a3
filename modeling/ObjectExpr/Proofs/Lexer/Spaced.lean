/-
  ObjectExpr.Proofs.Lexer.Spaced — lexemes written one after another. A lexeme is whole if it is what is
  read off its own spelling, and nothing is left: marks are, quoted texts without a quote, and raw
  literals of the characters that they can hold. Whole lexemes with a blank between each two are read
  back as they are (`exists_read_spaced`).
-/

import ObjectExpr.Proofs.Lexer.Munch

namespace ObjectExpr

open Text (isBlank byteSize)

namespace Lexeme

/-- All of the spelling is read, as this lexeme. -/
def Whole (l : Lexeme) : Prop := ∃ c cs, l.source = c :: cs ∧ isBlank c = false ∧ scan c cs = some (l, [])

theorem whole_of_wellSpelled {l : Lexeme} (h : l.WellSpelled) : l.Whole := by
  obtain ⟨c, cs, hs, hc⟩ := exists_source_of_wellSpelled h
  refine ⟨c, cs, hs, hc, scan_of_fits ?_ h (endsBefore_nil l)⟩
  rw [hs, List.append_nil]

theorem whole_mark (m : Mark) : (mark m).Whole := whole_of_wellSpelled trivial

theorem whole_quoted {text : List Char} (h : '"' ∉ text) : (quoted text).Whole := whole_of_wellSpelled h

theorem whole_raw {text : List Char} (h : text.all inRaw = true) : (raw text).Whole := by
  rw [List.all_eq_true] at h
  exact whole_of_wellSpelled fun c hc => inRaw_iff.mp (h c hc)

end Lexeme

/-- The spellings of lexemes, with a blank between each two. -/
def spaced (ls : List Lexeme) : List Char := [' '].intercalate (ls.map Lexeme.source)

theorem spaced_singleton (l : Lexeme) : spaced [l] = l.source := List.intercalate_singleton

theorem spaced_cons_cons (l l' : Lexeme) (ls : List Lexeme) :
    spaced (l :: l' :: ls) = l.source ++ ([' '] ++ spaced (l' :: ls)) := by
  rw [spaced, List.map_cons, List.map_cons, List.intercalate_cons_cons, List.append_assoc]
  rfl

theorem isBlank_space : ∀ c ∈ [' '], isBlank c = true := by
  rw [List.forall_mem_singleton]
  decide

theorem breaks_nil : Breaks [] := fun _ h => nomatch h

theorem breaks_space (rest : List Char) : Breaks ([' '] ++ rest) := fun c hc =>
  isBlank_space c (by simpa using hc.symm)

namespace Cursor

theorem pull_of_whole {l : Lexeme} (hl : l.Whole) {rest : List Char} (hb : Breaks rest) (offset : Nat) :
    pull ⟨l.source ++ rest, offset⟩ = (.token ⟨l, offset⟩, ⟨rest, offset + byteSize l.source⟩) := by
  obtain ⟨c, cs, hs, hc, hscan⟩ := hl
  have hskip : skipBlanks ⟨l.source ++ rest, offset⟩ = ⟨c :: (cs ++ rest), offset⟩ := by
    simp [skipBlanks, hs, hc]
  rw [pull, hskip]
  exact take_eq_token_iff.mpr ⟨c, cs ++ rest, rest, rfl, Lexeme.scan_append hscan hb, rfl, rfl⟩

theorem read_of_whole {l : Lexeme} (hl : l.Whole) {rest : List Char} (hb : Breaks rest) (offset : Nat) :
    read ⟨l.source ++ rest, offset⟩ =
      (⟨l, offset⟩ :: (read ⟨rest, offset + byteSize l.source⟩).1, (read ⟨rest, offset + byteSize l.source⟩).2) :=
  read_of_token (pull_of_whole hl hb offset)

/-- Whole lexemes are read back. -/
theorem exists_read_spaced {ls : List Lexeme} (h : ∀ l ∈ ls, l.Whole) (offset : Nat) :
    ∃ tokens stop, read ⟨spaced ls, offset⟩ = (tokens, .finish stop) ∧ tokens.map Token.lexeme = ls := by
  induction ls generalizing offset with
  | nil => exact ⟨[], offset, read_of_last rfl, rfl⟩
  | cons l ls ih =>
    obtain ⟨hl, hls⟩ := List.forall_mem_cons.mp h
    cases ls with
    | nil =>
      refine ⟨[⟨l, offset⟩], offset + byteSize l.source, ?_, rfl⟩
      rw [spaced_singleton, ← List.append_nil l.source, read_of_whole hl breaks_nil, read_of_last rfl, List.append_nil]
      rfl
    | cons l' ls =>
      obtain ⟨tokens, stop, hr, ht⟩ := ih hls (offset + byteSize l.source + byteSize [' '])
      refine ⟨⟨l, offset⟩ :: tokens, stop, ?_, by rw [List.map_cons, ht]⟩
      rw [spaced_cons_cons, read_of_whole hl (breaks_space _), read_blanks isBlank_space, hr]

end Cursor

end ObjectExpr
