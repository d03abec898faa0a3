/-
  ObjectExpr.Proofs.Lexer.Seam — tokens across a seam. No lexeme that is complete goes on over a blank,
  so behind a text with no open quote a blank starts afresh: the tokens of the two texts follow one
  another (`read_append`). Blanks in front of a token are not seen (`read_blanks`), and where a text
  starts shows in the positions only (`read_shift`).
-/

import Mathlib.Data.List.TakeWhile
import ObjectExpr.Lexer

namespace ObjectExpr

open Text (isBlank byteSize)

/-- Nothing goes on into the text: it is empty or starts with a blank. -/
def Breaks (rest : List Char) : Prop := ∀ c ∈ rest.head?, isBlank c = true

variable {rest : List Char}

theorem Breaks.of_blank (h : ∀ c ∈ rest, isBlank c = true) : Breaks rest := fun c hc => h c (List.mem_of_mem_head? hc)

theorem Breaks.inWord (h : Breaks rest) : ∀ c ∈ rest.head?, Lexeme.inWord c = false := by
  intro c hc
  simp [Lexeme.inWord, h c hc]

theorem Breaks.inRaw (h : Breaks rest) : ∀ c ∈ rest.head?, Lexeme.inRaw c = false := by
  intro c hc
  have hdot : c ≠ '.' := by
    rintro rfl
    exact absurd (h _ hc) (by decide)
  simp [Lexeme.inRaw, h.inWord c hc, hdot]

/-! ## Up to a character that fails -/

theorem takeWhile_eq_nil_of_head {p : Char → Bool} (h : ∀ c ∈ rest.head?, p c = false) : rest.takeWhile p = [] := by
  cases rest with
  | nil => rfl
  | cons c rest => rw [List.takeWhile_cons_of_neg (by simp [h c rfl])]

theorem takeWhile_append_of_head {p : Char → Bool} (h : ∀ c ∈ rest.head?, p c = false) (cs : List Char) :
    (cs ++ rest).takeWhile p = cs.takeWhile p := by
  induction cs with
  | nil => exact takeWhile_eq_nil_of_head h
  | cons c cs ih =>
    rw [List.cons_append, List.takeWhile_cons, List.takeWhile_cons, ih]

theorem dropWhile_append_of_head {p : Char → Bool} (h : ∀ c ∈ rest.head?, p c = false) (cs : List Char) :
    (cs ++ rest).dropWhile p = cs.dropWhile p ++ rest := by
  have hs : (cs ++ rest).takeWhile p ++ (cs ++ rest).dropWhile p = cs.takeWhile p ++ (cs.dropWhile p ++ rest) := by
    rw [List.takeWhile_append_dropWhile, ← List.append_assoc, List.takeWhile_append_dropWhile]
  rw [takeWhile_append_of_head h] at hs
  exact List.append_cancel_left hs

section

variable {p : Char → Bool} {c : Char} {cs tail : List Char}

theorem dropWhile_append_of_eq_cons (h : cs.dropWhile p = c :: tail) (rest : List Char) :
    (cs ++ rest).dropWhile p = c :: (tail ++ rest) := by
  rw [List.dropWhile_append, h]
  rfl

theorem takeWhile_append_of_eq_cons (h : cs.dropWhile p = c :: tail) (rest : List Char) :
    (cs ++ rest).takeWhile p = cs.takeWhile p := by
  have hlen := congrArg List.length (List.takeWhile_append_dropWhile (p := p) (l := cs))
  rw [h, List.length_append, List.length_cons] at hlen
  rw [List.takeWhile_append, if_neg (by omega)]

end

/-! ## Lexemes -/

namespace Lexeme

theorem scanQuoted_append {cs r : List Char} {l : Lexeme} (h : scanQuoted cs = some (l, r)) (rest : List Char) :
    scanQuoted (cs ++ rest) = some (l, r ++ rest) := by
  unfold scanQuoted at h ⊢
  split at h
  · cases h
  · next q tail hd =>
    obtain ⟨rfl, rfl⟩ := Prod.mk.inj (Option.some.inj h)
    rw [dropWhile_append_of_eq_cons hd, takeWhile_append_of_eq_cons hd]

/-- A lexeme in front stays what it is if what comes behind the text does not go on with it. -/
theorem scan_append {c : Char} {cs r : List Char} {l : Lexeme} (h : scan c cs = some (l, r)) (hb : Breaks rest) :
    scan c (cs ++ rest) = some (l, r ++ rest) := by
  unfold scan at h ⊢
  cases hm : Mark.ofChar? c with
  | some m =>
    rw [hm] at h
    obtain ⟨rfl, rfl⟩ := Prod.mk.inj (Option.some.inj h)
    rfl
  | none =>
    rw [hm] at h
    simp only [takeWhile_append_of_head hb.inWord, dropWhile_append_of_head hb.inWord,
      takeWhile_append_of_head hb.inRaw, dropWhile_append_of_head hb.inRaw]
    by_cases hq : c = '"'
    · rw [if_pos hq]
      exact scanQuoted_append (by simpa [hq] using h) rest
    · simp only [if_neg hq] at h ⊢
      split at h
      · next hc => cases h; rw [if_pos hc]
      · next hc =>
        rw [if_neg hc]
        split at h
        · next hc => cases h; rw [if_pos hc]
        · next hc => cases h; rw [if_neg hc]

end Lexeme

namespace Cursor

theorem read_congr {c c' : Cursor} (h : c.pull = c'.pull) : c.read = c'.read := by
  cases hp : c'.pull with
  | mk pull next =>
    cases pull with
    | token t => rw [read_of_token (h.trans hp), read_of_token hp]
    | last e => rw [read_of_last (h.trans hp), read_of_last hp]

/-- Induction over the tokens that a cursor gives. -/
theorem pull_induction {motive : Cursor → Prop}
    (token : ∀ c t next, c.pull = (.token t, next) → motive next → motive c)
    (last : ∀ c e next, c.pull = (.last e, next) → motive c) (c : Cursor) : motive c :=
  match h : c.pull with
  | (.token t, next) => token c t next h (pull_induction token last next)
  | (.last e, next) => last c e next h
termination_by c.rest.length
decreasing_by exact length_pull_lt h

/-! ## Blanks in front -/

theorem skipBlanks_blanks {blanks : List Char} (h : ∀ c ∈ blanks, isBlank c = true) (cs : List Char) (offset : Nat) :
    skipBlanks ⟨blanks ++ cs, offset⟩ = skipBlanks ⟨cs, offset + byteSize blanks⟩ := by
  simp only [skipBlanks, List.dropWhile_append_of_pos h, List.takeWhile_append_of_pos h, Text.byteSize_append,
    Nat.add_assoc]

/-- Blanks in front of a text are not seen. -/
theorem read_blanks {blanks : List Char} (h : ∀ c ∈ blanks, isBlank c = true) (cs : List Char) (offset : Nat) :
    read ⟨blanks ++ cs, offset⟩ = read ⟨cs, offset + byteSize blanks⟩ :=
  read_congr (congrArg take (skipBlanks_blanks h cs offset))

/-! ## The seam -/

def append (c : Cursor) (rest : List Char) : Cursor := ⟨c.rest ++ rest, c.offset⟩

/-- The offset at which the text of a cursor ends. -/
def stop (c : Cursor) : Nat := c.offset + byteSize c.rest

theorem stop_skipBlanks (c : Cursor) : c.skipBlanks.stop = c.stop := by
  have hs := congrArg byteSize (List.takeWhile_append_dropWhile (p := isBlank) (l := c.rest))
  rw [Text.byteSize_append] at hs
  simp only [stop, skipBlanks]
  omega

theorem take_eq_token_iff {c next : Cursor} {t : Token} :
    c.take = (.token t, next) ↔
      ∃ d ds rest, c.rest = d :: ds ∧ Lexeme.scan d ds = some (t.lexeme, rest) ∧ t.position = c.offset ∧
        next = ⟨rest, c.offset + byteSize t.lexeme.source⟩ := by
  unfold take
  constructor
  · intro h
    split at h
    · cases h
    · next d ds hr =>
      split at h
      · next l rest hs => cases h; exact ⟨d, ds, rest, hr, hs, rfl, rfl⟩
      · cases h
  · rintro ⟨d, ds, rest, hr, hs, hp, rfl⟩
    obtain ⟨l, p⟩ := t
    obtain rfl : p = c.offset := hp
    simp [hr, hs]

theorem stop_of_pull {c next : Cursor} {t : Token} (h : c.pull = (.token t, next)) : next.stop = c.stop := by
  obtain ⟨d, ds, rest, hr, hs, -, rfl⟩ := take_eq_token_iff.mp h
  have hsource := congrArg byteSize (Lexeme.source_append_of_scan hs)
  rw [Text.byteSize_append] at hsource
  rw [← stop_skipBlanks c, stop, stop, hr, ← hsource, Nat.add_assoc]

theorem pull_append {c next : Cursor} {t : Token} (h : c.pull = (.token t, next)) (hb : Breaks rest) :
    (c.append rest).pull = (.token t, next.append rest) := by
  obtain ⟨d, ds, tail, hr, hs, hp, rfl⟩ := take_eq_token_iff.mp h
  have hd : c.rest.dropWhile isBlank = d :: ds := hr
  have hskip : (c.append rest).skipBlanks = c.skipBlanks.append rest := by
    simp only [skipBlanks, append, dropWhile_append_of_eq_cons hd, takeWhile_append_of_eq_cons hd, hd,
      List.cons_append]
  refine take_eq_token_iff.mpr ⟨d, ds ++ rest, tail ++ rest, ?_, Lexeme.scan_append hs hb, ?_, ?_⟩
  · rw [hskip, append, hr]; rfl
  · rw [hskip]; exact hp
  · rw [hskip]; rfl

theorem blank_of_pull_finish {c next : Cursor} {p : Nat} (h : c.pull = (.last (.finish p), next)) :
    ∀ d ∈ c.rest, isBlank d = true := by
  have hr : c.rest.dropWhile isBlank = [] := by
    unfold pull take at h
    split at h
    · next hr => exact hr
    · split at h <;> cases h
  exact List.dropWhile_eq_nil_iff.mp hr

theorem exists_of_pull_unterminated {c next : Cursor} {p : Nat} (h : c.pull = (.last (.unterminated p), next)) :
    ∃ cs, c.skipBlanks.rest = '"' :: cs ∧ '"' ∉ cs ∧ p = c.skipBlanks.offset := by
  unfold pull take at h
  split at h
  · cases h
  · next d ds hr =>
    split at h
    · cases h
    · next hs =>
      obtain ⟨rfl, hq⟩ := Lexeme.scan_eq_none_iff.mp hs
      cases h
      exact ⟨ds, hr, hq, rfl⟩

/-- Behind a text that is tokens to its end, what starts with a blank is read afresh. -/
theorem read_append {c : Cursor} {ts : List Token} {p : Nat} (h : c.read = (ts, .finish p)) (hb : Breaks rest) :
    (c.append rest).read = (ts ++ (read ⟨rest, c.stop⟩).1, (read ⟨rest, c.stop⟩).2) := by
  induction c using pull_induction generalizing ts with
  | token c t next hp ih =>
    rw [read_of_token hp] at h
    obtain ⟨rfl, he⟩ := Prod.mk.inj h
    rw [read_of_token (pull_append hp hb), ih (Prod.ext rfl he), stop_of_pull hp]
    rfl
  | last c e next hp =>
    rw [read_of_last hp] at h
    obtain ⟨rfl, rfl⟩ := Prod.mk.inj h
    -- what is left in front of the seam is blank
    exact read_blanks (blank_of_pull_finish hp) rest c.offset

/-- A quote that is never closed stays open if no other quote comes. -/
theorem read_append_unterminated {c : Cursor} {ts : List Token} {p : Nat} (h : c.read = (ts, .unterminated p))
    (hb : Breaks rest) (hq : '"' ∉ rest) : (c.append rest).read = (ts, .unterminated p) := by
  induction c using pull_induction generalizing ts with
  | token c t next hp ih =>
    rw [read_of_token hp] at h
    obtain ⟨rfl, he⟩ := Prod.mk.inj h
    rw [read_of_token (pull_append hp hb), ih (Prod.ext rfl he)]
  | last c e next hp =>
    rw [read_of_last hp] at h
    obtain ⟨rfl, rfl⟩ := Prod.mk.inj h
    obtain ⟨cs, hr, hcs, rfl⟩ := exists_of_pull_unterminated hp
    have hd : c.rest.dropWhile isBlank = '"' :: cs := hr
    have hskip : (c.append rest).skipBlanks = ⟨'"' :: (cs ++ rest), c.skipBlanks.offset⟩ := by
      simp only [skipBlanks, append, dropWhile_append_of_eq_cons hd, takeWhile_append_of_eq_cons hd]
    have hnone : Lexeme.scan '"' (cs ++ rest) = none := by
      refine Lexeme.scan_eq_none_iff.mpr ⟨rfl, ?_⟩
      rw [List.mem_append, not_or]
      exact ⟨hcs, hq⟩
    have hpull : (c.append rest).pull.1 = .last (.unterminated c.skipBlanks.offset) := by
      rw [pull, hskip]
      simp only [take, hnone]
    exact read_of_last (Prod.ext hpull rfl)

theorem read_of_blank (h : ∀ c ∈ rest, isBlank c = true) (k : Nat) : read ⟨rest, k⟩ = ([], .finish (k + byteSize rest)) := by
  have hr := read_blanks h [] k
  rw [List.append_nil] at hr
  rw [hr]
  exact read_of_last rfl

/-- Blanks behind a text are not seen, either. -/
theorem read_of_append_blank {c : Cursor} {ts : List Token} {p : Nat} (hr : ∀ d ∈ rest, isBlank d = true)
    (h : (c.append rest).read = (ts, .finish p)) : ∃ q, c.read = (ts, .finish q) := by
  have hb : Breaks rest := .of_blank hr
  cases hc : c.read with
  | mk us e =>
    cases e with
    | finish q =>
      rw [read_append hc hb, read_of_blank hr, List.append_nil] at h
      cases h
      exact ⟨q, rfl⟩
    | unterminated q =>
      have hq : '"' ∉ rest := by
        intro hm
        cases hr _ hm
      rw [read_append_unterminated hc hb hq] at h
      cases h

end Cursor

/-! ## Where a text starts -/

def Token.shift (k : Nat) (t : Token) : Token := ⟨t.lexeme, k + t.position⟩

def Ending.shift (k : Nat) : Ending → Ending
  | finish p => finish (k + p)
  | unterminated p => unterminated (k + p)

def Pull.shift (k : Nat) : Pull → Pull
  | token t => token (t.shift k)
  | last e => last (e.shift k)

namespace Cursor

def shift (k : Nat) (c : Cursor) : Cursor := ⟨c.rest, k + c.offset⟩

theorem pull_shift (k : Nat) (c : Cursor) : (c.shift k).pull = (c.pull.1.shift k, c.pull.2.shift k) := by
  have hskip : (c.shift k).skipBlanks = c.skipBlanks.shift k := by simp [skipBlanks, shift, Nat.add_assoc]
  rw [pull, hskip, pull]
  obtain ⟨cs, offset⟩ := c.skipBlanks
  cases cs with
  | nil => rfl
  | cons d ds =>
    cases hs : Lexeme.scan d ds <;>
      simp [take, shift, hs, Pull.shift, Token.shift, Ending.shift, atEnd, Nat.add_assoc]

/-- Where a text starts shows in the positions of its tokens and of its end, and nowhere else. -/
theorem read_shift (k : Nat) (c : Cursor) : (c.shift k).read = (c.read.1.map (Token.shift k), c.read.2.shift k) := by
  induction c using pull_induction with
  | token c t next hp ih =>
    have hs := pull_shift k c
    rw [hp] at hs
    rw [read_of_token hs, read_of_token hp, ih]
    rfl
  | last c e next hp =>
    have hs := pull_shift k c
    rw [hp] at hs
    rw [read_of_last hs, read_of_last hp]
    rfl

end Cursor

end ObjectExpr
