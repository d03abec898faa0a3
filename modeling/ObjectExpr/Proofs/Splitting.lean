/-
  ObjectExpr.Proofs.Splitting — an expression in pieces. Trimming a piece keeps its tokens, as blanks
  outside of quotes are not seen (`Lexes.trim`), and one space between two pieces keeps their tokens apart.
  So pieces with no open quote come to their own tokens, one piece after another (`Lexes.joinLines`). What
  an expression builds, and which fault it has, depends on the kinds and the texts of its tokens and not
  on where they stand (`mapError_parseForest_congr`), so it does not show how the expression was split
  (`splitting_is_not_seen`).
-/

import ObjectExpr.Input
import ObjectExpr.Proofs.Concatenation
import ObjectExpr.Proofs.Lexer.Spaced
import ObjectExpr.Proofs.Text.Lines

namespace ObjectExpr

open Text (isBlank)
open ObjectExpr.Parser

/-! ## Tokens without their places -/

def Word.reading (w : Word) : Kind × String := (w.kind, w.text)

/-- The kind and the text of a token. -/
def Token.reading (t : Token) : Kind × String := (t.kind, t.text)

theorem Word.reading_injective : Function.Injective Word.reading := by
  intro v w h
  obtain ⟨hk, ht⟩ := Prod.mk.inj h
  cases v <;> cases w <;> simp_all [kind, text]

theorem map_reading (ts : List Token) : ts.map Token.reading = (ts.map Token.word).map Word.reading := by
  rw [List.map_map]
  rfl

theorem map_word_eq_of_map_reading_eq {ts us : List Token} (h : ts.map Token.reading = us.map Token.reading) :
    ts.map Token.word = us.map Token.word := by
  rw [map_reading, map_reading] at h
  exact List.map_injective_iff.mpr Word.reading_injective h

theorem map_reading_shift (k : Nat) (ts : List Token) :
    (ts.map (Token.shift k)).map Token.reading = ts.map Token.reading := by
  rw [List.map_map]
  rfl

/-! ## Pieces put together -/

theorem lexes_nil : Lexes "" [] := ⟨0, Cursor.read_of_last rfl⟩

/-- A text that is read from some offset on has the same tokens by itself. -/
theorem exists_lexes_of_read {cs : List Char} {k stop : Nat} {ts : List Token}
    (h : Cursor.read ⟨cs, k⟩ = (ts, .finish stop)) :
    ∃ us, Lexes (String.ofList cs) us ∧ us.map Token.reading = ts.map Token.reading := by
  have hcursor : Cursor.mk cs k = (Cursor.ofString (String.ofList cs)).shift k := by
    simp [Cursor.ofString, Cursor.shift]
  rw [hcursor, Cursor.read_shift] at h
  obtain ⟨rfl, he⟩ := Prod.mk.inj h
  cases hr : (Cursor.ofString (String.ofList cs)).read with
  | mk us e =>
    rw [hr] at he
    refine ⟨us, ?_, (map_reading_shift k us).symm⟩
    cases e with
    | finish p => exact ⟨p, hr⟩
    | unterminated p => cases he

/-- Trimming moves the tokens of a text and does not change them. -/
theorem Lexes.trim {input : String} {ts : List Token} (h : Lexes input ts) :
    ∃ us, Lexes (String.ofList (Text.trim input.toList)) us ∧ us.map Token.reading = ts.map Token.reading := by
  obtain ⟨stop, h⟩ := h
  obtain ⟨front, back, hfront, hback, htrim⟩ := Text.exists_trim input.toList
  have hstart := Cursor.read_blanks hfront (Text.trim input.toList ++ back) 0
  rw [← List.append_assoc, htrim] at hstart
  have hread := hstart.symm.trans h
  obtain ⟨q, hq⟩ := Cursor.read_of_append_blank (c := ⟨Text.trim input.toList, _⟩) hback hread
  exact exists_lexes_of_read hq

theorem joinLines_singleton (line : String) : joinLines [line] = String.ofList (Text.trim line.toList) := by
  rw [joinLines, List.map_singleton, List.intercalate_singleton]

theorem joinLines_cons_cons (line next : String) (lines : List String) :
    joinLines (line :: next :: lines) = String.ofList (Text.trim line.toList) ++ " " ++ joinLines (next :: lines) := by
  simp only [joinLines, List.map_cons, List.intercalate_cons_cons, String.ofList_append]

/-- Pieces that are tokens to their ends, trimmed and joined by spaces, are all of these tokens. -/
theorem Lexes.joinLines {lines : List String} {tokens : List (List Token)} (h : List.Forall₂ Lexes lines tokens) :
    ∃ joined, Lexes (joinLines lines) joined ∧ joined.map Token.reading = tokens.flatten.map Token.reading := by
  induction h with
  | nil => exact ⟨[], lexes_nil, rfl⟩
  | @cons line ts lines tokens hl hls ih =>
    obtain ⟨us, hus, hread⟩ := hl.trim
    cases hls with
    | nil =>
      refine ⟨us, ?_, ?_⟩
      · rw [joinLines_singleton]
        exact hus
      · rw [hread, List.flatten_cons, List.flatten_nil, List.append_nil]
    | @cons next vs lines tokens hn hls =>
      obtain ⟨joined, hj, hjoined⟩ := ih
      have hspace : ∀ c ∈ " ".toList, isBlank c = true := isBlank_space
      have hseam := hus.joined hj (by decide) hspace
      rw [← joinLines_cons_cons] at hseam
      refine ⟨_, hseam, ?_⟩
      rw [List.map_append, map_reading_shift, hread, hjoined, ← List.map_append]
      rfl

/-! ## Expressions without the places of their tokens -/

theorem mapError_run_congr {s : State} {ts us : List Token} (h : ts.map Token.word = us.map Token.word) (p q : Nat) :
    (s.run (.finish p) ts).mapError Failure.fault = (s.run (.finish q) us).mapError Failure.fault := by
  induction ts generalizing s us with
  | nil =>
    obtain rfl : us = [] := List.map_eq_nil_iff.mp h.symm
    rw [State.run, State.run]
    cases s.finish <;> rfl
  | cons t ts ih =>
    cases us with
    | nil => cases h
    | cons u us =>
      obtain ⟨hw, hws⟩ := List.cons.inj h
      cases hs : s.step t.word with
      | ok s' =>
        have hs' : s.step u.word = .ok s' := hw ▸ hs
        rw [State.run, State.run, hs, hs']
        exact ih hws
      | error r =>
        have hs' : s.step u.word = .error r := hw ▸ hs
        rw [State.run_of_refused hs, State.run_of_refused hs']
        rfl

/-- The trees of a text, or its fault, are those of the run over its tokens. -/
theorem mapError_parseForest_of_lexes (lookup : String → Option String) {input : String} {ts : List Token}
    (h : Lexes input ts) :
    ∃ stop, (parseForest lookup input).mapError (·.fault) =
      ((State.start.run (.finish stop) ts).mapError Failure.fault).map fun e => e.forest lookup := by
  obtain ⟨stop, h⟩ := h
  refine ⟨stop, ?_⟩
  rw [parseForest, parse_eq_run, h]
  cases State.start.run (.finish stop) ts <;> rfl

/-- Texts whose tokens differ in their places only build the same trees, or have the same fault. -/
theorem mapError_parseForest_congr (lookup : String → Option String) {input input' : String} {ts us : List Token}
    (ht : Lexes input ts) (hu : Lexes input' us) (h : ts.map Token.reading = us.map Token.reading) :
    (parseForest lookup input).mapError (·.fault) = (parseForest lookup input').mapError (·.fault) := by
  obtain ⟨p, hp⟩ := mapError_parseForest_of_lexes lookup ht
  obtain ⟨q, hq⟩ := mapError_parseForest_of_lexes lookup hu
  rw [hp, hq, mapError_run_congr (map_word_eq_of_map_reading_eq h) p q]

/-- Pieces with no open quote come to their own tokens, one piece after another. So two ways to split an
    expression into pieces that come to tokens of the same kinds and texts build the same trees, or have
    the same fault. -/
theorem splitting_is_not_seen {lines : List String} {tokens : List (List Token)} (h : List.Forall₂ Lexes lines tokens) :
    (∃ joined, Lexes (joinLines lines) joined ∧ joined.map Token.reading = tokens.flatten.map Token.reading) ∧
    ∀ (lookup : String → Option String) (lines' : List String) (tokens' : List (List Token)),
      List.Forall₂ Lexes lines' tokens' → tokens.flatten.map Token.reading = tokens'.flatten.map Token.reading →
      (parseLines lookup lines).mapError (·.fault) = (parseLines lookup lines').mapError (·.fault) := by
  refine ⟨Lexes.joinLines h, ?_⟩
  intro lookup lines' tokens' h' heq
  obtain ⟨ts, hts, hread⟩ := Lexes.joinLines h
  obtain ⟨us, hus, hread'⟩ := Lexes.joinLines h'
  have hsame : ts.map Token.reading = us.map Token.reading := hread.trans (heq.trans hread'.symm)
  exact mapError_parseForest_congr lookup hts hus hsame

/-- One expression as two lists of arguments, one of which has a blank argument and blanks at the ends of
    others. -/
theorem splitting_is_not_seen_of_two :
    let lookup : String → Option String := fun _ => none
    let lines := ["a.b =\t", "", " \"x y\" c=1"]
    let lines' := ["a", ".", "b=", "\"x y\"c=1"]
    let first : List (List Token) :=
      [[⟨.bare ['a'], 0⟩, ⟨.mark .dot, 1⟩, ⟨.bare ['b'], 2⟩, ⟨.mark .assign, 4⟩], [],
        [⟨.quoted ['x', ' ', 'y'], 1⟩, ⟨.bare ['c'], 7⟩, ⟨.mark .assign, 8⟩, ⟨.bare ['1'], 9⟩]]
    List.Forall₂ Lexes lines first ∧ joinLines lines = "a.b =  \"x y\" c=1" ∧
      (parseLines lookup lines).mapError (·.fault) = (parseLines lookup lines').mapError (·.fault) := by
  intro lookup lines lines' first
  let second : List (List Token) :=
    [[⟨.bare ['a'], 0⟩], [⟨.mark .dot, 0⟩], [⟨.bare ['b'], 0⟩, ⟨.mark .assign, 1⟩],
      [⟨.quoted ['x', ' ', 'y'], 0⟩, ⟨.bare ['c'], 5⟩, ⟨.mark .assign, 6⟩, ⟨.bare ['1'], 7⟩]]
  have h : List.Forall₂ Lexes lines first :=
    .cons ⟨6, by with_unfolding_all rfl⟩ (.cons ⟨0, by with_unfolding_all rfl⟩ (.cons ⟨10, by with_unfolding_all rfl⟩ .nil))
  have h' : List.Forall₂ Lexes lines' second :=
    .cons ⟨1, by with_unfolding_all rfl⟩ (.cons ⟨1, by with_unfolding_all rfl⟩ (.cons ⟨2, by with_unfolding_all rfl⟩
      (.cons ⟨8, by with_unfolding_all rfl⟩ .nil)))
  exact ⟨h, by decide +kernel, (splitting_is_not_seen h).2 lookup lines' second h' rfl⟩

end ObjectExpr
