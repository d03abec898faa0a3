/-
  ObjectExpr.Proofs.Grammar.Words — expressions as sequences of words. Whether a text is an expression, and
  what it builds, is decided by the words of its tokens, not by where they stand: `expression?` is the
  expression that words spell and `after?` the one that is complete once a state has taken them.

  Tokens up to the end of a text are read as their words (`run_finish_eq_ok_iff`), and a text is read as
  the words of its tokens (`parse_eq_ok_iff_expression?`). Words spell an expression just if they derive
  from the grammar, their raw literals stand for something and no level is too deep (`parses_iff_derives`).
-/

import ObjectExpr.Proofs.Grammar.Acceptance

namespace ObjectExpr

open Grammar (Resolves Start)

namespace Parser.State

variable {s t : State} {us : List Word}

/-- The expression that is complete after these words. -/
def after? (s : State) (ws : List Word) : Option Expression :=
  (s.feed ws).toOption.bind fun t => t.finish.toOption

theorem after?_append (h : s.feed us = .ok t) (ws : List Word) : s.after? (us ++ ws) = t.after? ws := by
  simp only [after?, feed_append, h]
  rfl

theorem after?_append_of_refused {r : Refusal} (h : s.feed us = .error r) (ws : List Word) :
    s.after? (us ++ ws) = none := by
  simp only [after?, feed_append, h]
  rfl

theorem after?_eq_some_iff {ws : List Word} {e : Expression} :
    s.after? ws = some e ↔ ∃ t, s.feed ws = .ok t ∧ t.finish = .ok e := by
  rw [after?]
  cases s.feed ws with
  | error r => simp [Except.toOption]
  | ok t => cases ht : t.finish <;> simp [Except.toOption, ht]

end Parser.State

open ObjectExpr.Parser

/-- The expression that words spell. -/
def expression? (ws : List Word) : Option Expression := State.start.after? ws

/-- The trees of the expression that words spell. -/
def forest? (lookup : String → Option String) (ws : List Word) : Option Forest :=
  (expression? ws).map (·.forest lookup)

/-- The trees of tokens that come to the end of a text. -/
def forestOfTokens (lookup : String → Option String) (stop : Nat) (tokens : List Token) : Except Failure Forest :=
  (State.start.run (.finish stop) tokens).map (·.forest lookup)

/-- Words spell an expression. -/
def Parses (ws : List Word) : Prop := ∃ e, expression? ws = some e

theorem run_finish_eq_ok_iff {tokens : List Token} {stop : Nat} {e : Expression} :
    State.start.run (.finish stop) tokens = .ok e ↔ expression? (tokens.map Token.word) = some e := by
  rw [State.run_eq_ok_iff, expression?, State.after?_eq_some_iff]
  simp

theorem forestOfTokens_eq_ok_iff {lookup : String → Option String} {stop : Nat} {tokens : List Token} {forest : Forest} :
    forestOfTokens lookup stop tokens = .ok forest ↔ forest? lookup (tokens.map Token.word) = some forest := by
  have hrun (e : Expression) :
      State.start.run (.finish stop) tokens = .ok e ↔ expression? (tokens.map Token.word) = some e :=
    run_finish_eq_ok_iff
  rw [forest?, Option.map_eq_some_iff]
  simp only [← hrun, forestOfTokens]
  cases State.start.run (.finish stop) tokens <;> simp [Except.map]

theorem expression?_eq_some_iff {ws : List Word} {e : Expression} :
    expression? ws = some e ↔ ∃ d : Start, d.words = ws ∧ d.read = .ok e :=
  State.after?_eq_some_iff.trans feed_finish_iff

theorem parse_eq_ok_iff_expression? {input : String} {e : Expression} :
    Expression.parse input = .ok e ↔ ∃ tokens, Lexes input tokens ∧ expression? (tokens.map Token.word) = some e := by
  simp only [parse_eq_ok_iff, expression?_eq_some_iff]

theorem parseForest_eq_ok_iff_forest? {lookup : String → Option String} {input : String} {tokens : List Token}
    (hl : Lexes input tokens) {forest : Forest} :
    parseForest lookup input = .ok forest ↔ forest? lookup (tokens.map Token.word) = some forest := by
  rw [parseForest_eq_ok_iff_parse, forest?, Option.map_eq_some_iff]
  constructor
  · rintro ⟨e, he, hf⟩
    obtain ⟨ts, ht, he⟩ := parse_eq_ok_iff_expression?.mp he
    obtain rfl := ht.unique hl
    exact ⟨e, he, hf⟩
  · rintro ⟨e, he, hf⟩
    exact ⟨e, parse_eq_ok_iff_expression?.mpr ⟨tokens, hl, he⟩, hf⟩

theorem toOption_parseForest {lookup : String → Option String} {input : String} {tokens : List Token}
    (hl : Lexes input tokens) :
    (parseForest lookup input).toOption = forest? lookup (tokens.map Token.word) := by
  refine Option.ext fun forest => ?_
  rw [← parseForest_eq_ok_iff_forest? hl]
  cases parseForest lookup input <;> simp [Except.toOption]

/-- The grammar, the raw literals and the limit of levels decide what is an expression. -/
theorem parses_iff_derives {ws : List Word} :
    Parses ws ↔ ∃ d : Start, d.words = ws ∧ Resolves ws ∧ d.depth ≤ maxDepth := by
  constructor
  · rintro ⟨e, he⟩
    obtain ⟨d, rfl, hr⟩ := expression?_eq_some_iff.mp he
    exact ⟨d, rfl, (Grammar.accepted_start d).mp ⟨e, hr⟩⟩
  · rintro ⟨d, rfl, hd⟩
    obtain ⟨e, hr⟩ := (Grammar.accepted_start d).mpr hd
    exact ⟨e, expression?_eq_some_iff.mpr ⟨d, rfl, hr⟩⟩

/-- The words of a derivation within the limits spell what the derivation means. -/
theorem forest?_words {lookup : String → Option String} {d : Start} (hr : Resolves d.words) (hd : d.depth ≤ maxDepth) :
    forest? lookup d.words = some (d.forest lookup) := by
  obtain ⟨e, he⟩ := (Grammar.accepted_start d).mpr ⟨hr, hd⟩
  rw [forest?, expression?_eq_some_iff.mpr ⟨d, rfl, he⟩, Option.map_some, Grammar.forest_of_start d he]

/-! ## How deep a state can be -/

namespace Parser

@[simp] theorem Place.dots_fill (hole : Hole) (t : Term) : (hole.fill t).dots = 0 := by
  cases hole with
  | named owner path => cases owner <;> rfl
  | _ => rfl

theorem Opens.dots {place : Place} {hole : Hole} {outer : List Hole} (h : Opens place hole outer) :
    hole.dots = place.dots := by
  cases h <;> rfl

namespace State

theorem depth_step {s s' : State} {w : Word} (h : Step s w s') (hs : s.depth ≤ maxDepth) : s'.depth ≤ maxDepth := by
  induction h with
  | dot owner path outer hd =>
    rw [depth_eq, Place.dots]
    omega
  | segment owner path name outer =>
    simp only [depth_eq, Place.dots, Path.snoc, List.length_append, List.length_singleton] at hs ⊢
    omega
  | leaf owner path outer =>
    have hf := Place.dots_fill (.named owner path)
    simp only [depth_eq, Place.dots, Hole.fill] at hs hf ⊢
    rw [hf]
    omega
  | openObject ho hd =>
    rw [depth_eq, Place.dots, levels_cons, ho.dots]
    omega
  | openArray ho hd =>
    rw [depth_eq, Place.dots, levels_cons, ho.dots]
    omega
  | closeObject done hole outer =>
    rw [depth_eq, levels_cons] at hs
    rw [depth_eq, Place.dots_fill]
    omega
  | closeArray done hole outer =>
    rw [depth_eq, levels_cons] at hs
    rw [depth_eq, Place.dots_fill]
    omega
  | settle _ ih => exact ih hs
  | _ => exact hs

/-- No state that the parser comes to is deeper than the limit. -/
theorem depth_le_of_feed {s : State} {ws : List Word} (h : start.feed ws = .ok s) : s.depth ≤ maxDepth :=
  feed_preserves (motive := fun s => s.depth ≤ maxDepth) depth_step h (Nat.zero_le _)

end State

end Parser

end ObjectExpr
