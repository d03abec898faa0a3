/-
  ObjectExpr.Proofs.Grammar.Acceptance — the texts that are expressions, and the trees they stand for.

  A text is accepted just if it comes to its end outside of quotes, its words derive from `start`, every
  raw literal among them stands for something and no point of the derivation lies in more levels than
  the limit; there is only one such derivation, and the trees are its meaning
  (`parseForest_eq_ok_iff_derives`). The failures of a run are those of its words, each at its own token
  (`State.run_append`, `State.run_of_refused`).
-/

import ObjectExpr.Proofs.Grammar.Spelling

namespace ObjectExpr

open Grammar (Resolves Start)

/-- All of a text is tokens: no quote is left open. -/
def Lexes (input : String) (tokens : List Token) : Prop :=
  ∃ stop, (Cursor.ofString input).read = (tokens, .finish stop)

theorem Lexes.unique {input : String} {ts us : List Token} (ht : Lexes input ts) (hu : Lexes input us) : ts = us := by
  obtain ⟨_, ht⟩ := ht
  obtain ⟨_, hu⟩ := hu
  exact congrArg Prod.fst (ht.symm.trans hu)

namespace Parser.State

variable {s s' : State} {e : Ending} {ts us : List Token}

theorem run_append (h : s.feed (ts.map Token.word) = .ok s') : s.run e (ts ++ us) = s'.run e us := by
  induction ts generalizing s with
  | nil => cases h; rfl
  | cons t ts ih =>
    obtain ⟨r, hr, h⟩ := bind_eq_ok_iff.mp h
    rw [List.cons_append, run, hr]
    exact ih h

/-- A token that is refused is reported at its place, unless the text breaks off right behind it. -/
theorem run_of_refused {t : Token} {r : Refusal} {stop : Nat} (h : s.step t.word = .error r) :
    s.run (.finish stop) (t :: us) = .error ⟨t.position, r.fault⟩ := by
  rw [run, h]
  cases us <;> rfl

theorem run_eq_ok_iff {x : Expression} :
    s.run e ts = .ok x ↔ ∃ s' stop, s.feed (ts.map Token.word) = .ok s' ∧ e = .finish stop ∧ s'.finish = .ok x := by
  induction ts generalizing s with
  | nil =>
    cases e with
    | unterminated p => simp [run]
    | finish p => cases hf : s.finish <;> simp [run, hf, Except.mapError]
  | cons t ts ih =>
    rw [List.map_cons, feed_cons]
    cases hs : s.step t.word with
    | ok r =>
      rw [run, hs]
      exact ih
    | error r =>
      rw [run, hs]
      simp [bind, Except.bind]

end Parser.State

open ObjectExpr.Parser

theorem parse_eq_run (input : String) :
    Expression.parse input =
      (State.start.run (Cursor.ofString input).read.2 (Cursor.ofString input).read.1).mapError fun f => ⟨f, input⟩ := rfl

/-- The parser ends in an expression just if it can be read off a derivation of the words. -/
theorem feed_finish_iff {ws : List Word} {e : Expression} :
    (∃ s, State.start.feed ws = .ok s ∧ s.finish = .ok e) ↔ ∃ d : Start, d.words = ws ∧ d.read = .ok e := by
  constructor
  · rintro ⟨s, hs, hf⟩
    obtain ⟨d, hd⟩ := State.exists_start_of_finish (State.sound_feed hs State.sound_start) hf
    rw [State.words_feed hs] at hd
    refine ⟨d, hd, ?_⟩
    -- the words of `d` are what was read, so the descent into `d` ends as the run did
    have hd' : State.start.feed d.words = .ok s := by rw [hd]; exact hs
    rw [Grammar.feed_start] at hd'
    obtain ⟨x, hx, rfl⟩ := map_eq_ok_iff.mp hd'
    rw [Expression.finish_state] at hf
    rwa [← Except.ok.inj hf]
  · rintro ⟨d, rfl, hr⟩
    refine ⟨e.state, ?_, Expression.finish_state e⟩
    rw [Grammar.feed_start, hr]
    rfl

/-- What a text is read as is read off a derivation of its words. -/
theorem parse_eq_ok_iff {input : String} {e : Expression} :
    Expression.parse input = .ok e ↔
      ∃ tokens, Lexes input tokens ∧ ∃ d : Start, d.words = tokens.map Token.word ∧ d.read = .ok e := by
  have hp : Expression.parse input = .ok e ↔
      State.start.run (Cursor.ofString input).read.2 (Cursor.ofString input).read.1 = .ok e := by
    rw [parse_eq_run]
    cases State.start.run (Cursor.ofString input).read.2 (Cursor.ofString input).read.1 <;> simp [Except.mapError]
  rw [hp, State.run_eq_ok_iff]
  constructor
  · rintro ⟨s, stop, hs, he, hf⟩
    exact ⟨_, ⟨stop, Prod.ext rfl he⟩, feed_finish_iff.mp ⟨s, hs, hf⟩⟩
  · rintro ⟨tokens, ⟨stop, hl⟩, hd⟩
    obtain ⟨s, hs, hf⟩ := feed_finish_iff.mpr hd
    exact ⟨s, stop, by rw [hl]; exact hs, by rw [hl], hf⟩

/-- A derivation that is read is the only one of its words. -/
theorem Grammar.eq_of_words {d d' : Start} {e : Expression} (h : d.read = .ok e) (hw : d'.words = d.words) : d' = d := by
  have := (feed_start d').symm.trans ((congrArg State.start.feed hw).trans (feed_start d))
  rw [h] at this
  obtain ⟨x, hx, hs⟩ := map_eq_ok_iff.mp this
  have hf : x.state.finish = e.state.finish := congrArg State.finish hs
  rw [Expression.finish_state, Expression.finish_state] at hf
  obtain rfl := Except.ok.inj hf
  exact read_inj hx h

/-- An expression is accepted just if its words derive from the grammar, its raw literals stand for
    something and it is nowhere deeper than the limit; and then its trees are what the derivation means. -/
theorem parseForest_eq_ok_iff_derives (lookup : String → Option String) (input : String) (forest : Forest) :
    parseForest lookup input = .ok forest ↔
      ∃ tokens, Lexes input tokens ∧ Resolves (tokens.map Token.word) ∧
        ∃ d : Start, d.words = tokens.map Token.word ∧ (∀ d' : Start, d'.words = tokens.map Token.word → d' = d) ∧
          d.depth ≤ maxDepth ∧ d.forest lookup = forest := by
  rw [parseForest_eq_ok_iff_parse]
  constructor
  · rintro ⟨e, he, rfl⟩
    obtain ⟨tokens, hl, d, hw, hr⟩ := parse_eq_ok_iff.mp he
    obtain ⟨hres, hdep⟩ := (Grammar.accepted_start d).mp ⟨e, hr⟩
    refine ⟨tokens, hl, hw ▸ hres, d, hw, fun d' hw' => ?_, hdep, (Grammar.forest_of_start d hr).symm⟩
    exact Grammar.eq_of_words hr (hw'.trans hw.symm)
  · rintro ⟨tokens, hl, hres, d, hw, -, hdep, rfl⟩
    obtain ⟨e, hr⟩ := (Grammar.accepted_start d).mpr ⟨hw ▸ hres, hdep⟩
    exact ⟨e, parse_eq_ok_iff.mpr ⟨tokens, hl, d, hw, hr⟩, Grammar.forest_of_start d hr⟩

end ObjectExpr
