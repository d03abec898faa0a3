/-
  ObjectExpr.Proofs.Grammar.Faults — a fault is reported at the first token that cannot be right. Every
  state that the parser comes to can still be completed, by a value where one is missing and the brackets
  that close what is open (`exists_completion`), so tokens that were taken go on to an expression, and a
  token that is refused does not (`continues_iff_feed`).

  A quote that is never closed is reported in place of a fault in the token before it, except for the two
  faults that show before that token is taken, and it is reported whenever there is no other fault
  (`error_at_earliest_token`).
-/

import ObjectExpr.Proofs.Grammar.Blame
import ObjectExpr.Proofs.Grammar.Words
import ObjectExpr.Proofs.Lexer.Seam

namespace ObjectExpr

open Text (byteSize)
open ObjectExpr.Parser

/-- The words are the beginning of an expression. -/
def Continues (ws : List Word) : Prop := ∃ more, Parses (ws ++ more)

namespace Parser

/-! ## What can be completed -/

/-- Where no bracket is open, no array is. -/
def Enclosed : Mark → List Hole → Prop
  | m, [] => m ≠ .arrayOpen
  | _, hole :: outer => Enclosed hole.bracket outer

def State.Closable (s : State) : Prop := Enclosed s.place.bracket s.outer

theorem Opens.bracket {place : Place} {hole : Hole} {outer : List Hole} (h : Opens place hole outer) :
    hole.bracket = place.bracket := by
  cases h <;> rfl

/-- A place between the parts of a construct. -/
inductive Place.Between : Place → Prop
  | roots (done : List Term) : Between (.roots done)
  | fields (done : List Field) : Between (.fields done)
  | elements (done : List Element) : Between (.elements done)

theorem Place.between_add (owner : Owner) (path : Path) (t : Term) : (owner.add path t).Between := by
  cases owner with
  | fields done => exact .fields _
  | elements done => exact .elements _

theorem Place.between_fill (hole : Hole) (t : Term) : (hole.fill t).Between := by
  cases hole with
  | root done => exact .roots _
  | item done => exact .elements _
  | named owner path => exact between_add owner path t

namespace State

theorem closable_step {s s' : State} {w : Word} (h : Step s w s') (hs : s.Closable) : s'.Closable := by
  induction h with
  | leaf owner path outer =>
    show Enclosed (owner.add path _).bracket outer
    rw [Owner.bracket_add]
    exact hs
  | openObject ho =>
    show Enclosed (Hole.bracket _) _
    rw [ho.bracket]
    exact hs
  | openArray ho =>
    show Enclosed (Hole.bracket _) _
    rw [ho.bracket]
    exact hs
  | closeObject done hole outer =>
    show Enclosed (hole.fill _).bracket outer
    rw [Hole.bracket_fill]
    exact hs
  | closeArray done hole outer =>
    show Enclosed (hole.fill _).bracket outer
    rw [Hole.bracket_fill]
    exact hs
  | settle _ ih => exact ih hs
  | _ => exact hs

theorem closable_feed {s s' : State} {ws : List Word} (h : s.feed ws = .ok s') (hs : s.Closable) : s'.Closable :=
  feed_preserves closable_step h hs

theorem closable_start : start.Closable := Mark.noConfusion

/-- A field under way can be given a value, and the names before it if one is missing. -/
theorem exists_between (place : Place) (outer : List Hole) :
    ∃ ws place', feed ⟨place, outer⟩ ws = .ok ⟨place', outer⟩ ∧ place'.Between ∧ place'.bracket = place.bracket := by
  cases place with
  | roots done => exact ⟨[], _, rfl, .roots done, rfl⟩
  | fields done => exact ⟨[], _, rfl, .fields done, rfl⟩
  | elements done => exact ⟨[], _, rfl, .elements done, rfl⟩
  | name owner path =>
    exact ⟨[.mark .assign, .literal ""], _, rfl, Place.between_add owner path (.text ""), Owner.bracket_add ..⟩
  | dot owner path =>
    exact ⟨[.literal "", .mark .assign, .literal ""], _, rfl, Place.between_add owner (path.snoc "") (.text ""),
      Owner.bracket_add ..⟩
  | value owner path => exact ⟨[.literal ""], _, rfl, Place.between_add owner path (.text ""), Owner.bracket_add ..⟩

/-- Between the parts of a construct, closing what is open completes an expression. -/
theorem exists_closing {place : Place} {outer : List Hole} (hb : place.Between) (hs : Closable ⟨place, outer⟩) :
    ∃ ws e, after? ⟨place, outer⟩ ws = some e := by
  induction outer generalizing place with
  | nil =>
    cases hb with
    | roots done => exact ⟨[], _, rfl⟩
    | fields done => exact ⟨[], _, rfl⟩
    | elements done => exact absurd rfl hs
  | cons hole outer ih =>
    have hfill (t : Term) : ∃ ws e, after? ⟨hole.fill t, outer⟩ ws = some e := by
      refine ih (Place.between_fill hole t) ?_
      show Enclosed (hole.fill t).bracket outer
      rw [Hole.bracket_fill]
      exact hs
    cases hb with
    | roots done => exact ⟨[], _, rfl⟩
    | fields done =>
      obtain ⟨ws, e, he⟩ := hfill (.object done.reverse)
      exact ⟨.mark .objectClose :: ws, e, he⟩
    | elements done =>
      obtain ⟨ws, e, he⟩ := hfill (.array done.reverse)
      exact ⟨.mark .arrayClose :: ws, e, he⟩

theorem exists_completion {s : State} (hs : s.Closable) : ∃ ws e, s.after? ws = some e := by
  obtain ⟨place, outer⟩ := s
  obtain ⟨us, place', hu, hb, hbr⟩ := exists_between place outer
  have hs' : Closable ⟨place', outer⟩ := by
    show Enclosed place'.bracket outer
    rw [hbr]
    exact hs
  obtain ⟨ws, e, he⟩ := exists_closing hb hs'
  exact ⟨us ++ ws, e, by rw [after?_append hu, he]⟩

end State

end Parser

/-- Words are the beginning of an expression just if the parser takes them. -/
theorem continues_iff_feed {ws : List Word} : Continues ws ↔ ∃ s, State.start.feed ws = .ok s := by
  constructor
  · rintro ⟨more, e, he⟩
    obtain ⟨t, ht, -⟩ := State.after?_eq_some_iff.mp he
    rw [State.feed_append] at ht
    obtain ⟨s, hs, -⟩ := bind_eq_ok_iff.mp ht
    exact ⟨s, hs⟩
  · rintro ⟨s, hs⟩
    obtain ⟨more, e, he⟩ := State.exists_completion (State.closable_feed hs State.closable_start)
    exact ⟨more, e, (State.after?_append hs more).trans he⟩

theorem Continues.of_prefix {us ws : List Word} (h : Continues ws) (hu : us <+: ws) : Continues us := by
  obtain ⟨vs, rfl⟩ := hu
  obtain ⟨more, hm⟩ := h
  exact ⟨vs ++ more, by rwa [← List.append_assoc]⟩

/-! ## Which faults the parser finds -/

namespace Parser

/-- What is refused is refused for a fault of the grammar, not of the lexemes. -/
def FindsNoQuote {α : Type} (x : Except Refusal α) : Prop := ∀ r, x = .error r → ∀ p, r.fault ≠ .unterminated p

namespace State

theorem findsNoQuote_step (s : State) (w : Word) : FindsNoQuote (s.step w) := by
  intro r hr p hp
  have hb := blames_step hr
  rw [hp] at hb
  cases hb

theorem finish_ne_unterminated {s : State} {fault : Fault} (h : s.finish = .error fault) (p : Nat) :
    fault ≠ .unterminated p := by
  unfold finish at h
  split at h <;> cases h <;> exact fun h => nomatch h

/-! ## How a run fails -/

/-- A run fails at the end of all its tokens, or at the first token that is refused. -/
inductive Fails (s : State) : Ending → List Token → Failure → Prop
  | unterminated {t : State} (ts : List Token) (p : Nat) : s.feed (ts.map Token.word) = .ok t →
      Fails s (.unterminated p) ts ⟨p, .unterminated p⟩
  | unfinished {t : State} (ts : List Token) {fault : Fault} (p : Nat) : s.feed (ts.map Token.word) = .ok t →
      t.finish = .error fault → Fails s (.finish p) ts ⟨p, fault⟩
  | refused {t : State} (us : List Token) {u : Token} {r : Refusal} (e : Ending) (vs : List Token) :
      s.feed (us.map Token.word) = .ok t → t.step u.word = .error r → Fails s e (us ++ u :: vs) (failure u r vs e)

theorem fails_of_run {s : State} {e : Ending} {ts : List Token} {f : Failure} (h : s.run e ts = .error f) :
    Fails s e ts f := by
  induction ts generalizing s with
  | nil =>
    cases e with
    | unterminated p => cases h; exact .unterminated [] p rfl
    | finish p =>
      cases hf : s.finish with
      | ok x => simp [run, hf, Except.mapError] at h
      | error fault =>
        simp only [run, hf, Except.mapError, Except.error.injEq] at h
        subst h
        exact .unfinished [] p rfl hf
  | cons t ts ih =>
    rw [run] at h
    cases hs : s.step t.word with
    | error r =>
      rw [hs] at h
      cases h
      exact .refused [] e ts rfl hs
    | ok s' =>
      rw [hs] at h
      have hcons {us : List Token} {s'' : State} (hu : s'.feed (us.map Token.word) = .ok s'') :
          s.feed ((t :: us).map Token.word) = .ok s'' := by
        rw [List.map_cons, feed_cons, hs]
        exact hu
      cases ih h with
      | unterminated ts p hu => exact .unterminated (t :: ts) p (hcons hu)
      | unfinished ts p hu hf => exact .unfinished (t :: ts) p (hcons hu) hf
      | refused us e vs hu hr => exact .refused (t :: us) e vs (hcons hu) hr

/-- A refused token is at fault, or a quote right behind it that is never closed. -/
theorem failure_cases (u : Token) (r : Refusal) (vs : List Token) (e : Ending) :
    failure u r vs e = ⟨u.position, r.fault⟩ ∨
      ∃ p, vs = [] ∧ e = .unterminated p ∧ failure u r vs e = ⟨p, .unterminated p⟩ := by
  unfold failure
  split
  · next p =>
    split
    · exact .inl rfl
    · exact .inr ⟨p, rfl, rfl, rfl⟩
  · exact .inl rfl

end State

end Parser

/-! ## Quotes -/

namespace Cursor

theorem exists_consumed {c next : Cursor} {t : Token} (h : c.pull = (.token t, next)) :
    ∃ cs, c.rest = cs ++ next.rest ∧ next.offset = c.offset + byteSize cs := by
  obtain ⟨d, ds, rest, hr, hs, -, rfl⟩ := take_eq_token_iff.mp h
  have hd : c.rest.dropWhile Text.isBlank = d :: ds := hr
  refine ⟨c.rest.takeWhile Text.isBlank ++ t.lexeme.source, ?_, ?_⟩
  · rw [List.append_assoc, Lexeme.source_append_of_scan hs, ← hd, List.takeWhile_append_dropWhile]
  · rw [Text.byteSize_append, ← Nat.add_assoc]
    rfl

end Cursor

/-- A quote stands at the offset, and none behind it. -/
def LastQuote (cs : List Char) (offset : Nat) : Prop :=
  ∃ before after, cs = before ++ '"' :: after ∧ '"' ∉ after ∧ byteSize before = offset

theorem lastQuote_of_read {input : String} {ts : List Token} {p : Nat}
    (h : (Cursor.ofString input).read = (ts, .unterminated p)) : LastQuote input.toList p := by
  suffices ∀ c : Cursor, c.read.2 = .unterminated p → ∃ k, p = c.offset + k ∧ LastQuote c.rest k by
    obtain ⟨k, rfl, hk⟩ := this _ (congrArg Prod.snd h)
    rwa [show (Cursor.ofString input).offset + k = k from Nat.zero_add k]
  intro c hc
  induction c using Cursor.pull_induction with
  | token c t next hp ih =>
    rw [Cursor.read_of_token hp] at hc
    obtain ⟨k, rfl, before, after, hr, hq, rfl⟩ := ih hc
    obtain ⟨cs, hcs, ho⟩ := Cursor.exists_consumed hp
    refine ⟨byteSize (cs ++ before), ?_, cs ++ before, after, ?_, hq, rfl⟩
    · rw [ho, Text.byteSize_append, Nat.add_assoc]
    · rw [hcs, hr, List.append_assoc]
  | last c e next hp =>
    rw [Cursor.read_of_last hp] at hc
    obtain rfl : e = .unterminated p := hc
    obtain ⟨cs, hr, hq, rfl⟩ := Cursor.exists_of_pull_unterminated hp
    have hd : c.rest.dropWhile Text.isBlank = '"' :: cs := hr
    refine ⟨_, rfl, c.rest.takeWhile Text.isBlank, cs, ?_, hq, rfl⟩
    rw [← hd, List.takeWhile_append_dropWhile]

/-! ## The earliest token -/

theorem continues_snoc_of_refused {us : List Token} {u : Token} {t : State} {r : Refusal}
    (hu : State.start.feed (us.map Token.word) = .ok t) (hr : t.step u.word = .error r) :
    ¬Continues ((us ++ [u]).map Token.word) := by
  rw [continues_iff_feed, List.map_append, State.feed_append, hu]
  rintro ⟨s, hs⟩
  change t.feed [u.word] = .ok s at hs
  rw [State.feed_singleton, hr] at hs
  cases hs

/-- A parse error is the failure of the run over the tokens of the input. -/
theorem exists_failure_of_parseForest {lookup : String → Option String} {input : String} {err : ParseError}
    {tokens : List Token} {ending : Ending} (h : parseForest lookup input = .error err)
    (hr : (Cursor.ofString input).read = (tokens, ending)) :
    ∃ f, err = ⟨f, input⟩ ∧ State.start.run ending tokens = .error f := by
  rw [parseForest, parse_eq_run, hr] at h
  cases hx : State.start.run ending tokens with
  | ok e => rw [hx] at h; cases h
  | error f => rw [hx] at h; cases h; exact ⟨f, rfl, rfl⟩

/-- A fault that is no open quote is reported at the first token with which the tokens cannot go on to an
    expression, or at the end, if they could go on but are none. An open quote is reported if the tokens
    before it could go on, and at any rate only if those before the last of them could. -/
theorem error_at_earliest_token (lookup : String → Option String) {input : String} {err : ParseError}
    {tokens : List Token} {ending : Ending} (h : parseForest lookup input = .error err)
    (hr : (Cursor.ofString input).read = (tokens, ending)) :
    ((∀ p, err.fault ≠ .unterminated p) →
      (∃ us t vs, tokens = us ++ t :: vs ∧ err.position = t.position ∧ Continues (us.map Token.word) ∧
        ¬Continues ((us ++ [t]).map Token.word)) ∨
      (ending = .finish err.position ∧ Continues (tokens.map Token.word) ∧ ¬Parses (tokens.map Token.word))) ∧
    (∀ p, err.fault = .unterminated p →
      err.position = p ∧ ending = .unterminated p ∧ LastQuote input.toList p ∧
        Continues (tokens.dropLast.map Token.word)) ∧
    (∀ p, ending = .unterminated p → Continues (tokens.map Token.word) → err.fault = .unterminated p) := by
  obtain ⟨f, rfl, hf⟩ := exists_failure_of_parseForest h hr
  cases State.fails_of_run hf with
  | @unterminated t _ p hu =>
    have hc : Continues (tokens.map Token.word) := continues_iff_feed.mpr ⟨t, hu⟩
    refine ⟨fun hne => absurd rfl (hne p), fun q hq => ?_, fun q hq _ => ?_⟩
    · cases hq
      exact ⟨rfl, rfl, lastQuote_of_read hr, hc.of_prefix ((List.dropLast_prefix tokens).map Token.word)⟩
    · cases hq
      rfl
  | @unfinished t _ fault p hu hfin =>
    refine ⟨fun _ => .inr ⟨rfl, continues_iff_feed.mpr ⟨t, hu⟩, ?_⟩, fun q hq => ?_, fun q hq _ => ?_⟩
    · rintro ⟨e, he⟩
      obtain ⟨t', ht', hfin'⟩ := State.after?_eq_some_iff.mp he
      rw [hu] at ht'
      cases ht'
      rw [hfin] at hfin'
      cases hfin'
    · exact absurd hq (State.finish_ne_unterminated hfin q)
    · cases hq
  | @refused t us u r _ vs hu href =>
    have hc : Continues (us.map Token.word) := continues_iff_feed.mpr ⟨t, hu⟩
    have hn : ¬Continues ((us ++ [u]).map Token.word) := continues_snoc_of_refused hu href
    have hall (h : Continues ((us ++ u :: vs).map Token.word)) : False :=
      hn (h.of_prefix (List.IsPrefix.map Token.word ⟨vs, by simp⟩))
    rcases State.failure_cases u r vs ending with hfail | ⟨p, rfl, rfl, hfail⟩
    · rw [hfail]
      exact ⟨fun _ => .inl ⟨us, u, vs, rfl, rfl, hc, hn⟩,
        fun q hq => absurd hq (State.findsNoQuote_step t u.word r href q), fun q _ h => (hall h).elim⟩
    · rw [hfail]
      refine ⟨fun hne => absurd rfl (hne p), fun q hq => ?_, fun q _ h => (hall h).elim⟩
      cases hq
      exact ⟨rfl, rfl, lastQuote_of_read hr, by rwa [List.dropLast_concat]⟩

/-- A second equals sign is at fault, unless an open quote right behind it is seen first. -/
theorem error_at_second_assign :
    let lookup : String → Option String := fun _ => none
    let first : List Token := [⟨.bare ['a'], 0⟩, ⟨.mark .assign, 1⟩]
    let second : Token := ⟨.mark .assign, 2⟩
    parseForest lookup "a==1" = .error ⟨⟨2, .unexpected (.mark .assign)⟩, "a==1"⟩ ∧
      (Cursor.ofString "a==1").read = (first ++ [second, ⟨.bare ['1'], 3⟩], .finish 4) ∧
      (∃ us t vs, first ++ [second, ⟨.bare ['1'], 3⟩] = us ++ t :: vs ∧ t.position = 2 ∧
        Continues (us.map Token.word) ∧ ¬Continues ((us ++ [t]).map Token.word)) ∧
      parseForest lookup "a==\"b" = .error ⟨⟨3, .unterminated 3⟩, "a==\"b"⟩ ∧
      (Cursor.ofString "a==\"b").read = (first ++ [second], .unterminated 3) ∧ Continues (first.map Token.word) := by
  intro lookup first second
  have hr : (Cursor.ofString "a==1").read = (first ++ [second, ⟨.bare ['1'], 3⟩], .finish 4) := by decide +kernel
  have h : parseForest lookup "a==1" = .error ⟨⟨2, .unexpected (.mark .assign)⟩, "a==1"⟩ := by
    rw [parseForest, parse_eq_run, hr]
    rfl
  have hrq : (Cursor.ofString "a==\"b").read = (first ++ [second], .unterminated 3) := by decide +kernel
  have hq : parseForest lookup "a==\"b" = .error ⟨⟨3, .unterminated 3⟩, "a==\"b"⟩ := by
    rw [parseForest, parse_eq_run, hrq]
    rfl
  refine ⟨h, hr, ?_, hq, hrq, ((error_at_earliest_token lookup hq hrq).2.1 3 rfl).2.2.2⟩
  rcases (error_at_earliest_token lookup h hr).1 (fun _ h => nomatch h) with ⟨us, t, vs, hts, hp, hc⟩ | ⟨he, -⟩
  · exact ⟨us, t, vs, hts, hp.symm, hc⟩
  · cases he

end ObjectExpr
