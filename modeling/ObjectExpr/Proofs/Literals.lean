/-
  ObjectExpr.Proofs.Literals — what stands behind a colon is typed exactly, and integers come back. Which
  texts are keywords, integers, floats or nothing is said by how they are spelled (`TypedExactly`): an
  integer is one of 64 bits or else a float, and never wraps around. A raw literal is read wherever a term
  can stand and nowhere else (`step_raw_eq_ok_iff`), and it is one token wherever a colon starts one
  (`StartsRaw.read`). So the text of an integer comes back as that integer in all such places
  (`raw_literals_typed_exactly`).
-/

import ObjectExpr.Document
import ObjectExpr.Proofs.Grammar.Acceptance
import ObjectExpr.Proofs.Lexer.Placed
import ObjectExpr.Proofs.Lexer.RawText
import ObjectExpr.Proofs.Number.Texts

namespace ObjectExpr

open Number (SpellsInteger SpellsFloat Binary64)
open Text (byteSize)
open ObjectExpr.Parser

/-! ## Types -/

namespace Scalar

def IsKeyword (text : String) : Prop := text = "true" ∨ text = "false" ∨ text = "null"

/-- The text of an integer that fits in 64 bits. -/
def SpellsInt64 (text : String) : Prop := ∃ i, SpellsInteger text.toList i ∧ -2 ^ 63 ≤ i ∧ i < 2 ^ 63

/-- What a text stands for, said by its spelling alone. -/
structure TypedExactly (text : String) : Prop where
  boolean : ∀ b, ofRaw text = .ok (.boolean b) ↔ text = if b then "true" else "false"
  null : ofRaw text = .ok .null ↔ text = "null"
  integer : ∀ i : Int, (∃ n : Int64, n.toInt = i ∧ ofRaw text = .ok (.integer n)) ↔
    SpellsInteger text.toList i ∧ -2 ^ 63 ≤ i ∧ i < 2 ^ 63
  float : (∃ x, ofRaw text = .ok (.float x)) ↔ ¬IsKeyword text ∧ ¬SpellsInt64 text ∧ SpellsFloat text.toList
  /-- An integer that does not fit is the float nearest to it. -/
  wide : ∀ i, SpellsInteger text.toList i → ¬(-2 ^ 63 ≤ i ∧ i < 2 ^ 63) →
    ofRaw text = .ok (.float (.ofDecimal ⟨i < 0, i.natAbs, 0⟩))
  string : ∀ s, ofRaw text ≠ .ok (.string s)
  invalid : ∀ e, ofRaw text = .error e ↔
    e.text = text ∧ ¬IsKeyword text ∧ ¬SpellsInt64 text ∧ ¬SpellsFloat text.toList

variable {text : String}

theorem integer?_eq_some_iff {n : Int64} : integer? text = some n ↔ SpellsInteger text.toList n.toInt := by
  rw [← Number.readInteger?_eq_some_iff, integer?, Option.bind_eq_some_iff]
  constructor
  · rintro ⟨i, hi, h⟩
    split at h
    · next hrange =>
      obtain rfl := Option.some.inj h
      rwa [Int64.toInt_ofInt_of_le hrange.1 (Int.lt_add_one_of_le hrange.2)]
    · cases h
  · intro h
    exact ⟨n.toInt, h, by rw [if_pos ⟨n.minValue_le_toInt, n.toInt_le⟩, Int64.ofInt_toInt]⟩

theorem exists_toInt_iff {i : Int} : (∃ n : Int64, n.toInt = i) ↔ -2 ^ 63 ≤ i ∧ i < 2 ^ 63 := by
  constructor
  · rintro ⟨n, rfl⟩
    exact ⟨n.le_toInt, n.toInt_lt⟩
  · rintro ⟨hlow, hhigh⟩
    exact ⟨Int64.ofInt i, Int64.toInt_ofInt_of_le hlow hhigh⟩

theorem exists_integer?_iff : (∃ n, integer? text = some n) ↔ SpellsInt64 text := by
  constructor
  · rintro ⟨n, hn⟩
    exact ⟨n.toInt, integer?_eq_some_iff.mp hn, exists_toInt_iff.mp ⟨n, rfl⟩⟩
  · rintro ⟨i, hi, hrange⟩
    obtain ⟨n, rfl⟩ := exists_toInt_iff.mpr hrange
    exact ⟨n, integer?_eq_some_iff.mpr hi⟩

theorem integer?_eq_none_iff : integer? text = none ↔ ¬SpellsInt64 text := by
  rw [← exists_integer?_iff, Option.eq_none_iff_forall_ne_some, not_exists]

theorem read?_eq_none_iff {cs : List Char} : Binary64.read? cs = none ↔ ¬SpellsFloat cs := by
  rw [← Binary64.exists_read?_iff, Option.eq_none_iff_forall_ne_some, not_exists]

theorem ofKeyword?_eq_some_iff {s : Scalar} :
    ofKeyword? text = some s ↔
      (text = "true" ∧ s = .boolean true) ∨ (text = "false" ∧ s = .boolean false) ∨ (text = "null" ∧ s = .null) := by
  unfold ofKeyword?
  split
  · next h => simp [h, eq_comm]
  · next ht =>
    split
    · next h => simp [h, eq_comm]
    · next hf =>
      split
      · next h => simp [h, eq_comm]
      · next hn => simp [ht, hf, hn]

theorem ofKeyword?_eq_none_iff : ofKeyword? text = none ↔ ¬IsKeyword text := by
  rw [Option.eq_none_iff_forall_ne_some, IsKeyword, not_or, not_or]
  simp only [ne_eq, ofKeyword?_eq_some_iff]
  constructor
  · intro h
    exact ⟨fun ht => h _ (.inl ⟨ht, rfl⟩), fun hf => h _ (.inr (.inl ⟨hf, rfl⟩)), fun hn => h _ (.inr (.inr ⟨hn, rfl⟩))⟩
  · rintro ⟨ht, hf, hn⟩ s (⟨h, -⟩ | ⟨h, -⟩ | ⟨h, -⟩)
    · exact ht h
    · exact hf h
    · exact hn h

theorem not_spellsInteger {i : Int} (h : IsKeyword text) : ¬SpellsInteger text.toList i := by
  have hnone : Number.readInteger? text.toList = none := by rcases h with rfl | rfl | rfl <;> decide
  rw [← Number.readInteger?_eq_some_iff, hnone]
  exact nofun

/-- Keywords come first, then integers, then floats. -/
theorem ofRaw_eq_ok_iff {s : Scalar} :
    ofRaw text = .ok s ↔
      ofKeyword? text = some s ∨ (∃ n, s = .integer n ∧ integer? text = some n) ∨
        ∃ x, s = .float x ∧ ¬IsKeyword text ∧ integer? text = none ∧ Binary64.read? text.toList = some x := by
  cases hk : ofKeyword? text with
  | some r =>
    have hkey : IsKeyword text := by
      rw [← not_not (a := IsKeyword text), ← ofKeyword?_eq_none_iff, hk]
      exact Option.some_ne_none r
    have hi : integer? text = none := by
      rw [Option.eq_none_iff_forall_ne_some]
      intro n hn
      cases hk.symm.trans (ofKeyword?_of_integer? hn)
    simp [ofRaw, hk, hi, hkey]
  | none =>
    have hkey := ofKeyword?_eq_none_iff.mp hk
    cases hi : integer? text with
    | some n => simp [ofRaw, hk, ofNumber?, hi, eq_comm]
    | none =>
      cases hx : Binary64.read? text.toList with
      | some x => simp [ofRaw, hk, ofNumber?, hi, hx, hkey, eq_comm]
      | none => simp [ofRaw, hk, ofNumber?, hi, hx]

theorem ofRaw_eq_error_iff {e : InvalidRaw} :
    ofRaw text = .error e ↔
      e.text = text ∧ ofKeyword? text = none ∧ integer? text = none ∧ Binary64.read? text.toList = none := by
  obtain ⟨t⟩ := e
  cases hk : ofKeyword? text with
  | some r => simp [ofRaw, hk]
  | none =>
    cases hi : integer? text with
    | some n => simp [ofRaw, hk, ofNumber?, hi]
    | none =>
      cases hx : Binary64.read? text.toList with
      | some x => simp [ofRaw, hk, ofNumber?, hi, hx]
      | none => simp [ofRaw, hk, ofNumber?, hi, hx, eq_comm]

theorem typedExactly (text : String) : TypedExactly text where
  boolean b := by
    simp only [ofRaw_eq_ok_iff, ofKeyword?_eq_some_iff]
    cases b <;> simp
  null := by simp [ofRaw_eq_ok_iff, ofKeyword?_eq_some_iff]
  integer i := by
    have hn (n : Int64) : ofRaw text = .ok (.integer n) ↔ SpellsInteger text.toList n.toInt := by
      rw [← integer?_eq_some_iff]
      simp [ofRaw_eq_ok_iff, ofKeyword?_eq_some_iff]
    simp only [hn]
    constructor
    · rintro ⟨n, rfl, h⟩
      exact ⟨h, exists_toInt_iff.mp ⟨n, rfl⟩⟩
    · rintro ⟨h, hrange⟩
      obtain ⟨n, rfl⟩ := exists_toInt_iff.mpr hrange
      exact ⟨n, rfl, h⟩
  float := by
    rw [← integer?_eq_none_iff, ← Binary64.exists_read?_iff]
    simp [ofRaw_eq_ok_iff, ofKeyword?_eq_some_iff]
  wide i hi hrange := by
    have hnone : integer? text = none := by
      rw [integer?_eq_none_iff]
      rintro ⟨j, hj, hj'⟩
      rw [← Number.readInteger?_eq_some_iff] at hi hj
      obtain rfl := Option.some.inj (hi.symm.trans hj)
      exact hrange hj'
    have hkey : ¬IsKeyword text := fun h => not_spellsInteger h hi
    have hread := Binary64.read?_of_spellsInteger hi (by omega)
    exact ofRaw_eq_ok_iff.mpr (.inr (.inr ⟨_, rfl, hkey, hnone, hread⟩))
  string s := by simp [ofRaw_eq_ok_iff, ofKeyword?_eq_some_iff]
  invalid e := by
    rw [ofRaw_eq_error_iff, ofKeyword?_eq_none_iff, integer?_eq_none_iff, read?_eq_none_iff]

end Scalar

/-! ## Places -/

namespace Parser

/-- A place where a term is read, and the hole that it fills. A lone name in an array is an element by then. -/
inductive TakesTerm : Place → Hole → Prop
  | value (owner : Owner) (path : Path) : TakesTerm (.value owner path) (.named owner path)
  | element (done : List Element) : TakesTerm (.elements done) (.item done)
  | settled (done : List Element) (name : String) :
      TakesTerm (.name (.elements done) (.single name)) (.item ((none, .text name) :: done))

namespace State

theorem term_typed (s : State) (hole : Hole) (t : Typed) : s.term hole (.raw t.text) = .ok (s.fill hole (.typed t)) := by
  have ht : Typed.ofText t.text = .ok t := by
    unfold Typed.ofText
    split
    · next r hr => exact congrArg Except.ok (Typed.ext_text rfl)
    · next e he => cases t.ofRaw_text.symm.trans he
  simp only [term, ht]

theorem exists_of_step_raw {s s' : State} {text : String} (h : Step s (.raw text) s') :
    ∃ hole t, TakesTerm s.place hole ∧ t.text = text ∧ s' = s.fill hole (.typed t) := by
  cases h with
  | leaf owner path outer ht =>
    cases ht with
    | typed t => exact ⟨_, t, .value owner path, rfl, rfl⟩
  | item done outer ht =>
    cases ht with
    | typed t => exact ⟨_, t, .element done, rfl, rfl⟩
  | @settle done name outer _ _ hs =>
    cases hs with
    | item done outer ht =>
      cases ht with
      | typed t => exact ⟨_, t, .settled done name, rfl, rfl⟩

/-- A raw literal is taken where a term can stand, and nowhere else. -/
theorem step_raw_eq_ok_iff {s s' : State} {text : String} :
    s.step (.raw text) = .ok s' ↔ ∃ hole t, TakesTerm s.place hole ∧ t.text = text ∧ s' = s.fill hole (.typed t) := by
  constructor
  · intro h
    exact exists_of_step_raw (step_of_step h)
  · rintro ⟨hole, t, hplace, rfl, rfl⟩
    obtain ⟨place, outer⟩ := s
    cases hplace with
    | value owner path => exact term_typed _ _ t
    | element done => exact term_typed _ _ t
    | settled done name => exact term_typed _ _ t

end State

end Parser

/-- What stands for something is read as that wherever a colon can start it and a term can stand. -/
theorem parse_behind_colon (t : Typed) {before after : List Char} {ts : List Token} {s : State} {hole : Hole}
    (hstart : StartsRaw before ts) (hfeed : State.start.feed (ts.map Token.word) = .ok s)
    (hplace : TakesTerm s.place hole) (hafter : ∀ c ∈ after.head?, SeparatesRaw c) :
    let input := String.ofList (before ++ ':' :: (t.text.toList ++ after))
    let rest := Cursor.read ⟨after, byteSize before + byteSize (':' :: t.text.toList)⟩
    (Cursor.ofString input).read = (ts ++ ⟨.raw t.text.toList, byteSize before⟩ :: rest.1, rest.2) ∧
      Expression.parse input = ((s.fill hole (.typed t)).run rest.2 rest.1).mapError fun f => ⟨f, input⟩ := by
  intro input rest
  have htext : ∀ c ∈ t.text.toList, ¬SeparatesRaw c := fun c hc =>
    Lexeme.inRaw_iff.mp (List.all_eq_true.mp (Scalar.inRaw_of_ofRaw t.ofRaw_text) c hc)
  have hread : (Cursor.ofString input).read = (ts ++ ⟨.raw t.text.toList, byteSize before⟩ :: rest.1, rest.2) := by
    rw [Cursor.ofString, String.toList_ofList]
    exact hstart.read htext hafter
  have hstep : s.step (.raw t.text) = .ok (s.fill hole (.typed t)) :=
    State.step_raw_eq_ok_iff.mpr ⟨hole, t, hplace, rfl, rfl⟩
  refine ⟨hread, ?_⟩
  rw [parse_eq_run, hread, State.run_append hfeed, State.run]
  simp only [Token.word, Lexeme.word, String.ofList_toList, hstep]

/-! ## Integers come back -/

/-- Every text is typed by its spelling. And the text of an integer of 64 bits, as it is written in either
    format, comes back as that integer: behind a colon in any place where a term is read, up to a blank, a mark
    other than the dot or the end, it is one token, and the term in its place is the integer, whatever follows. -/
theorem raw_literals_typed_exactly :
    (∀ text, Scalar.TypedExactly text) ∧
    ∀ n : Int64, ∃ t : Typed, (∀ lookup, (Term.typed t).tree lookup = .scalar (.integer n)) ∧
      t.text = Json.compact (.integer n) ∧
      (∀ format : Format, format.document (.integer n) = t.text ++ "\n") ∧
      ∀ before after ts s hole, StartsRaw before ts → State.start.feed (ts.map Token.word) = .ok s →
        TakesTerm s.place hole → (∀ c ∈ after.head?, SeparatesRaw c) →
        let input := String.ofList (before ++ ':' :: (t.text.toList ++ after))
        let rest := Cursor.read ⟨after, byteSize before + byteSize (':' :: t.text.toList)⟩
        (Cursor.ofString input).read = (ts ++ ⟨.raw t.text.toList, byteSize before⟩ :: rest.1, rest.2) ∧
          Expression.parse input =
            ((s.fill hole (.typed t)).run rest.2 rest.1).mapError fun f => ⟨f, input⟩ := by
  refine ⟨Scalar.typedExactly, fun n => ?_⟩
  let t : Typed := ⟨_, _, Scalar.ofRaw_integerText n⟩
  refine ⟨t, fun lookup => rfl, rfl, fun format => format.document_integer n, ?_⟩
  intro before after ts s hole hstart hfeed hplace hafter
  exact parse_behind_colon t hstart hfeed hplace hafter

/-- The least integer, behind a lone name in an array. -/
theorem raw_literals_typed_exactly_at_limit :
    ∃ t : Typed, t.text = "-9223372036854775808" ∧
      (∀ lookup, (Term.typed t).tree lookup = .scalar (.integer Int64.minValue)) ∧
      Expression.parse "[a :-9223372036854775808]" = .ok (.bracketed [.array [(none, .text "a"), (none, .typed t)]]) := by
  obtain ⟨t, htree, htext, -, hplaces⟩ := raw_literals_typed_exactly.2 Int64.minValue
  have ht : t.text = "-9223372036854775808" := htext.trans (by with_unfolding_all rfl)
  have hstart : StartsRaw "[a ".toList [⟨.mark .arrayOpen, 0⟩, ⟨.bare ['a'], 1⟩] := ⟨4, by with_unfolding_all rfl⟩
  have hend : ∀ c ∈ [']'].head?, SeparatesRaw c := by
    intro c hc
    cases hc
    exact .inr ⟨.arrayClose, nofun, rfl⟩
  have hparse := (hplaces _ [']'] _ ⟨.name (.elements []) (.single "a"), [.root []]⟩ _ hstart rfl (.settled [] "a") hend).2
  rw [ht] at hparse
  refine ⟨t, ht, htree, Eq.trans ?_ (hparse.trans ?_)⟩
  · rfl
  · with_unfolding_all rfl

end ObjectExpr
