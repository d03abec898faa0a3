/-
  ObjectExpr.Proofs.Concatenation — two expressions with blanks between them. The tokens are those of the
  one and then those of the other (`Lexes.joined`), so the parser takes up the second expression in the
  state that the first one left. Bracketed roots follow one another, fields are written on into the same
  root, and an expression of the other sort is refused at its first token (`parseForest_joined`).
-/

import ObjectExpr.Proofs.Grammar.Acceptance
import ObjectExpr.Proofs.Lexer.Seam
import ObjectExpr.Proofs.Tree.Regrouping

namespace ObjectExpr

open Text (isBlank byteSize)
open Grammar (Start readFields readRoots)
open ObjectExpr.Parser

/-! ## Tokens -/

/-- The token starts an expression of bracketed roots. -/
def Token.opens (t : Token) : Bool :=
  match t.word with
  | .mark .objectOpen | .mark .arrayOpen => true
  | _ => false

/-- Where a text starts behind another one and blanks. -/
def seam (input blanks : String) : Nat := byteSize (input ++ blanks).toList

theorem Lexes.joined {input₁ blanks input₂ : String} {ts us : List Token} (h₁ : Lexes input₁ ts) (h₂ : Lexes input₂ us)
    (hne : blanks ≠ "") (hb : ∀ c ∈ blanks.toList, isBlank c = true) :
    Lexes (input₁ ++ blanks ++ input₂) (ts ++ us.map (Token.shift (seam input₁ blanks))) := by
  obtain ⟨stop₁, h₁⟩ := h₁
  obtain ⟨stop₂, h₂⟩ := h₂
  have hbreaks : Breaks (blanks.toList ++ input₂.toList) := by
    obtain ⟨c, cs, hcs⟩ := List.exists_cons_of_ne_nil fun hnil => hne (String.toList_eq_nil_iff.mp hnil)
    intro d hd
    rw [hcs, List.cons_append, List.head?_cons, Option.mem_some_iff] at hd
    exact hb d (by rw [hcs, hd]; exact List.mem_cons_self)
  have hcursor : Cursor.ofString (input₁ ++ blanks ++ input₂) =
      (Cursor.ofString input₁).append (blanks.toList ++ input₂.toList) := by
    simp [Cursor.ofString, Cursor.append]
  have hshift : Cursor.mk input₂.toList ((Cursor.ofString input₁).stop + byteSize blanks.toList) =
      (Cursor.ofString input₂).shift (seam input₁ blanks) := by
    simp [seam, Cursor.stop, Cursor.ofString, Cursor.shift]
  refine ⟨seam input₁ blanks + stop₂, ?_⟩
  rw [hcursor, Cursor.read_append h₁ hbreaks, Cursor.read_blanks hb, hshift, Cursor.read_shift, h₂]
  rfl

/-! ## Going on after an expression -/

namespace Grammar

variable {d : Start}

theorem Start.read_eq_flat {fields : List (Path × Term)} (h : d.read = .ok (.flat fields)) :
    ∃ fs, d = .fields fs ∧ readFields 0 fs = .ok fields := by
  cases d with
  | brackets first rest => obtain ⟨ts, -, ht⟩ := map_eq_ok_iff.mp h; cases ht
  | fields fs => obtain ⟨gs, hg, ht⟩ := map_eq_ok_iff.mp h; cases ht; exact ⟨fs, rfl, hg⟩

theorem Start.read_eq_bracketed {roots : List Term} (h : d.read = .ok (.bracketed roots)) :
    ∃ first rest, d = .brackets first rest ∧ readRoots (first :: rest) = .ok roots := by
  cases d with
  | brackets first rest => obtain ⟨ts, hts, ht⟩ := map_eq_ok_iff.mp h; cases ht; exact ⟨first, rest, rfl, hts⟩
  | fields fs => obtain ⟨gs, -, ht⟩ := map_eq_ok_iff.mp h; cases ht

/-- Fields go on where fields have ended. -/
theorem feed_flat {fields₂ : List (Path × Term)} (h : d.read = .ok (.flat fields₂)) (fields₁ : List (Path × Term)) :
    (Expression.flat fields₁).state.feed d.words = .ok (Expression.flat (fields₁ ++ fields₂)).state := by
  obtain ⟨fs, rfl, hr⟩ := Start.read_eq_flat h
  have hf := feed_fields fs fields₁.reverse []
  rw [levels_nil, hr] at hf
  refine Eq.trans hf ?_
  simp [Expression.state, Functor.map, Except.map]

/-- Roots go on where roots have ended. -/
theorem feed_bracketed {roots₂ : List Term} (h : d.read = .ok (.bracketed roots₂)) (roots₁ : List Term) :
    (Expression.bracketed roots₁).state.feed d.words = .ok (Expression.bracketed (roots₁ ++ roots₂)).state := by
  obtain ⟨first, rest, rfl, hr⟩ := Start.read_eq_bracketed h
  have hf := feed_roots (first :: rest) roots₁.reverse
  rw [hr] at hf
  refine Eq.trans hf ?_
  simp [Expression.state, Functor.map, Except.map]

/-- The first word of fields is a name. -/
theorem literal_of_flat {fields : List (Path × Term)} {w : Word} {ws : List Word} (h : d.read = .ok (.flat fields))
    (hw : d.words = w :: ws) : (∃ name, w = .literal name) ∧ fields ≠ [] := by
  obtain ⟨fs, rfl, hr⟩ := Start.read_eq_flat h
  cases fs with
  | nil => cases hw
  | cons f fs =>
    obtain ⟨name, r⟩ := f
    obtain ⟨rfl, -⟩ := List.cons.inj hw
    obtain ⟨q, -, hr⟩ := bind_eq_ok_iff.mp hr
    obtain ⟨gs, -, rfl⟩ := map_eq_ok_iff.mp hr
    exact ⟨⟨name, rfl⟩, List.cons_ne_nil _ _⟩

/-- The first word of roots is a bracket that opens. -/
theorem opens_of_bracketed {roots : List Term} {w : Word} {ws : List Word} (h : d.read = .ok (.bracketed roots))
    (hw : d.words = w :: ws) : w = .mark .objectOpen ∨ w = .mark .arrayOpen := by
  obtain ⟨first, rest, rfl, -⟩ := Start.read_eq_bracketed h
  rw [Start.words, rootWords_cons] at hw
  cases first with
  | object fs => exact .inl (List.cons.inj hw).1.symm
  | array es => exact .inr (List.cons.inj hw).1.symm

end Grammar

/-! ## Both expressions -/

/-- A text that is tokens `t :: ts` and is read as `e`. -/
structure Reads (input : String) (t : Token) (ts : List Token) (e : Expression) : Prop where
  lexes : Lexes input (t :: ts)
  parse : Expression.parse input = .ok e

namespace Reads

variable {input : String} {t : Token} {ts : List Token} {e : Expression}

theorem derivation (h : Reads input t ts e) : ∃ d : Start, d.words = (t :: ts).map Token.word ∧ d.read = .ok e := by
  obtain ⟨tokens, hl, d, hw, hr⟩ := parse_eq_ok_iff.mp h.parse
  obtain rfl := hl.unique h.lexes
  exact ⟨d, hw, hr⟩

theorem feed (h : Reads input t ts e) : State.start.feed ((t :: ts).map Token.word) = .ok e.state := by
  obtain ⟨d, hw, hr⟩ := h.derivation
  rw [← hw, Grammar.feed_start, hr]
  rfl

theorem literal_of_flat {fields : List (Path × Term)} (h : Reads input t ts (.flat fields)) :
    (∃ name, t.word = .literal name) ∧ fields ≠ [] := by
  obtain ⟨d, hw, hr⟩ := h.derivation
  exact Grammar.literal_of_flat hr hw

theorem opens_of_bracketed {roots : List Term} (h : Reads input t ts (.bracketed roots)) :
    t.word = .mark .objectOpen ∨ t.word = .mark .arrayOpen := by
  obtain ⟨d, hw, hr⟩ := h.derivation
  exact Grammar.opens_of_bracketed hr hw

theorem opens_flat {fields : List (Path × Term)} (h : Reads input t ts (.flat fields)) : t.opens = false := by
  obtain ⟨⟨name, hn⟩, -⟩ := h.literal_of_flat
  rw [Token.opens, hn]

theorem opens_bracketed {roots : List Term} (h : Reads input t ts (.bracketed roots)) : t.opens = true := by
  rcases h.opens_of_bracketed with hw | hw <;> rw [Token.opens, hw]

theorem exists_roots (h : Reads input t ts e) (ho : t.opens = true) : ∃ roots, e = .bracketed roots := by
  cases e with
  | flat fields => rw [h.opens_flat] at ho; cases ho
  | bracketed roots => exact ⟨roots, rfl⟩

theorem exists_fields (h : Reads input t ts e) (ho : t.opens = false) : ∃ fields, e = .flat fields := by
  cases e with
  | flat fields => exact ⟨fields, rfl⟩
  | bracketed roots => rw [h.opens_bracketed] at ho; cases ho

end Reads

section

variable {input₁ blanks input₂ : String} {t₁ t₂ : Token} {ts₁ ts₂ : List Token} {e₁ e₂ : Expression}

/-- On the joined text, the parser comes to the second expression where it left the first one. -/
theorem parse_joined (h₁ : Reads input₁ t₁ ts₁ e₁) (h₂ : Reads input₂ t₂ ts₂ e₂) (hne : blanks ≠ "")
    (hb : ∀ c ∈ blanks.toList, isBlank c = true) :
    ∃ stop, Expression.parse (input₁ ++ blanks ++ input₂) =
      (e₁.state.run (.finish stop) ((t₂ :: ts₂).map (Token.shift (seam input₁ blanks)))).mapError
        fun f => ⟨f, input₁ ++ blanks ++ input₂⟩ := by
  obtain ⟨stop, hl⟩ := h₁.lexes.joined h₂.lexes hne hb
  refine ⟨stop, ?_⟩
  rw [parse_eq_run, hl, State.run_append h₁.feed]

theorem parse_joined_eq_ok {e : Expression} (h₁ : Reads input₁ t₁ ts₁ e₁) (h₂ : Reads input₂ t₂ ts₂ e₂)
    (hne : blanks ≠ "") (hb : ∀ c ∈ blanks.toList, isBlank c = true)
    (h : ∀ d : Start, d.read = .ok e₂ → e₁.state.feed d.words = .ok e.state) :
    Expression.parse (input₁ ++ blanks ++ input₂) = .ok e := by
  obtain ⟨stop, hp⟩ := parse_joined h₁ h₂ hne hb
  obtain ⟨d, hw, hr⟩ := h₂.derivation
  have hf := h d hr
  rw [hw] at hf
  have hrun : e₁.state.run (.finish stop) ((t₂ :: ts₂).map (Token.shift (seam input₁ blanks))) = .ok e := by
    rw [State.run_eq_ok_iff]
    refine ⟨e.state, stop, ?_, rfl, Expression.finish_state e⟩
    rw [List.map_map]
    exact hf
  rw [hp, hrun]
  rfl

theorem parse_joined_eq_error (h₁ : Reads input₁ t₁ ts₁ e₁) (h₂ : Reads input₂ t₂ ts₂ e₂)
    (hne : blanks ≠ "") (hb : ∀ c ∈ blanks.toList, isBlank c = true) (h : e₁.state.step t₂.word = unexpected t₂.word) :
    Expression.parse (input₁ ++ blanks ++ input₂) =
      .error ⟨⟨seam input₁ blanks + t₂.position, .unexpected t₂.kind⟩, input₁ ++ blanks ++ input₂⟩ := by
  obtain ⟨stop, hp⟩ := parse_joined h₁ h₂ hne hb
  rw [hp, List.map_cons, State.run_of_refused (t := t₂.shift (seam input₁ blanks)) h]
  rfl

theorem step_flat_bracket {fields : List (Path × Term)} (hne : fields ≠ []) {w : Word}
    (hw : w = .mark .objectOpen ∨ w = .mark .arrayOpen) : (Expression.flat fields).state.step w = unexpected w := by
  have hempty : fields.reverse.isEmpty = false := by simpa using hne
  rcases hw with rfl | rfl <;> simp [Expression.state, State.step, State.field, hempty]

/-- An expression of the other sort is refused at its first word. -/
theorem step_of_opens_ne (h₁ : Reads input₁ t₁ ts₁ e₁) (h₂ : Reads input₂ t₂ ts₂ e₂) (ho : t₁.opens ≠ t₂.opens) :
    e₁.state.step t₂.word = unexpected t₂.word := by
  cases e₁ with
  | flat fields₁ =>
    rw [h₁.opens_flat] at ho
    obtain ⟨roots₂, rfl⟩ := h₂.exists_roots (by simpa using ho.symm)
    exact step_flat_bracket h₁.literal_of_flat.2 h₂.opens_of_bracketed
  | bracketed roots₁ =>
    rw [h₁.opens_bracketed] at ho
    obtain ⟨fields₂, rfl⟩ := h₂.exists_fields (by simpa using ho.symm)
    obtain ⟨name, hn⟩ := h₂.literal_of_flat.1
    rw [hn]
    rfl

end

section

variable {lookup : String → Option String} {fields₁ fields₂ : List (Path × Term)}

theorem insertAll_fieldTrees_eq_merge (h : Tree.Unclobbered (fieldTrees lookup fields₂)) :
    Tree.object (Tree.insertAll (Tree.insertAll [] (fieldTrees lookup fields₁)) (fieldTrees lookup fields₂)) =
      (Tree.object (Tree.insertAll [] (fieldTrees lookup fields₁))).merge ((Term.object fields₂).tree lookup) := by
  have hd := Tree.distinct_empty.insertAll (Tree.distinct_fieldTrees lookup fields₁)
  rw [Term.tree]
  exact Tree.object_insertAll_eq_merge hd (Tree.distinct_fieldTrees lookup fields₂) h

end

/-- Two expressions with blanks between them. Bracketed roots follow one another and are not merged. Of
    two sorts, the second is refused at its first token. Fields are written one after another into the
    first root, which is the merge of the two roots if no field of the second expression has an object
    where a field before it has something else. -/
theorem parseForest_joined (lookup : String → Option String) {input₁ blanks input₂ : String} {t₁ t₂ : Token}
    {ts₁ ts₂ : List Token} {forest₁ forest₂ : Forest} (hl₁ : Lexes input₁ (t₁ :: ts₁)) (hl₂ : Lexes input₂ (t₂ :: ts₂))
    (h₁ : parseForest lookup input₁ = .ok forest₁) (h₂ : parseForest lookup input₂ = .ok forest₂)
    (hne : blanks ≠ "") (hb : ∀ c ∈ blanks.toList, isBlank c = true) :
    (t₁.opens = true → t₂.opens = true → parseForest lookup (input₁ ++ blanks ++ input₂) = .ok (forest₁ ++ forest₂)) ∧
    (t₁.opens ≠ t₂.opens →
      parseForest lookup (input₁ ++ blanks ++ input₂) =
        .error ⟨⟨seam input₁ blanks + t₂.position, .unexpected t₂.kind⟩, input₁ ++ blanks ++ input₂⟩) ∧
    (t₁.opens = false → t₂.opens = false →
      ∃ root₁ root₂ fields₂, forest₁ = [.object root₁] ∧ forest₂ = [root₂] ∧
        Expression.parse input₂ = .ok (.flat fields₂) ∧
        parseForest lookup (input₁ ++ blanks ++ input₂) =
          .ok [.object (Tree.insertAll root₁ (fieldTrees lookup fields₂))] ∧
        (Tree.Unclobbered (fieldTrees lookup fields₂) →
          Tree.object (Tree.insertAll root₁ (fieldTrees lookup fields₂)) = (Tree.object root₁).merge root₂)) := by
  obtain ⟨e₁, hp₁, rfl⟩ := parseForest_eq_ok_iff_parse.mp h₁
  obtain ⟨e₂, hp₂, rfl⟩ := parseForest_eq_ok_iff_parse.mp h₂
  have r₁ : Reads input₁ t₁ ts₁ e₁ := ⟨hl₁, hp₁⟩
  have r₂ : Reads input₂ t₂ ts₂ e₂ := ⟨hl₂, hp₂⟩
  refine ⟨fun ho₁ ho₂ => ?_, fun ho => ?_, fun ho₁ ho₂ => ?_⟩
  · obtain ⟨roots₁, rfl⟩ := r₁.exists_roots ho₁
    obtain ⟨roots₂, rfl⟩ := r₂.exists_roots ho₂
    have hp := parse_joined_eq_ok r₁ r₂ hne hb fun d hd => Grammar.feed_bracketed hd roots₁
    refine parseForest_eq_ok_iff_parse.mpr ⟨_, hp, ?_⟩
    rw [Expression.forest, List.map_append]
    rfl
  · rw [parseForest, parse_joined_eq_error r₁ r₂ hne hb (step_of_opens_ne r₁ r₂ ho)]
    rfl
  · obtain ⟨fields₁, rfl⟩ := r₁.exists_fields ho₁
    obtain ⟨fields₂, rfl⟩ := r₂.exists_fields ho₂
    have hp := parse_joined_eq_ok r₁ r₂ hne hb fun d hd => Grammar.feed_flat hd fields₁
    refine ⟨Tree.insertAll [] (fieldTrees lookup fields₁), (Term.object fields₂).tree lookup, fields₂, ?_, rfl, hp₂, ?_,
      insertAll_fieldTrees_eq_merge⟩
    · rw [Expression.forest, Term.tree]
    · exact parseForest_eq_ok_iff_parse.mpr ⟨_, hp, congrArg (fun t => [t]) tree_object_append⟩

/-- Fields of two expressions come together under one name. -/
theorem parseForest_joined_fields :
    let lookup : String → Option String := fun _ => none
    let first := Tree.ofField "a" (.ofField "b" (.scalar (.string "1")))
    let second := Tree.ofField "a" (.ofField "c" (.scalar (.string "2")))
    parseForest lookup "a.b=1" = .ok [first] ∧ parseForest lookup "a.c=2" = .ok [second] ∧
      parseForest lookup ("a.b=1" ++ " " ++ "a.c=2") = .ok [first.merge second] := by
  intro lookup first second
  have hl₁ : Lexes "a.b=1" [⟨.bare ['a'], 0⟩, ⟨.mark .dot, 1⟩, ⟨.bare ['b'], 2⟩, ⟨.mark .assign, 3⟩, ⟨.bare ['1'], 4⟩] :=
    ⟨5, by with_unfolding_all rfl⟩
  have hl₂ : Lexes "a.c=2" [⟨.bare ['a'], 0⟩, ⟨.mark .dot, 1⟩, ⟨.bare ['c'], 2⟩, ⟨.mark .assign, 3⟩, ⟨.bare ['2'], 4⟩] :=
    ⟨5, by with_unfolding_all rfl⟩
  have h₁ : parseForest lookup "a.b=1" = .ok [first] := by with_unfolding_all rfl
  have h₂ : parseForest lookup "a.c=2" = .ok [second] := by with_unfolding_all rfl
  have hb : ∀ c ∈ " ".toList, isBlank c = true := by
    rw [show " ".toList = [' '] from rfl, List.forall_mem_singleton]
    decide
  refine ⟨h₁, h₂, ?_⟩
  obtain ⟨-, -, hflat⟩ := parseForest_joined lookup hl₁ hl₂ h₁ h₂ (by decide : " " ≠ "") hb
  obtain ⟨root₁, root₂, fields₂, hf₁, hf₂, hp₂, hroot, hmerge⟩ := hflat rfl rfl
  have hfields : Expression.parse "a.c=2" = .ok (.flat [(⟨"a", ["c"]⟩, .text "2")]) := by with_unfolding_all rfl
  rw [hfields] at hp₂
  cases hp₂
  rw [hroot, hmerge (by simp [Tree.Unclobbered, fieldTrees]), ← (List.cons.inj hf₁).1, (List.cons.inj hf₂).1]

end ObjectExpr
