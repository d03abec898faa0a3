/-
  ObjectExpr.Proofs.Reports — what the report of a parse error points at. A fault is placed where a token
  stands, at the end of the input, or at a quote that is never closed; so its position lies between two
  characters, and the caret stands below the character there (`ParseError.column_eq`). What is left of the
  input at that position is of the kind that the fault tells of (`Fault.Shows`): a word that is refused is
  refused for what it is (`shows_of_blames`), and an end is only at fault where nothing is left
  (`shows_of_finish`).
-/

import ObjectExpr.Proofs.Grammar.Faults
import ObjectExpr.Proofs.Lexer.Tiling

namespace ObjectExpr

open Text (byteSize)
open ObjectExpr.Parser

/-! ## The caret -/

/-- The column is the number of characters before the position. -/
theorem ParseError.column_eq {e : ParseError} {before after : List Char} (hs : e.input.toList = before ++ after)
    (hp : byteSize before = e.position) : e.column = before.length := by
  have hstop : min e.position (byteSize e.input.toList) = byteSize before := by
    rw [hs, Text.byteSize_append]
    omega
  simp only [column, hstop]
  rw [hs, Text.charsWithin_append, Option.getD_some]

/-! ## What stands at the position -/

/-- A token of this kind is spelled by the front of what is left at the position. -/
def StartsToken (tokens : List Token) (position : Nat) (found : Kind) (left : List Char) : Prop :=
  ∃ t ∈ tokens, t.position = position ∧ t.kind = found ∧ t.lexeme.source <+: left

/-- What is left of the input where the fault is. -/
def Fault.Shows (tokens : List Token) (position : Nat) (left : List Char) : Fault → Prop
  | unexpectedEnd | unclosedArray | unclosedObject => left = []
  | unterminated p => p = position ∧ ∃ behind, left = '"' :: behind ∧ '"' ∉ behind
  | invalidRaw e => ':' :: e.text.toList <+: left
  | tooDeep => ∃ c behind, left = c :: behind ∧ (c = '\x7b' ∨ c = '[' ∨ c = '.')
  | unexpected found => found ≠ .finish ∧ StartsToken tokens position found left
  | expected _ found => if found = .finish then left = [] else StartsToken tokens position found left

theorem Word.kind_ne_finish (w : Word) : w.kind ≠ .finish := by
  cases w <;> exact Kind.noConfusion

theorem Lexeme.eq_of_word_raw {l : Lexeme} {text : String} (h : l.word = .raw text) : l = .raw text.toList := by
  cases l with
  | raw cs =>
    obtain rfl := Word.raw.inj h
    rw [String.toList_ofList]
  | _ => cases h

theorem Lexeme.eq_of_word_mark {l : Lexeme} {m : Mark} (h : l.word = .mark m) : l = .mark m := by
  cases l with
  | mark m' =>
    obtain rfl := Word.mark.inj h
    rfl
  | _ => cases h

/-- A fault that tells of a token is shown by its spelling. -/
theorem shows_of_blames {tokens : List Token} {t : Token} {left : List Char} {fault : Fault} (ht : t ∈ tokens)
    (hs : t.lexeme.source <+: left) (hb : Blames t.word fault) : fault.Shows tokens t.position left := by
  have hstarts : StartsToken tokens t.position t.word.kind left := ⟨t, ht, rfl, rfl, hs⟩
  generalize hw : t.word = w at hb hstarts
  cases hb with
  | unexpected w => exact ⟨w.kind_ne_finish, hstarts⟩
  | expected wanted w =>
    show if w.kind = .finish then left = [] else StartsToken tokens t.position w.kind left
    rw [if_neg w.kind_ne_finish]
    exact hstarts
  | invalidRaw e =>
    rw [Lexeme.eq_of_word_raw hw] at hs
    exact hs
  | @tooDeep m hm =>
    rw [Lexeme.eq_of_word_mark hw] at hs
    obtain ⟨behind, rfl⟩ := hs
    refine ⟨m.char, behind, rfl, ?_⟩
    cases hm with
    | object => exact .inl rfl
    | array => exact .inr (.inl rfl)
    | dot => exact .inr (.inr rfl)

/-- What is missing at the end is missing where nothing is left. -/
theorem shows_of_finish {s : State} {fault : Fault} (h : s.finish = .error fault) (tokens : List Token) (position : Nat) :
    fault.Shows tokens position [] := by
  unfold State.finish at h
  split at h <;> cases h <;> rfl

/-! ## Where tokens and ends stand -/

section

variable {input : String} {tokens : List Token} {ending : Ending}

theorem exists_of_mem_read (hr : (Cursor.ofString input).read = (tokens, ending)) {t : Token} (ht : t ∈ tokens) :
    ∃ before after, input.toList = before ++ after ∧ byteSize before = t.position ∧ t.lexeme.source <+: after := by
  obtain ⟨T, hT, htext⟩ := Tiling.exists_fits input.toList
  have hread := hT.read_eq 0
  rw [htext] at hread
  obtain rfl : T.tokens 0 = tokens := congrArg Prod.fst (hread.symm.trans hr)
  obtain ⟨before, after, hsplit, hp, hs⟩ := T.exists_of_mem_tokens ht
  rw [Nat.zero_add] at hp
  exact ⟨before, after, htext.symm.trans hsplit, hp, hs⟩

theorem byteSize_of_read {p : Nat} (hr : (Cursor.ofString input).read = (tokens, .finish p)) :
    byteSize input.toList = p := by
  obtain ⟨T, hT, htext⟩ := Tiling.exists_fits input.toList
  have hread := hT.read_eq 0
  rw [htext] at hread
  have he : T.ending 0 = .finish p := congrArg Prod.snd (hread.symm.trans hr)
  unfold Tiling.ending at he
  split at he
  · rw [htext, Nat.zero_add] at he
    exact Ending.finish.inj he
  · cases he

/-- A run fails at a position of the input that shows what went wrong. -/
theorem exists_shows_of_fails (hr : (Cursor.ofString input).read = (tokens, ending)) {f : Failure}
    (hf : State.start.Fails ending tokens f) :
    ∃ before after, input.toList = before ++ after ∧ byteSize before = f.position ∧
      f.fault.Shows tokens f.position after := by
  have hquote {p : Nat} (he : ending = .unterminated p) :
      ∃ before after, input.toList = before ++ after ∧ byteSize before = p ∧
        (Fault.unterminated p).Shows tokens p after := by
    subst he
    obtain ⟨before, behind, hsplit, hq, hp⟩ := lastQuote_of_read hr
    exact ⟨before, '"' :: behind, hsplit, hp, rfl, behind, rfl, hq⟩
  cases hf with
  | unterminated _ p hu => exact hquote rfl
  | unfinished _ p hu hfin =>
    exact ⟨input.toList, [], (List.append_nil _).symm, byteSize_of_read hr, shows_of_finish hfin _ _⟩
  | @refused s us u r _ vs hu href =>
    rcases State.failure_cases u r vs ending with hfail | ⟨p, -, he, hfail⟩
    · have hmem : u ∈ us ++ u :: vs := by simp
      obtain ⟨before, after, hsplit, hp, hs⟩ := exists_of_mem_read hr hmem
      rw [hfail]
      exact ⟨before, after, hsplit, hp, shows_of_blames hmem hs (State.blames_step href)⟩
    · rw [hfail]
      exact hquote he

end

/-- A parse error carries the input as it is and points between two of its characters, with as many blanks
    before the caret as there are characters before that place. What is left of the input there is what the
    fault tells of: nothing, a quote with no other behind it, the raw literal that stands for nothing, the mark
    that opens one level too many, or a token of the kind that was found. -/
theorem error_points_at_text (lookup : String → Option String) {input : String} {err : ParseError}
    (h : parseForest lookup input = .error err) :
    err.input = input ∧ err.position ≤ byteSize input.toList ∧
    ∃ before after, input.toList = before ++ after ∧ byteSize before = err.position ∧ err.column = before.length ∧
      err.message = "Parse error: " ++ err.fault.message ++ "\n" ++ input ++ "\n" ++
        String.ofList (List.replicate before.length ' ' ++ ['^']) ∧
      err.fault.Shows (Cursor.ofString input).read.1 err.position after := by
  have hr : (Cursor.ofString input).read = ((Cursor.ofString input).read.1, (Cursor.ofString input).read.2) := rfl
  obtain ⟨f, rfl, hf⟩ := exists_failure_of_parseForest h hr
  obtain ⟨before, after, hsplit, hp, hshows⟩ := exists_shows_of_fails hr (State.fails_of_run hf)
  have hcolumn := ParseError.column_eq (e := ⟨f, input⟩) hsplit hp
  refine ⟨rfl, ?_, before, after, hsplit, hp, hcolumn, ?_, hshows⟩
  · rw [hsplit, Text.byteSize_append, hp]
    exact Nat.le_add_right _ _
  · unfold ParseError.message ParseError.caretLine
    rw [hcolumn]

/-- The caret of a raw literal behind a character of two bytes. -/
theorem error_points_at_raw_literal :
    let lookup : String → Option String := fun _ => none
    let err : ParseError := ⟨⟨4, .invalidRaw ⟨"no"⟩⟩, "é=[:no"⟩
    parseForest lookup "é=[:no" = .error err ∧ ∃ before after, "é=[:no".toList = before ++ after ∧
      byteSize before = 4 ∧ err.column = before.length ∧ [':', 'n', 'o'] <+: after := by
  intro lookup err
  have hr : (Cursor.ofString "é=[:no").read =
      ([⟨.bare ['é'], 0⟩, ⟨.mark .assign, 2⟩, ⟨.mark .arrayOpen, 3⟩, ⟨.raw ['n', 'o'], 4⟩], .finish 7) := by
    decide +kernel
  have hparse : Expression.parse "é=[:no" = .error err := by
    rw [parse_eq_run, hr]
    rfl
  have h : parseForest lookup "é=[:no" = .error err := by
    rw [parseForest, hparse]
    rfl
  obtain ⟨-, -, before, after, hsplit, hp, hcolumn, -, hshows⟩ := error_points_at_text lookup h
  exact ⟨h, before, after, hsplit, hp, hcolumn, hshows⟩

end ObjectExpr
