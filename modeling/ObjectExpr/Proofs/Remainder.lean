/-
  ObjectExpr.Proofs.Remainder — an expression parsed from where a lexer stands. However far it has read, the
  cursor stands in the text, so many bytes behind its start as it says, and what is left is the text from
  there on (`StandsIn.pull`). A run over tokens that stand further on comes to the same, and a failure
  stands further on by as much (`State.run_shift`). So what is left is parsed as it would be by itself, but
  for the places of faults and the input that is shown with them (`remainder_is_parsed_alone`).
-/

import ObjectExpr.Proofs.Grammar.Faults
import ObjectExpr.Proofs.Lexer.Calls

namespace ObjectExpr

open Text (byteSize)
open ObjectExpr.Parser

/-! ## Where a lexer stands -/

namespace Cursor

/-- What is left is left of this text, behind as many bytes as the offset says. -/
def StandsIn (cs : List Char) (c : Cursor) : Prop := ∃ before, cs = before ++ c.rest ∧ byteSize before = c.offset

variable {cs : List Char} {c : Cursor}

theorem standsIn_ofString (input : String) : (ofString input).StandsIn input.toList := ⟨[], rfl, rfl⟩

theorem StandsIn.pull (h : c.StandsIn cs) : c.pull.2.StandsIn cs := by
  obtain ⟨before, rfl, hb⟩ := h
  cases hp : c.pull with
  | mk pull next =>
    cases pull with
    | token t =>
      obtain ⟨read, hr, ho⟩ := exists_consumed hp
      refine ⟨before ++ read, ?_, ?_⟩
      · rw [hr, List.append_assoc]
      · rw [ho, Text.byteSize_append, hb]
    | last e =>
      obtain rfl := next_of_pull_last hp
      refine ⟨before ++ c.rest, (List.append_nil _).symm, ?_⟩
      rw [Text.byteSize_append, hb]
      rfl

end Cursor

namespace Lexer

theorem input_skip (l : Lexer) (n : Nat) : (l.skip n).2.input = l.input := by
  induction n generalizing l with
  | zero => rfl
  | succ n ih => exact ih l.nextToken.2

theorem standsIn_skip {cs : List Char} {l : Lexer} (h : l.cursor.StandsIn cs) (n : Nat) :
    (l.skip n).2.cursor.StandsIn cs := by
  induction n generalizing l with
  | zero => exact h
  | succ n ih => exact ih (l := l.nextToken.2) h.pull

end Lexer

/-! ## Failures further on -/

/-- A fault further on; only an open quote tells where it is. -/
def Fault.shift (k : Nat) : Fault → Fault
  | unterminated p => unterminated (k + p)
  | fault => fault

def Failure.shift (k : Nat) (f : Failure) : Failure := ⟨k + f.position, f.fault.shift k⟩

theorem Fault.shift_eq_self {fault : Fault} (h : ∀ p, fault ≠ .unterminated p) (k : Nat) : fault.shift k = fault := by
  cases fault with
  | unterminated p => exact absurd rfl (h p)
  | _ => rfl

namespace Parser.State

theorem failure_shift (k : Nat) (t : Token) {r : Refusal} (hr : ∀ p, r.fault ≠ .unterminated p) (ts : List Token)
    (e : Ending) : failure (t.shift k) r (ts.map (Token.shift k)) (e.shift k) = (failure t r ts e).shift k := by
  have htoken : Failure.shift k ⟨t.position, r.fault⟩ = ⟨(t.shift k).position, r.fault⟩ :=
    congrArg (Failure.mk _) (Fault.shift_eq_self hr k)
  cases ts with
  | cons u us => exact htoken.symm
  | nil =>
    cases e with
    | finish p => exact htoken.symm
    | unterminated p =>
      cases he : r.early with
      | true => simp only [failure, Ending.shift, List.map_nil, he, if_true, htoken]
      | false => simp only [failure, Ending.shift, List.map_nil, he, Bool.false_eq_true, if_false]; rfl

/-- Tokens that stand further on are read as they are, and a failure stands further on by as much. -/
theorem run_shift (k : Nat) (s : State) (e : Ending) (ts : List Token) :
    s.run (e.shift k) (ts.map (Token.shift k)) = (s.run e ts).mapError (Failure.shift k) := by
  induction ts generalizing s with
  | nil =>
    cases e with
    | unterminated p => rfl
    | finish p =>
      rw [List.map_nil, Ending.shift, run, run]
      cases hf : s.finish with
      | ok x => rfl
      | error fault =>
        have hfault := Fault.shift_eq_self (finish_ne_unterminated hf) k
        simp only [Except.mapError, Failure.shift, hfault]
  | cons t ts ih =>
    have hword : (t.shift k).word = t.word := rfl
    rw [List.map_cons, run, run, hword]
    cases hs : s.step t.word with
    | ok s' => exact ih s'
    | error r => exact congrArg Except.error (failure_shift k t (findsNoQuote_step s t.word r hs) ts e)

end Parser.State

/-! ## What is left by itself -/

theorem Cursor.expression_shift (k : Nat) (c : Cursor) :
    (c.shift k).expression = c.expression.mapError (Failure.shift k) := by
  rw [expression, read_shift]
  exact State.start.run_shift k c.read.2 c.read.1

theorem Cursor.eq_shift (c : Cursor) : c = (ofString (String.ofList c.rest)).shift c.offset := by
  rw [ofString, shift, String.toList_ofList, Nat.add_zero]

theorem Lexer.expression_eq (l : Lexer) :
    l.expression =
      (Expression.parse (String.ofList l.cursor.rest)).mapError fun e => ⟨e.toFailure.shift l.cursor.offset, l.input⟩ := by
  have hshift := Cursor.expression_shift l.cursor.offset (.ofString (String.ofList l.cursor.rest))
  rw [← Cursor.eq_shift] at hshift
  rw [expression, hshift]
  show _ = Except.mapError _ (Except.mapError _ (Cursor.ofString (String.ofList l.cursor.rest)).expression)
  cases (Cursor.ofString (String.ofList l.cursor.rest)).expression <;> rfl

/-- Behind so many pulls, whatever they gave, the cursor stands between two characters of the input. What is
    behind it comes to the trees that it comes to by itself, or to the same fault; the fault is further on by
    the bytes before the cursor, also where it tells of a place, and the whole input is shown with it. -/
theorem remainder_is_parsed_alone (lookup : String → Option String) (input : String) (n : Nat) :
    ∃ before after, input.toList = before ++ after ∧
      byteSize before = ((Lexer.ofString input).skip n).2.cursor.offset ∧
      ((Lexer.ofString input).skip n).2.expression.map (·.forest lookup) =
        (parseForest lookup (String.ofList after)).mapError fun e => ⟨e.toFailure.shift (byteSize before), input⟩ := by
  have hinput : ((Lexer.ofString input).skip n).2.input = input := Lexer.input_skip _ n
  obtain ⟨before, hsplit, hsize⟩ :=
    Lexer.standsIn_skip (l := .ofString input) (Cursor.standsIn_ofString input) n
  generalize ((Lexer.ofString input).skip n).2 = l at hinput hsplit hsize ⊢
  refine ⟨before, l.cursor.rest, hsplit, hsize, ?_⟩
  rw [l.expression_eq, hinput, hsize, parseForest]
  cases Expression.parse (String.ofList l.cursor.rest) <;> rfl

/-- A quote that is left open is told of from the start of the input, and behind it there is nothing left. -/
example :
    let l := Lexer.ofString "é= \"b"
    (l.skip 1).2.expression.mapError (·.toFailure) = .error ⟨4, .unterminated 4⟩ ∧ (l.skip 3).2.cursor = ⟨[], 6⟩ := by
  intro l
  exact ⟨by with_unfolding_all rfl, by with_unfolding_all rfl⟩

end ObjectExpr
