/-
  ObjectExpr.Proofs.Lexer.Calls — the two ways to pull from one lexer, mixed as one likes. What is pulled
  again and again are the tokens, then the end or the open quote, and from then on the end of the text
  (`skip_eq_map_pullAt`). A call of either kind moves the cursor alike, and a call that gives nothing does
  not move it; so what the calls give is what so many pulls give, in order (`filterMap_calls`). Only `next`
  looks at the flag and only `next` sets it, so a call gives nothing just if it is a `next` behind a `next`
  that gave the last there is (`calls_eq_none_iff`).

  `calls_keep_order` says all this of a text from its start.
-/

import ObjectExpr.Proofs.Lexer.Tiling

namespace ObjectExpr

open Text (byteSize)

/-! ## Pulls one after another -/

/-- The pull at an index: a token, then how the text ends, and from then on the end of the text. -/
def pullAt (tokens : List Token) (ending : Ending) (stop index : Nat) : Pull :=
  (tokens.map .token ++ [.last ending])[index]?.getD (.last (.finish stop))

namespace Cursor

/-- Nothing is left behind the last pull, and the cursor stands where the text ends. -/
theorem next_of_pull_last {c next : Cursor} {e : Ending} (h : c.pull = (.last e, next)) : next = ⟨[], c.stop⟩ := by
  have hstop := c.stop_skipBlanks
  unfold pull take at h
  split at h
  · next hr =>
    obtain ⟨-, rfl⟩ := Prod.mk.inj h
    rw [stop, hr] at hstop
    exact congrArg₂ Cursor.mk hr hstop
  · split at h
    · cases h
    · obtain ⟨-, rfl⟩ := Prod.mk.inj h
      exact congrArg (Cursor.mk []) hstop

theorem read_nil (k : Nat) : read ⟨[], k⟩ = ([], .finish k) := read_of_last rfl

theorem stop_nil (k : Nat) : stop ⟨[], k⟩ = k := Nat.add_zero k

end Cursor

namespace Lexer

theorem skip_succ (l : Lexer) (n : Nat) :
    l.skip (n + 1) = (l.nextToken.1 :: (l.nextToken.2.skip n).1, (l.nextToken.2.skip n).2) := rfl

/-- What is pulled depends on where the cursor stands, and not on what `next` has given. -/
theorem skip_congr {l l' : Lexer} (h : l.cursor = l'.cursor) (n : Nat) : (l.skip n).1 = (l'.skip n).1 := by
  induction n generalizing l l' with
  | zero => rfl
  | succ n ih =>
    have hn : l.nextToken.2.cursor = l'.nextToken.2.cursor := congrArg (fun c => c.pull.2) h
    have hp : l.nextToken.1 = l'.nextToken.1 := congrArg (fun c => c.pull.1) h
    rw [skip_succ, skip_succ, hp, ih hn]

/-- Pulls one after another give the tokens, and then the end of the text for ever. -/
theorem skip_eq_map_pullAt (l : Lexer) (n : Nat) :
    (l.skip n).1 = (List.range n).map (pullAt l.cursor.read.1 l.cursor.read.2 l.cursor.stop) := by
  induction n generalizing l with
  | zero => rfl
  | succ n ih =>
    rw [skip_succ, List.range_succ_eq_map, List.map_cons, List.map_map, ih]
    cases hp : l.cursor.pull with
    | mk pull next =>
      have hpull : l.nextToken.1 = pull := congrArg Prod.fst hp
      have hnext : l.nextToken.2.cursor = next := congrArg Prod.snd hp
      rw [hpull, hnext]
      cases pull with
      | token t =>
        rw [Cursor.read_of_token hp, ← Cursor.stop_of_pull hp]
        rfl
      | last e =>
        obtain rfl := Cursor.next_of_pull_last hp
        rw [Cursor.read_of_last hp, Cursor.read_nil, Cursor.stop_nil]
        refine congrArg (List.cons _) (List.map_congr_left fun i _ => ?_)
        cases i <;> rfl

/-! ## Calls of both kinds -/

inductive Call
  | nextToken
  | next
  deriving DecidableEq, Repr

/-- What a call gives, and the lexer behind it. -/
def call (l : Lexer) : Call → Option Pull × Lexer
  | .nextToken => (some l.nextToken.1, l.nextToken.2)
  | .next => l.next

/-- What calls give one after another. -/
def calls (l : Lexer) : List Call → List (Option Pull)
  | [] => []
  | c :: cs => (l.call c).1 :: (l.call c).2.calls cs

theorem length_calls (l : Lexer) (cs : List Call) : (l.calls cs).length = cs.length := by
  induction cs generalizing l with
  | nil => rfl
  | cons c cs ih => rw [calls, List.length_cons, List.length_cons, ih]

/-- A call gives nothing and leaves the lexer as it is, or it pulls; and `next` then keeps in the flag
    whether that was the last. -/
theorem call_cases (l : Lexer) (c : Call) :
    (c = .next ∧ l.finished = true ∧ l.call c = (none, l)) ∨
    (c = .next ∧ l.finished = false ∧
      l.call c = (some l.nextToken.1, { l.nextToken.2 with finished := l.nextToken.1.isLast })) ∨
    (c = .nextToken ∧ l.call c = (some l.nextToken.1, l.nextToken.2)) := by
  cases c with
  | nextToken => exact .inr (.inr ⟨rfl, rfl⟩)
  | next =>
    cases hf : l.finished with
    | true => exact .inl ⟨rfl, rfl, by rw [call, next, if_pos hf]⟩
    | false => exact .inr (.inl ⟨rfl, rfl, by rw [call, next, hf]; rfl⟩)

/-- The calls that give something give what as many pulls give. -/
theorem filterMap_calls (l : Lexer) (cs : List Call) :
    (l.calls cs).filterMap id = (l.skip ((l.calls cs).filterMap id).length).1 := by
  induction cs generalizing l with
  | nil => rfl
  | cons c cs ih =>
    rw [calls]
    rcases l.call_cases c with ⟨-, -, h⟩ | ⟨-, -, h⟩ | ⟨-, h⟩
    · rw [h]
      exact ih l
    · rw [h, List.filterMap_cons_some (by rfl), List.length_cons, skip_succ]
      refine congrArg (List.cons _) ((ih _).trans (skip_congr ?_ _))
      rfl
    · rw [h, List.filterMap_cons_some (by rfl), List.length_cons, skip_succ]
      exact congrArg (List.cons _) (ih _)

/-- At this index is a call of `next` that gives the last there is. -/
def EndsAt (l : Lexer) (cs : List Call) (index : Nat) : Prop :=
  cs[index]? = some .next ∧ ∃ e, (l.calls cs)[index]? = some (some (.last e))

theorem endsAt_zero_iff {l : Lexer} {c : Call} {cs : List Call} :
    l.EndsAt (c :: cs) 0 ↔ c = .next ∧ ∃ e, (l.call c).1 = some (.last e) := by
  simp [EndsAt, calls]

/-- The flag is set just if it was before, or if the call was a `next` that gave the last. -/
theorem finished_call_iff {l : Lexer} {c : Call} (cs : List Call) :
    (l.call c).2.finished = true ↔ l.finished = true ∨ l.EndsAt (c :: cs) 0 := by
  rw [endsAt_zero_iff]
  rcases l.call_cases c with ⟨rfl, hf, h⟩ | ⟨rfl, hf, h⟩ | ⟨rfl, h⟩
  · simp [h, hf]
  · rw [h, hf]
    cases l.nextToken.1 <;> simp [Pull.isLast]
  · simp [h, nextToken]

/-- A call gives nothing just if it is a `next`, and the flag is set or an earlier `next` gave the last. -/
theorem calls_eq_none_iff (l : Lexer) (cs : List Call) (i : Nat) :
    (l.calls cs)[i]? = some none ↔ cs[i]? = some .next ∧ (l.finished = true ∨ ∃ j < i, l.EndsAt cs j) := by
  induction cs generalizing l i with
  | nil => simp [calls]
  | cons c cs ih =>
    cases i with
    | zero =>
      rcases l.call_cases c with ⟨rfl, hf, h⟩ | ⟨rfl, hf, h⟩ | ⟨rfl, h⟩ <;> simp [calls, *]
    | succ i =>
      rw [calls, List.getElem?_cons_succ, List.getElem?_cons_succ, ih, finished_call_iff cs]
      refine and_congr_right fun _ => ?_
      rw [or_assoc]
      refine or_congr_right ?_
      constructor
      · rintro (h | ⟨j, hj, h⟩)
        · exact ⟨0, Nat.succ_pos i, h⟩
        · exact ⟨j + 1, Nat.succ_lt_succ hj, h⟩
      · rintro ⟨j, hj, h⟩
        cases j with
        | zero => exact .inl h
        | succ j => exact .inr ⟨j, Nat.lt_of_succ_lt_succ hj, h⟩

end Lexer

/-- What is pulled from a text again and again are its tokens, each behind the one before it; then the end,
    or a quote that is never closed; and from then on the end, for ever. However the two kinds of calls are
    mixed, those that give something give these in order, none lost and none twice. A call gives nothing
    just if it is a `next`, and a `next` before it gave the end or the open quote. -/
theorem calls_keep_order (input : String) :
    ∃ tokens ending, (tokens.map Token.position ++ [ending.position]).Pairwise (· < ·) ∧
      (ending = .finish (byteSize input.toList) ∨ ∃ p, ending = .unterminated p) ∧
      (∀ n, ((Lexer.ofString input).skip n).1 =
        (List.range n).map (pullAt tokens ending (byteSize input.toList))) ∧
      ∀ cs : List Lexer.Call,
        ((Lexer.ofString input).calls cs).length = cs.length ∧
        ((Lexer.ofString input).calls cs).filterMap id =
          ((Lexer.ofString input).skip (((Lexer.ofString input).calls cs).filterMap id).length).1 ∧
        ∀ i, ((Lexer.ofString input).calls cs)[i]? = some none ↔
          cs[i]? = some .next ∧ ∃ j < i, (Lexer.ofString input).EndsAt cs j := by
  obtain ⟨T, hT, htext⟩ := Tiling.exists_fits input.toList
  have hread : (Cursor.ofString input).read = (T.tokens 0, T.ending 0) := by
    rw [← hT.read_eq 0, htext]
    rfl
  have hstop : (Cursor.ofString input).stop = byteSize input.toList := Nat.zero_add _
  refine ⟨T.tokens 0, T.ending 0, hT.pairwise_offsets 0, ?_, ?_, ?_⟩
  · unfold Tiling.ending
    split
    · exact .inl (by rw [htext, Nat.zero_add])
    · exact .inr ⟨_, rfl⟩
  · intro n
    have hskip := (Lexer.ofString input).skip_eq_map_pullAt n
    rwa [show (Lexer.ofString input).cursor = Cursor.ofString input from rfl, hread, hstop] at hskip
  · intro cs
    refine ⟨Lexer.length_calls _ cs, Lexer.filterMap_calls _ cs, ?_⟩
    intro i
    rw [Lexer.calls_eq_none_iff]
    simp [Lexer.ofString]

end ObjectExpr
