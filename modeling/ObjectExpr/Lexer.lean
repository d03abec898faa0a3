/-
  ObjectExpr.Lexer — an expression read token by token. A `Cursor` is the text still to be read and
  the byte offset where it starts; `Cursor.pull` skips blanks and takes one lexeme, and at the end of
  the text it gives the end again and again. After an unterminated string nothing is left.

  A `Lexer` has two ways to pull. `nextToken` always answers; `next` counts as finished once it has
  itself given the end or the error, and gives nothing from then on. `Cursor.read` pulls to the end.
-/

import ObjectExpr.Text.Utf8
import ObjectExpr.Token.Scan

namespace ObjectExpr

open Text (isBlank byteSize)

/-- How a text ends as a sequence of tokens: at its end, or at a quote that is never closed. -/
inductive Ending
  | finish (position : Nat)
  | unterminated (position : Nat)
  deriving DecidableEq, Repr

inductive Pull
  | token (t : Token)
  | last (e : Ending)
  deriving DecidableEq, Repr

def Pull.isLast : Pull → Bool
  | token _ => false
  | last _ => true

structure Cursor where
  rest : List Char
  offset : Nat
  deriving DecidableEq, Repr

namespace Cursor

def ofString (input : String) : Cursor := ⟨input.toList, 0⟩

/-- Past everything. -/
def atEnd (c : Cursor) : Cursor := ⟨[], c.offset + byteSize c.rest⟩

def skipBlanks (c : Cursor) : Cursor :=
  ⟨c.rest.dropWhile isBlank, c.offset + byteSize (c.rest.takeWhile isBlank)⟩

/-- One token from a cursor that stands at no blank. -/
def take (c : Cursor) : Pull × Cursor :=
  match c.rest with
  | [] => (.last (.finish c.offset), c)
  | d :: ds =>
    match Lexeme.scan d ds with
    | some (l, rest) => (.token ⟨l, c.offset⟩, ⟨rest, c.offset + byteSize l.source⟩)
    | none => (.last (.unterminated c.offset), c.atEnd)

def pull (c : Cursor) : Pull × Cursor := c.skipBlanks.take

theorem length_skipBlanks_le (c : Cursor) : c.skipBlanks.rest.length ≤ c.rest.length :=
  (List.dropWhile_sublist _).length_le

theorem length_take_lt {c next : Cursor} {t : Token} (h : c.take = (.token t, next)) :
    next.rest.length < c.rest.length := by
  unfold take at h
  split at h
  · cases h
  · next d ds hr =>
    split at h
    · next l rest hs =>
      obtain ⟨-, rfl⟩ := Prod.mk.inj h
      have := Lexeme.length_rest_of_scan hs
      simp only [hr, List.length_cons]
      omega
    · cases h

/-- A token leaves less to read. -/
theorem length_pull_lt {c next : Cursor} {t : Token} (h : c.pull = (.token t, next)) :
    next.rest.length < c.rest.length :=
  Nat.lt_of_lt_of_le (length_take_lt h) c.length_skipBlanks_le

/-- Every token up to the end, and the end. -/
def read (c : Cursor) : List Token × Ending :=
  match _h : c.pull with
  | (.token t, next) =>
    let (ts, e) := next.read
    (t :: ts, e)
  | (.last e, _) => ([], e)
termination_by c.rest.length
decreasing_by all_goals exact length_pull_lt _h

theorem read_of_token {c next : Cursor} {t : Token} (h : c.pull = (.token t, next)) :
    c.read = (t :: next.read.1, next.read.2) := by
  rw [read]
  split
  · next h' => rw [h] at h'; cases h'; rfl
  · next h' => rw [h] at h'; cases h'

theorem read_of_last {c next : Cursor} {e : Ending} (h : c.pull = (.last e, next)) : c.read = ([], e) := by
  rw [read]
  split
  · next h' => rw [h] at h'; cases h'
  · next h' => rw [h] at h'; cases h'; rfl

end Cursor

/-! ## Two ways to pull -/

/-- An expression under way; `finished` says that `next` has given the last there is. -/
structure Lexer where
  input : String
  cursor : Cursor
  finished : Bool
  deriving DecidableEq, Repr

namespace Lexer

def ofString (input : String) : Lexer := ⟨input, .ofString input, false⟩

def nextToken (l : Lexer) : Pull × Lexer := (l.cursor.pull.1, { l with cursor := l.cursor.pull.2 })

def next (l : Lexer) : Option Pull × Lexer :=
  if l.finished then (none, l)
  else (some l.nextToken.1, { l.nextToken.2 with finished := l.nextToken.1.isLast })

/-- The results of `n` pulls, and the lexer after them. -/
def skip (l : Lexer) : Nat → List Pull × Lexer
  | 0 => ([], l)
  | n + 1 =>
    let (pull, l) := l.nextToken
    let (pulls, l) := l.skip n
    (pull :: pulls, l)

end Lexer

end ObjectExpr
