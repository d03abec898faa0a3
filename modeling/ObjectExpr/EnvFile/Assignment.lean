/-
  ObjectExpr.EnvFile.Assignment — one logical line of an env file: nothing, or a name and its value
  with equals sign between. The word export may stand in front. Parts of a value in quotes and parts
  outside are written side by side; a blank outside quotes ends the value, and only a comment may follow.
  Single quotes take everything as it is. Elsewhere a backslash stands before a character it protects,
  and a dollar sign before a name, in braces or without, names a variable. What follows a name without
  braces stands for itself, whatever it is.
-/

import ObjectExpr.Text.Alphanumeric
import ObjectExpr.Text.Blank

namespace ObjectExpr.EnvFile

open Text (trimStart trimEnd isAlphanumeric)

inductive Piece
  | char (c : Char)
  | named (name : String)
  deriving DecidableEq, Repr

structure Assignment where
  name : String
  value : List Piece
  deriving DecidableEq, Repr

/-! ## Values -/

/-- Where the next character of a value stands; `quoted` says whether double quotes are open. -/
inductive Spot
  | plain (quoted : Bool)
  | escape (quoted : Bool)
  | single
  | name (quoted : Bool) (read : List Char)
  | braced (quoted : Bool) (read : List Char)
  | behind
  deriving DecidableEq, Repr

/-- What a backslash and a character stand for. -/
def unescape? (c : Char) : Option Char :=
  if c = 'n' then some '\n'
  else if ['\\', '\x27', '"', '$', ' '].contains c then some c
  else none

def namedPiece (read : List Char) : Piece := .named (String.ofList read)

def readValue? : Spot → List Char → Option (List Piece)
  | .plain quoted, [] | .escape quoted, [] => if quoted then none else some []
  | .single, [] | .braced _ _, [] => none
  | .name quoted read, [] => if quoted then none else some [namedPiece read]
  | .behind, [] => some []
  | .behind, c :: cs =>
    if c = ' ' ∨ c = '\t' then readValue? .behind cs else if c = '#' then some [] else none
  | .escape quoted, c :: cs =>
    match unescape? c with
    | some d => (readValue? (.plain quoted) cs).map (.char d :: ·)
    | none => none
  | .single, c :: cs =>
    if c = '\x27' then readValue? (.plain false) cs else (readValue? .single cs).map (.char c :: ·)
  | .name quoted read, c :: cs =>
    if isAlphanumeric c then readValue? (.name quoted (read ++ [c])) cs
    else if c = '\x7b' ∧ read = [] then readValue? (.braced quoted []) cs
    else if c = '$' then (readValue? (.name quoted []) cs).map (namedPiece read :: ·)
    else (readValue? (.plain quoted) cs).map fun pieces => namedPiece read :: .char c :: pieces
  | .braced quoted read, c :: cs =>
    if c = '\x7d' then (readValue? (.plain quoted) cs).map (namedPiece read :: ·)
    else readValue? (.braced quoted (read ++ [c])) cs
  | .plain quoted, c :: cs =>
    if c = '$' then readValue? (.name quoted []) cs
    else if c = '\\' then readValue? (.escape quoted) cs
    else if c = '"' then readValue? (.plain (!quoted)) cs
    else if !quoted && c == '\x27' then readValue? .single cs
    else if !quoted && (c == ' ' || c == '\t') then readValue? .behind cs
    else (readValue? (.plain quoted) cs).map (.char c :: ·)

/-! ## Lines -/

def startsName (c : Char) : Bool := c.isAlpha || c == '_'

def continuesName (c : Char) : Bool := c.isAlphanum || c == '_' || c == '.'

def readName? : List Char → Option (List Char × List Char)
  | [] => none
  | c :: cs => if startsName c then some (c :: cs.takeWhile continuesName, cs.dropWhile continuesName) else none

/-- A name and what follows the equals sign behind it. -/
def readTarget? (cs : List Char) : Option (List Char × List Char) :=
  (readName? cs).bind fun (name, rest) =>
    match trimStart rest with
    | '=' :: value => some (name, value)
    | _ => none

/-- As `readTarget?`, with the word export in front or not; the word may also be the name itself. -/
def readExported? (cs : List Char) : Option (List Char × List Char) :=
  match readTarget? cs with
  | some target => some target
  | none =>
    (readName? cs).bind fun (name, rest) =>
      if name = "export".toList then readTarget? (trimStart rest) else none

inductive Line
  | nothing
  | malformed
  | sets (a : Assignment)
  deriving DecidableEq, Repr

/-- Whether nothing stands here but a comment. -/
def isVacant (cs : List Char) : Bool := cs.isEmpty || cs.head? == some '#'

def Line.read (line : List Char) : Line :=
  let text := trimStart (trimEnd line)
  if isVacant text then nothing
  else
    match readExported? text with
    | none => malformed
    | some (name, rest) =>
      let value := trimStart rest
      match if isVacant value then some [] else readValue? (.plain false) value with
      | none => malformed
      | some pieces => sets ⟨String.ofList name, pieces⟩

end ObjectExpr.EnvFile
