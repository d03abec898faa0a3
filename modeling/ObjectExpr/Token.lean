/-
  ObjectExpr.Token — what an expression is made of. A `Lexeme` is one token as it is spelled in the
  text: a mark, a bare word, a quoted string, or a word after `:` (raw) or `^` (a variable). Bare and
  quoted words read the same, as literals; `Word` is a lexeme without its spelling, and it is all the
  grammar sees. `Kind` is the class of a token, or the end of the input, as messages name it.
-/

namespace ObjectExpr

/-- The characters that are tokens by themselves and end any bare word before them. -/
inductive Mark
  | assign | dot | objectOpen | objectClose | arrayOpen | arrayClose
  deriving DecidableEq, Repr

def Mark.char : Mark → Char
  | assign => '='
  | dot => '.'
  | objectOpen => '\x7b'
  | objectClose => '\x7d'
  | arrayOpen => '['
  | arrayClose => ']'

def Mark.all : List Mark := [assign, dot, objectOpen, objectClose, arrayOpen, arrayClose]

def Mark.ofChar? (c : Char) : Option Mark := all.find? (·.char == c)

@[simp] theorem Mark.ofChar?_char (m : Mark) : ofChar? m.char = some m := by cases m <;> rfl

theorem Mark.char_of_ofChar? {c : Char} {m : Mark} (h : ofChar? c = some m) : m.char = c := by
  simpa using List.find?_some h

inductive Kind
  | literal | raw | env | mark (m : Mark) | finish
  deriving DecidableEq, Repr

/-- The name of a kind in a message. -/
def Kind.describe : Kind → String
  | literal => "literal"
  | raw => "raw literal"
  | env => "environment reference"
  | mark m => String.ofList ['\x27', m.char, '\x27']
  | finish => "end of input"

/-- A token as the grammar sees it. -/
inductive Word
  | literal (text : String)
  | raw (text : String)
  | env (name : String)
  | mark (m : Mark)
  deriving DecidableEq, Repr

def Word.kind : Word → Kind
  | literal _ => .literal
  | raw _ => .raw
  | env _ => .env
  | mark m => .mark m

def Word.text : Word → String
  | literal text | raw text => text
  | env name => name
  | mark m => String.ofList [m.char]

/-- A token as it is spelled. -/
inductive Lexeme
  | mark (m : Mark)
  | bare (text : List Char)
  | quoted (text : List Char)
  | raw (text : List Char)
  | env (name : List Char)
  deriving DecidableEq, Repr

def Lexeme.source : Lexeme → List Char
  | mark m => [m.char]
  | bare text => text
  | quoted text => '"' :: (text ++ ['"'])
  | raw text => ':' :: text
  | env name => '^' :: name

def Lexeme.word : Lexeme → Word
  | mark m => .mark m
  | bare text | quoted text => .literal (String.ofList text)
  | raw text => .raw (String.ofList text)
  | env name => .env (String.ofList name)

/-- A lexeme at the byte offset where its spelling starts. -/
structure Token where
  lexeme : Lexeme
  position : Nat
  deriving DecidableEq, Repr

def Token.word (t : Token) : Word := t.lexeme.word

def Token.kind (t : Token) : Kind := t.word.kind

def Token.text (t : Token) : String := t.word.text

end ObjectExpr
