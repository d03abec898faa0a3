/-
  ObjectExpr.Input — an expression in pieces. Arguments of a command, or the lines of a text, are
  trimmed and joined by one space each, and then read as one expression; so a quoted string that goes
  on over a line end holds a space there.
-/

import ObjectExpr.Environment
import ObjectExpr.Expression.Build
import ObjectExpr.Text.Lines

namespace ObjectExpr

def joinLines (lines : List String) : String :=
  String.ofList ([' '].intercalate (lines.map fun line => Text.trim line.toList))

def parseLines (lookup : String → Option String) (lines : List String) : Except ParseError Forest :=
  parseForest lookup (joinLines lines)

inductive InputError
  | notText
  | parse (e : ParseError)
  deriving DecidableEq, Repr

/-- What is wrong with bytes that are no text. -/
def notTextMessage : String := "stream did not contain valid UTF-8"

def InputError.message : InputError → String
  | notText => "failed to read input: " ++ notTextMessage
  | parse e => e.message

/-- Every line is read before any of them is parsed. -/
def parseBytes (lookup : String → Option String) (bytes : List UInt8) : Except InputError Forest :=
  match Text.decodeLines? bytes with
  | none => .error .notText
  | some lines => (parseLines lookup lines).mapError .parse

end ObjectExpr
