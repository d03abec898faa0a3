/-
  ObjectExpr.ParseError — what can be wrong with an expression (`Fault`), and the report that shows it:
  the whole expression with a caret under the place. The column of the caret counts characters; a
  position past the end counts as the end, and one inside a character is its own column.
-/

import ObjectExpr.Scalar
import ObjectExpr.Text.Utf8
import ObjectExpr.Token

namespace ObjectExpr

/-- How many levels of objects, arrays and dotted names may be open at once. -/
def maxDepth : Nat := 128

inductive Fault
  | unterminated (position : Nat)
  | unexpectedEnd
  | unexpected (found : Kind)
  | expected (wanted found : Kind)
  | unclosedArray
  | unclosedObject
  | invalidRaw (e : InvalidRaw)
  | tooDeep
  deriving DecidableEq, Repr

def Fault.message : Fault → String
  | unterminated _ => "unterminated string: missing closing quote"
  | unexpectedEnd => "unexpected end of input"
  | unexpected found => "unexpected input: " ++ found.describe
  | expected wanted found => "was expecting " ++ wanted.describe ++ ", found " ++ found.describe
  | unclosedArray => "unclosed array"
  | unclosedObject => "unclosed object"
  | invalidRaw e => e.message
  | tooDeep => "nesting deeper than " ++ String.ofList (Number.naturalText maxDepth) ++ " levels"

/-- A fault at a byte offset. -/
structure Failure where
  position : Nat
  fault : Fault
  deriving DecidableEq, Repr

structure ParseError extends Failure where
  input : String
  deriving DecidableEq, Repr

namespace ParseError

/-- How many characters stand before the caret. -/
def column (e : ParseError) : Nat :=
  let stop := min e.position (Text.byteSize e.input.toList)
  (Text.charsWithin e.input.toList stop).getD stop

def caretLine (e : ParseError) : String := String.ofList (List.replicate e.column ' ' ++ ['^'])

def message (e : ParseError) : String :=
  "Parse error: " ++ e.fault.message ++ "\n" ++ e.input ++ "\n" ++ e.caretLine

end ParseError

end ObjectExpr
