/-
  ObjectExpr.Request — one run from an expression to documents: the arguments if there are any, else
  the input, and the format to write. Arguments win over an input.
-/

import ObjectExpr.Document
import ObjectExpr.Input

namespace ObjectExpr

structure Request where
  expressions : List String
  input : Option String
  format : Format
  deriving DecidableEq, Repr

inductive RequestError
  | parse (e : ParseError)
  | input (e : InputError)
  | unreadable
  | noInput
  deriving DecidableEq, Repr

def RequestError.message : RequestError → String
  | parse e => e.message
  | input e => e.message
  | unreadable => "IO error: " ++ notTextMessage
  | noInput => "no input provided. Pass an expression as arguments or pipe it to stdin."

namespace Request

def forest (lookup : String → Option String) (r : Request) : Except RequestError Forest :=
  match r.expressions, r.input with
  | [], none => .error .noInput
  | [], some text => (parseBytes lookup (Text.encode text.toList)).mapError .input
  | lines, _ => (parseLines lookup lines).mapError .parse

def answer (lookup : String → Option String) (r : Request) : Except RequestError String :=
  (r.forest lookup).map (·.render r.format)

end Request

end ObjectExpr
