/-
  ObjectExpr.Text.Quoted — a text between double quotes, for a message. Quotes, backslashes, NUL, tabs
  and line ends get a backslash; what has no visible form of its own is given by its code point.
-/

import ObjectExpr.Text.Combining
import ObjectExpr.Text.Unprintable

namespace ObjectExpr.Text

/-- The code point in lower-case hexadecimal, between braces. -/
def codePoint (c : Char) : List Char := '\\' :: 'u' :: '\x7b' :: (Nat.toDigits 16 c.toNat ++ ['\x7d'])

def quotedChar (c : Char) : List Char :=
  if c = '"' ∨ c = '\\' then ['\\', c]
  else if c = '\x00' then ['\\', '0']
  else if c = '\t' then ['\\', 't']
  else if c = '\n' then ['\\', 'n']
  else if c = '\r' then ['\\', 'r']
  else if isCombining c || isUnprintable c then codePoint c
  else [c]

def quoted (cs : List Char) : List Char := '"' :: (cs.flatMap quotedChar ++ ['"'])

end ObjectExpr.Text
