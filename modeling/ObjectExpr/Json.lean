/-
  ObjectExpr.Json — values as JSON text, on one line or indented by three spaces a level. Empty arrays
  and objects have nothing between their brackets in either form. In strings, quotes, backslashes and
  control characters are escaped, the common controls by a letter; all else stands as it is.
-/

import ObjectExpr.Number.Layout
import ObjectExpr.Value

namespace ObjectExpr.Json

/-! ## Leaves -/

/-- Floats are written out from `10 ^ (-5)` up to `10 ^ 16`; beyond, a positive exponent has its sign. -/
def floatLayout : Number.Layout := ⟨-5, 15, ['+']⟩

/-- The four hexadecimal digits of a control character. -/
def controlCode (c : Char) : List Char :=
  let digits := Nat.toDigits 16 c.toNat
  List.replicate (4 - digits.length) '0' ++ digits

def escapedChar (c : Char) : List Char :=
  if c = '"' ∨ c = '\\' then ['\\', c]
  else if c = '\n' then ['\\', 'n']
  else if c = '\r' then ['\\', 'r']
  else if c = '\t' then ['\\', 't']
  else if c = '\x08' then ['\\', 'b']
  else if c = '\x0c' then ['\\', 'f']
  else if c.toNat < 0x20 then '\\' :: 'u' :: controlCode c
  else [c]

def stringText (s : String) : List Char := '"' :: (s.toList.flatMap escapedChar ++ ['"'])

def booleanText (b : Bool) : List Char := (if b then "true" else "false").toList

/-! ## Documents -/

/-- How the parts of arrays and objects are set apart. -/
structure Style where
  /-- What stands before a part that is so many levels deep. -/
  line : Nat → List Char
  colon : List Char

def oneLine : Style := ⟨fun _ => [], [':']⟩

def indented : Style := ⟨fun depth => '\n' :: List.replicate (3 * depth) ' ', [':', ' ']⟩

mutual

def write (style : Style) (depth : Nat) : Value → List Char
  | .null => "null".toList
  | .boolean b => booleanText b
  | .integer n => Number.integerText n.toInt
  | .float x => floatLayout.float x
  | .string s => stringText s
  | .array [] => ['[', ']']
  | .array (x :: xs) =>
    '[' :: style.line (depth + 1) ++ write style (depth + 1) x ++ writeElements style (depth + 1) xs
      ++ style.line depth ++ [']']
  | .object [] => ['\x7b', '\x7d']
  | .object ((name, v) :: fs) =>
    '\x7b' :: style.line (depth + 1) ++ stringText name ++ style.colon ++ write style (depth + 1) v
      ++ writeFields style (depth + 1) fs ++ style.line depth ++ ['\x7d']

/-- The elements after the first. -/
def writeElements (style : Style) (depth : Nat) : List Value → List Char
  | [] => []
  | x :: xs => ',' :: style.line depth ++ write style depth x ++ writeElements style depth xs

/-- The fields after the first. -/
def writeFields (style : Style) (depth : Nat) : List (String × Value) → List Char
  | [] => []
  | (name, v) :: fs =>
    ',' :: style.line depth ++ stringText name ++ style.colon ++ write style depth v
      ++ writeFields style depth fs

end

def compact (v : Value) : String := String.ofList (write oneLine 0 v.plain)

def pretty (v : Value) : String := String.ofList (write indented 0 v.plain)

end ObjectExpr.Json
