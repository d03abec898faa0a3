/-
  ObjectExpr.Yaml.Block — values as YAML in block style. A nested object is indented by two more than
  the object around it, an array in an object by nothing, and what stands in an array or behind a
  question mark follows the mark after one space. Empty arrays and objects are written as brackets.
  A name that holds a line end or is longer than 128 bytes stands behind a question mark.
-/

import ObjectExpr.Number.Layout
import ObjectExpr.Value
import ObjectExpr.Yaml.Scalar

namespace ObjectExpr.Yaml

/-- Floats are written out from `10 ^ (-5)` up to `10 ^ 16`; beyond, a positive exponent has no sign. -/
def floatLayout : Number.Layout := ⟨-5, 15, []⟩

/-- A scalar with its line end, unless its text already ends with one. -/
def closed (text : List Char) : List Char := if endsWithBreak text then text else text ++ ['\n']

def spaces (n : Nat) : List Char := List.replicate n ' '

/-- A leaf or an empty collection, to the end of its line. -/
def leafText (margin : Nat) : Value → List Char
  | .null => closed "null".toList
  | .boolean b => closed (if b then "true" else "false").toList
  | .integer n => closed (Number.integerText n.toInt)
  | .float x => closed (floatLayout.float x)
  | .string s => closed (stringText margin s.toList)
  | .array _ => closed ['[', ']']
  | .object _ => closed ['\x7b', '\x7d']

/-- Whether a name is written before its colon on one line. -/
def isSimpleKey (name : List Char) : Bool := !hasBreak name && Text.byteSize name ≤ 128

/-- The parts of a collection, one below the other; the first stands at `column` already. -/
def stacked (column : Nat) (parts : List (List Char)) : List Char := (spaces column).intercalate parts

mutual

/-- A value whose first line stands at `column` already. -/
def block (column : Nat) : Value → List Char
  | .array xs =>
    if xs.isEmpty then leafText column (.array []) else stacked column (items column xs)
  | .object fs =>
    if fs.isEmpty then leafText column (.object []) else stacked column (entries column fs)
  | v => leafText (max column 2) v

/-- A value behind the colon of a name that stands at `column`. -/
def afterColon (column : Nat) : Value → List Char
  | .array xs =>
    if xs.isEmpty then ' ' :: leafText column (.array [])
    else '\n' :: spaces column ++ stacked column (items column xs)
  | .object fs =>
    if fs.isEmpty then ' ' :: leafText column (.object [])
    else '\n' :: spaces (column + 2) ++ stacked (column + 2) (entries (column + 2) fs)
  | v => ' ' :: leafText (column + 2) v

/-- Elements behind dashes at `column`. -/
def items (column : Nat) : List Value → List (List Char)
  | [] => []
  | x :: xs => ('-' :: ' ' :: block (column + 2) x) :: items column xs

/-- Fields with their names at `column`. -/
def entries (column : Nat) : List (String × Value) → List (List Char)
  | [] => []
  | (name, v) :: fs =>
    let key := stringText (column + 2) name.toList
    (if isSimpleKey name.toList then key ++ ':' :: afterColon column v
      else '?' :: ' ' :: closed key ++ spaces column ++ ':' :: ' ' :: block (column + 2) v)
      :: entries column fs

end

def document (v : Value) : String := String.ofList (block 0 v.plain)

theorem document_integer (n : Int64) :
    document (.integer n) = String.ofList (Number.integerText n.toInt) ++ "\n" := by
  show String.ofList (closed (Number.integerText n.toInt)) = _
  rw [closed, endsWithBreak_integerText, if_neg Bool.false_ne_true, String.ofList_append]

end ObjectExpr.Yaml
