/-
  ObjectExpr.Text.Lines — the lines of some bytes. Cut behind every line feed they are the bytes again
  (`flatten_linesWithEnds`); after the last line feed there is no further line unless it holds
  something. `lines` drops the line feed at the end of each, and one carriage return before it.
-/

import ObjectExpr.Text.Utf8

namespace ObjectExpr.Text

/-- Puts a byte in front of the first line. -/
def consLine (b : UInt8) : List (List UInt8) → List (List UInt8)
  | [] => [[b]]
  | line :: lines => (b :: line) :: lines

/-- The lines with what ends them. -/
def linesWithEnds : List UInt8 → List (List UInt8)
  | [] => []
  | b :: bytes => if b = 0x0A then [b] :: linesWithEnds bytes else consLine b (linesWithEnds bytes)

/-- A line without its line feed, and without a carriage return before that. -/
def dropEnd {α : Type} [BEq α] (feed carriage : α) (line : List α) : List α :=
  if line.getLast? == some feed then
    if line.dropLast.getLast? == some carriage then line.dropLast.dropLast else line.dropLast
  else line

def lines (bytes : List UInt8) : List (List UInt8) := (linesWithEnds bytes).map (dropEnd 0x0A 0x0D)

/-- The lines as texts, if every one of them is UTF-8. -/
def decodeLines? (bytes : List UInt8) : Option (List String) :=
  (lines bytes).mapM fun line => (decode? line).map String.ofList

/-- The lines with what ends them, as texts, up to the first that is not UTF-8; and whether none was. -/
def decodeWhile : List (List UInt8) → List (List Char) × Bool
  | [] => ([], true)
  | line :: lines =>
    match decode? line with
    | none => ([], false)
    | some cs =>
      let (texts, allWell) := decodeWhile lines
      (cs :: texts, allWell)

theorem flatten_consLine (b : UInt8) (ls : List (List UInt8)) : (consLine b ls).flatten = b :: ls.flatten := by
  cases ls <;> rfl

theorem flatten_linesWithEnds (bytes : List UInt8) : (linesWithEnds bytes).flatten = bytes := by
  induction bytes with
  | nil => rfl
  | cons b bytes ih =>
    unfold linesWithEnds
    split
    · simp [ih]
    · rw [flatten_consLine, ih]

end ObjectExpr.Text
