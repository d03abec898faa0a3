/-
  ObjectExpr.EnvFile.Line — the logical lines of an env file. A line goes on over its end while a quote
  is open. Outside quotes, a number sign straight after a single blank starts a comment, which ends the
  line where it starts; a second blank stands for no such blank. Lines that start with a number sign are
  left out. It is a fault if the file ends in an open quote, or outside quotes behind a backslash or a
  single blank with no line end after it.
-/

import ObjectExpr.Text.Blank
import ObjectExpr.Text.Lines

namespace ObjectExpr.EnvFile

open Text (isBlank trimStart)

/-- What the characters before the next one have opened. -/
inductive Reach
  | outside
  | blank
  | escape
  | single
  | singleEscape
  | double
  | doubleEscape
  deriving DecidableEq, Repr

namespace Reach

/-- Outside quotes, behind no blank. -/
def opened (c : Char) : Reach :=
  if c = '\\' then escape else if c = '"' then double else if c = '\x27' then single else outside

def next : Reach → Char → Reach
  | outside, c => if isBlank c && c != '\n' && c != '\r' then blank else opened c
  | blank, c => opened c
  | escape, _ => outside
  | single, c => if c = '\\' then singleEscape else if c = '\x27' then outside else single
  | singleEscape, _ => single
  | double, c => if c = '\\' then doubleEscape else if c = '"' then outside else double
  | doubleEscape, _ => double

/-- What a line holds before a comment, and what is open at its end; none behind a comment. -/
def scan (r : Reach) : List Char → List Char × Option Reach
  | [] => ([], some r)
  | c :: cs =>
    if r = blank ∧ c = '#' then ([], none)
    else
      let (kept, last) := (r.next c).scan cs
      (c :: kept, last)

end Reach

def startsComment (line : List Char) : Bool := (trimStart line).head? == some '#'

/-- The logical lines, and whether the last of them is complete. `pending` is what is read of the
    first of them, and `r` what is open behind that. -/
def joinFrom (pending : List Char) (r : Reach) : List (List Char) → List (List Char) × Bool
  | [] => ([], r = .outside)
  | line :: rest =>
    if startsComment (pending ++ line) then joinFrom [] .outside rest
    else
      match r.scan line with
      | (kept, none) =>
        let (lines, complete) := joinFrom [] .outside rest
        ((pending ++ kept) :: lines, complete)
      | (_, some .outside) =>
        let (lines, complete) := joinFrom [] .outside rest
        (Text.dropEnd '\n' '\r' (pending ++ line) :: lines, complete)
      | (_, some r) => joinFrom (pending ++ line) r rest

/-- The bytes without a byte order mark in front. -/
def dropByteOrderMark : List UInt8 → List UInt8
  | 0xEF :: 0xBB :: 0xBF :: bytes => bytes
  | bytes => bytes

/-- The logical lines before any fault, and whether the file holds none: a line that is not UTF-8 is
    one, and so is a file that ends in the middle of a line. -/
def logicalLines (bytes : List UInt8) : List (List Char) × Bool :=
  let (texts, wellEncoded) := Text.decodeWhile (Text.linesWithEnds (dropByteOrderMark bytes))
  let (lines, complete) := joinFrom [] .outside texts
  (lines, wellEncoded && complete)

end ObjectExpr.EnvFile
