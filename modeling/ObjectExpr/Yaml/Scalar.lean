/-
  ObjectExpr.Yaml.Scalar — a string as a scalar of YAML. It is written plainly if it then reads as the
  same string: not as a keyword or a number (`needsQuotes`), and with nothing in it that means something
  in a block (`Shape`). Else it stands in single quotes, or in double quotes where it holds characters
  that must be escaped; a string with line ends is a literal block if its lines can stand as they are.
-/

import ObjectExpr.Number.Binary64
import ObjectExpr.Text.Utf8

namespace ObjectExpr.Yaml

open Number (Decimal Binary64)

/-! ## Strings that would read as something else -/

def keywords : List String :=
  ["null", "Null", "NULL", "~", "true", "True", "TRUE", "false", "False", "FALSE"]

/-- The words for the floats that no decimal can say. -/
def floatWords : List String :=
  [".inf", ".Inf", ".INF", "+.inf", "+.Inf", "+.INF", "-.inf", "-.Inf", "-.INF", ".nan", ".NaN", ".NAN"]

/-- The value of a digit in a base up to sixteen. -/
def digitValue? (base : Nat) (c : Char) : Option Nat :=
  let n := if c.isDigit then c.toNat - '0'.toNat else c.toLower.toNat - 'a'.toNat + 10
  if (c.isDigit || c.isAlpha) && n < base then some n else none

/-- The first number that needs more than 128 bits. -/
def wideLimit : Nat := 0x100000000000000000000000000000000

/-- The number that digits of a base spell, or `wideLimit` if that is less; there is at least one digit. -/
def naturalIn? (base : Nat) (cs : List Char) : Option Nat :=
  if cs = [] then none
  else
    cs.foldl (fun acc c => acc.bind fun n => (digitValue? base c).map fun d => min (base * n + d) wideLimit) (some 0)

/-- The base that is written as a zero and a letter in front of the digits. -/
def base? : Char → Option Nat
  | 'x' => some 16
  | 'o' => some 8
  | 'b' => some 2
  | _ => none

/-- An integer of 128 bits, with a sign or without one, in a base that is given in front. -/
def isBasedInteger (cs : List Char) : Bool :=
  let (negative, unsigned) := Number.splitSign cs
  match unsigned with
  | '0' :: letter :: digits =>
    match (base? letter).bind fun base => naturalIn? base digits with
    | some n => if negative then n ≤ 0x80000000000000000000000000000000 else n < wideLimit
    | none => false
  | _ => false

/-- Digits after a zero. -/
def isZeroLed (cs : List Char) : Bool :=
  match (Number.splitSign cs).2 with
  | '0' :: d :: ds => (d :: ds).all Char.isDigit
  | _ => false

def isFiniteDecimal (cs : List Char) : Bool :=
  match Decimal.read? cs with
  | some d => (Binary64.ofDecimal d).isFinite
  | none => false

def needsQuotes (cs : List Char) : Bool :=
  cs.isEmpty || keywords.contains (String.ofList cs) || floatWords.contains (String.ofList cs)
    || isFiniteDecimal cs || isZeroLed cs || isBasedInteger cs

/-! ## The shape of a string -/

def isBreak (c : Char) : Bool :=
  c == '\n' || c == '\r' || c == '\u0085' || c == '\u2028' || c == '\u2029'

theorem isBreak_eq_false_of_isDigit {c : Char} (h : c.isDigit = true) : isBreak c = false := by
  rw [← Bool.not_eq_true]
  intro hb
  simp only [isBreak, Bool.or_eq_true, beq_iff_eq] at hb
  rcases hb with (((rfl | rfl) | rfl) | rfl) | rfl <;> cases h

def isPrintable (c : Char) : Bool :=
  let n := c.toNat
  n == 0xA || (0x20 ≤ n && n ≤ 0x7E) || (0xA0 ≤ n && n ≤ 0xD7FF)
    || (0xE000 ≤ n && n ≤ 0xFFFD && n != 0xFEFF) || 0x10000 ≤ n

def isSpaceOrBreak (c : Char) : Bool := c == ' ' || isBreak c

/-- What ends a word: a blank, a line end, NUL, or nothing at all. -/
def endsToken : Option Char → Bool
  | none => true
  | some c => isSpaceOrBreak c || c == '\t' || c == '\x00'

/-- Whether `p` holds of two characters that stand side by side. -/
def sideBySide (p : Char → Char → Bool) (cs : List Char) : Bool := (cs.zip cs.tail).any fun (c, d) => p c d

def indicators : List Char :=
  ['#', ',', '[', ']', '\x7b', '\x7d', '&', '*', '!', '|', '>', '\x27', '"', '%', '@', '\x60']

/-- Whether the start of a string is that of something other than a plain scalar. -/
def startsIndicator (cs : List Char) : Bool :=
  match cs with
  | [] => false
  | c :: rest =>
    ['-', '-', '-'].isPrefixOf cs || ['.', '.', '.'].isPrefixOf cs || indicators.contains c
      || ((c == '?' || c == ':' || c == '-') && endsToken rest.head?)

/-- A colon that ends a word, after the first character. -/
def holdsColon : List Char → Bool
  | [] => false
  | c :: cs => (c == ':' && endsToken cs.head?) || holdsColon cs

/-- A number sign that starts a word. -/
def holdsComment (cs : List Char) : Bool := sideBySide (fun c d => endsToken (some c) && d == '#') cs

def holdsIndicator (cs : List Char) : Bool :=
  startsIndicator cs || holdsColon cs.tail || holdsComment cs

def breakThenSpace (cs : List Char) : Bool := sideBySide (fun c d => isBreak c && d == ' ') cs

def spaceThenBreak (cs : List Char) : Bool := sideBySide (fun c d => c == ' ' && isBreak d) cs

/-- Whether escapes are needed, whatever else is done. -/
def needsEscapes (cs : List Char) : Bool := cs.any (fun c => !isPrintable c) || spaceThenBreak cs

def hasBreak (cs : List Char) : Bool := cs.any isBreak

def hasSpacedEdge (cs : List Char) : Bool :=
  (cs.head?.map isSpaceOrBreak).getD false || (cs.getLast?.map isSpaceOrBreak).getD false

def canBeSingle (cs : List Char) : Bool := !needsEscapes cs && !breakThenSpace cs

def canBePlain (cs : List Char) : Bool :=
  canBeSingle cs && !hasSpacedEdge cs && !hasBreak cs && !holdsIndicator cs

def canBeLiteral (cs : List Char) : Bool := !needsEscapes cs && cs.getLast? != some ' '

inductive Style
  | plain
  | single
  | double
  | literal
  deriving DecidableEq, Repr

def styleOf (cs : List Char) : Style :=
  if cs.contains '\n' then if canBeLiteral cs then .literal else .double
  else if !needsQuotes cs && canBePlain cs then .plain
  else if canBeSingle cs then .single
  else .double

/-! ## Its text -/

/-- `cs` with `margin` spaces at the start of every line that holds something. -/
def indented (margin : Nat) : Bool → List Char → List Char
  | _, [] => []
  | atLineStart, c :: cs =>
    if isBreak c then c :: indented margin true cs
    else (if atLineStart then List.replicate margin ' ' else []) ++ c :: indented margin false cs

def endsWithBreak (cs : List Char) : Bool := (cs.getLast?.map isBreak).getD false

theorem endsWithBreak_eq_false {cs : List Char} (h : ∀ c ∈ cs, isBreak c = false) : endsWithBreak cs = false := by
  rw [endsWithBreak]
  cases hl : cs.getLast? with
  | none => rfl
  | some c => exact h c (List.mem_of_getLast? hl)

theorem endsWithBreak_integerText (n : Int) : endsWithBreak (Number.integerText n) = false := by
  refine endsWithBreak_eq_false fun c hc => ?_
  rcases Number.eq_minus_or_isDigit_of_mem_integerText c hc with rfl | hd
  · rfl
  · exact isBreak_eq_false_of_isDigit hd

def singleText (margin : Nat) (cs : List Char) : List Char :=
  let doubled := cs.flatMap fun c => if c = '\x27' then ['\x27', '\x27'] else [c]
  '\x27' :: indented margin false (doubled ++ ['\x27'])

/-- The escapes that have a letter. -/
def letterEscapes : List (Char × Char) :=
  [('\x00', '0'), ('\x07', 'a'), ('\x08', 'b'), ('\x09', 't'), ('\x0a', 'n'), ('\x0b', 'v'), ('\x0c', 'f'),
   ('\x0d', 'r'), ('\x1b', 'e'), ('"', '"'), ('\\', '\\'), ('\u0085', 'N'), ('\u2028', 'L'), ('\u2029', 'P')]

/-- A number in upper-case hexadecimal, with at least `width` digits. -/
def hexText (width n : Nat) : List Char :=
  let digits := (Nat.toDigits 16 n).map Char.toUpper
  List.replicate (width - digits.length) '0' ++ digits

def escapedChar (c : Char) : List Char :=
  if isPrintable c && !isBreak c && c != '"' && c != '\\' then [c]
  else
    match letterEscapes.lookup c with
    | some letter => ['\\', letter]
    | none =>
      if c.toNat ≤ 0xFF then '\\' :: 'x' :: hexText 2 c.toNat
      else if c.toNat ≤ 0xFFFF then '\\' :: 'u' :: hexText 4 c.toNat
      else '\\' :: 'U' :: hexText 8 c.toNat

def doubleText (cs : List Char) : List Char := '"' :: (cs.flatMap escapedChar ++ ['"'])

/-- What a literal block says of its edges: that its first line starts with a space or is empty, and
    whether it has no line end behind it or more than one. -/
def literalHeader (cs : List Char) : List Char :=
  let indent := if (cs.head?.map isSpaceOrBreak).getD false then ['2'] else []
  let chomp :=
    if !endsWithBreak cs then ['-']
    else if cs.length = 1 || endsWithBreak cs.dropLast then ['+']
    else []
  '|' :: (indent ++ chomp)

def literalText (margin : Nat) (cs : List Char) : List Char :=
  literalHeader cs ++ '\n' :: indented margin true cs

/-- A string as a scalar whose further lines are indented by `margin`. -/
def stringText (margin : Nat) (cs : List Char) : List Char :=
  match styleOf cs with
  | .plain => cs
  | .single => singleText margin cs
  | .double => doubleText cs
  | .literal => literalText margin cs

end ObjectExpr.Yaml
