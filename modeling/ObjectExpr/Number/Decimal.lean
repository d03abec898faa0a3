/-
  ObjectExpr.Number.Decimal — numbers as they are written. An integer is an optional sign and ASCII
  digits, as many as one likes (`readInteger?`). A decimal is an optional sign, digits with at most
  one point among, before or after them, and an optional exponent (`Decimal.read?`); it is kept
  exactly, as digits and a power of ten. Only an exponent has a limit: once it has come to
  `exponentLimit`, the digits that follow are left out.

  `readInteger?_integerText`: the text of an integer reads back.
-/

namespace ObjectExpr.Number

/-! ## Integers -/

def naturalText (n : Nat) : List Char := Nat.toDigits 10 n

def integerText (n : Int) : List Char :=
  if n < 0 then '-' :: naturalText n.natAbs else naturalText n.natAbs

/-- The number that digits spell, from those of their halves, and so on down to `depth`. -/
def naturalOfHalves : Nat → List Char → Nat
  | 0, digits => Nat.ofDigitChars 10 digits 0
  | depth + 1, digits =>
    let half := digits.length / 2
    Nat.pow 10 (digits.length - half) * naturalOfHalves depth (digits.take half) +
      naturalOfHalves depth (digits.drop half)

/-- The number that digits spell. Many digits are halved until a few hundred are left. -/
def naturalOf (digits : List Char) : Nat := naturalOfHalves (Nat.log2 (digits.length / 256)) digits

/-- Whether a sign in front is a minus, and what follows the sign. -/
def splitSign : List Char → Bool × List Char
  | '-' :: cs => (true, cs)
  | '+' :: cs => (false, cs)
  | cs => (false, cs)

def isNatural (digits : List Char) : Bool := digits ≠ [] && digits.all Char.isDigit

def signed (negative : Bool) (n : Nat) : Int := if negative then -n else n

def readInteger? (cs : List Char) : Option Int :=
  let (negative, digits) := splitSign cs
  if isNatural digits then some (signed negative (naturalOf digits)) else none

theorem isDigit_of_mem_naturalText {n : Nat} : ∀ c ∈ naturalText n, c.isDigit = true := fun _ hc =>
  Nat.isDigit_of_mem_toDigits (by omega) (by omega) hc

theorem eq_minus_or_isDigit_of_mem_integerText {n : Int} : ∀ c ∈ integerText n, c = '-' ∨ c.isDigit = true := by
  intro c hc
  unfold integerText at hc
  split at hc
  · exact (List.mem_cons.mp hc).imp_right (isDigit_of_mem_naturalText c)
  · exact .inr (isDigit_of_mem_naturalText c hc)

theorem isNatural_naturalText (n : Nat) : isNatural (naturalText n) = true := by
  simp only [isNatural, Bool.and_eq_true, List.all_eq_true]
  exact ⟨decide_eq_true Nat.toDigits_ne_nil, isDigit_of_mem_naturalText⟩

theorem naturalOfHalves_eq (depth : Nat) (digits : List Char) :
    naturalOfHalves depth digits = Nat.ofDigitChars 10 digits 0 := by
  induction depth generalizing digits with
  | zero => rfl
  | succ depth ih =>
    rw [naturalOfHalves, ih, ih]
    conv => rhs; rw [← List.take_append_drop (digits.length / 2) digits, Nat.ofDigitChars_append,
      Nat.ofDigitChars_eq_ofDigitChars_zero, List.length_drop]
    rfl

theorem naturalOf_eq (digits : List Char) : naturalOf digits = Nat.ofDigitChars 10 digits 0 :=
  naturalOfHalves_eq _ digits

@[simp] theorem naturalOf_naturalText (n : Nat) : naturalOf (naturalText n) = n := by
  rw [naturalOf_eq, naturalText, Nat.ofDigitChars_ten_toDigits]

theorem splitSign_of_isNatural {ds : List Char} (h : isNatural ds = true) : splitSign ds = (false, ds) := by
  unfold splitSign
  split
  · simp [isNatural] at h
  · simp [isNatural] at h
  · rfl

theorem readInteger?_integerText (n : Int) : readInteger? (integerText n) = some n := by
  by_cases h : n < 0
  · simp only [readInteger?, integerText, h, if_true, splitSign, isNatural_naturalText, naturalOf_naturalText,
      signed, Option.some.injEq]
    omega
  · simp only [readInteger?, integerText, h, if_false, splitSign_of_isNatural (isNatural_naturalText _),
      isNatural_naturalText, naturalOf_naturalText, signed, if_true, Option.some.injEq]
    simp only [Bool.false_eq_true, if_false]
    omega

/-! ## Decimals -/

/-- The number `digits · 10 ^ exponent`, or its opposite; zero has a sign too. -/
structure Decimal where
  negative : Bool
  digits : Nat
  exponent : Int
  deriving DecidableEq, Repr

/-- An exponent takes no more digits once it has come to this. -/
def exponentLimit : Nat := 0x10000

/-- The number that the digits of an exponent spell, up to the digit that takes it to the limit. -/
def exponentOf (digits : List Char) : Nat :=
  digits.foldl (fun n c => if n < exponentLimit then 10 * n + (c.toNat - '0'.toNat) else n) 0

/-- The power of ten after the digits: nothing, or `e` or `E` and an integer. -/
def readExponent? : List Char → Option Int
  | [] => some 0
  | c :: cs =>
    if c = 'e' ∨ c = 'E' then
      let (negative, digits) := splitSign cs
      if isNatural digits then some (signed negative (exponentOf digits)) else none
    else none

/-- The digits after a point, if there is one, and what follows them. -/
def splitFraction : List Char → List Char × List Char
  | '.' :: cs => (cs.takeWhile Char.isDigit, cs.dropWhile Char.isDigit)
  | cs => ([], cs)

/-- A decimal without a sign in front. -/
def Decimal.readUnsigned? (negative : Bool) (cs : List Char) : Option Decimal :=
  let whole := cs.takeWhile Char.isDigit
  let (fraction, rest) := splitFraction (cs.dropWhile Char.isDigit)
  if whole ++ fraction = [] then none
  else (readExponent? rest).map fun e => ⟨negative, naturalOf (whole ++ fraction), e - fraction.length⟩

def Decimal.read? (cs : List Char) : Option Decimal :=
  let (negative, unsigned) := splitSign cs
  readUnsigned? negative unsigned

end ObjectExpr.Number
