/-
  ObjectExpr.Number.Binary64 — floating-point numbers as their 64 bits: a sign, eleven bits of exponent
  and fifty-two of fraction. A finite one is `significand · 2 ^ scale`. `ofDecimal` rounds an exactly
  given decimal to the nearest of them, a half to the one with the even significand; beyond the
  largest lies infinity, and numbers too small vanish to zero. `read?` also knows the words inf,
  infinity and nan in any letter case; a minus in front sets the sign bit of all three.

  `equal` compares as numbers: the two zeros are equal, and not-a-number differs from itself.
-/

import ObjectExpr.Number.Decimal

namespace ObjectExpr.Number

structure Binary64 where
  bits : UInt64
  deriving DecidableEq, Repr

namespace Binary64

/-! ## The parts of a number -/

def signBit : Nat := 0x8000000000000000

/-- The lowest bit of the exponent, and the leading bit that a normal significand does not store. -/
def exponentUnit : Nat := 0x10000000000000

/-- The magnitude of infinity; those above it are not numbers. -/
def infiniteMagnitude : Nat := 0x7FF * exponentUnit

def isNegative (x : Binary64) : Bool := signBit ≤ x.bits.toNat

/-- The bits without the sign. They are in the order of the absolute values. -/
def magnitude (x : Binary64) : Nat := x.bits.toNat % signBit

def ofMagnitude (negative : Bool) (m : Nat) : Binary64 :=
  ⟨UInt64.ofNat (m + if negative then signBit else 0)⟩

def isNaN (x : Binary64) : Bool := infiniteMagnitude < x.magnitude

def isFinite (x : Binary64) : Bool := x.magnitude < infiniteMagnitude

def zero (negative : Bool) : Binary64 := ofMagnitude negative 0

def infinity (negative : Bool) : Binary64 := ofMagnitude negative infiniteMagnitude

def nan : Binary64 := ofMagnitude false (infiniteMagnitude + 0x8000000000000)

def significand (x : Binary64) : Nat :=
  if x.magnitude < exponentUnit then x.magnitude else x.magnitude % exponentUnit + exponentUnit

/-- The power of two that the significand counts. -/
def scale (x : Binary64) : Int := ((max (x.magnitude / exponentUnit) 1 : Nat) : Int) - 1075

/-- The absolute value of a finite number, as numerator and denominator. -/
def ratio (x : Binary64) : Nat × Nat :=
  if 0 ≤ x.scale then (x.significand <<< x.scale.toNat, 1) else (x.significand, 1 <<< (-x.scale).toNat)

/-- Equality of the numbers, not of the bits. -/
def equal (x y : Binary64) : Bool :=
  !x.isNaN && !y.isNaN && (x == y || (x.magnitude == 0 && y.magnitude == 0))

/-! ## Rounding -/

/-- The integer nearest to `num / den`, a half going to the even one. -/
def roundHalfEven (num den : Nat) : Nat :=
  let q := num / den
  if 2 * (num % den) < den ∨ (2 * (num % den) = den ∧ q % 2 = 0) then q else q + 1

/-- The largest `e` with `2 ^ e ≤ num / den`. -/
def log2Ratio (num den : Nat) : Int :=
  let e : Int := (Nat.log2 num : Int) - Nat.log2 den
  if (if 0 ≤ e then den <<< e.toNat ≤ num else den ≤ num <<< (-e).toNat) then e else e - 1

/-- The magnitude nearest to `num / den`: the significand gets fifty-three bits, fewer below the
    normal numbers. A carry out of the significand lands in the exponent, as it should. -/
def nearest (num den : Nat) : Nat :=
  let scale := max (log2Ratio num den - 52) (-1074)
  let significand :=
    if 0 ≤ scale then roundHalfEven num (den <<< scale.toNat)
    else roundHalfEven (num <<< (-scale).toNat) den
  min ((scale + 1074).toNat * exponentUnit + significand) infiniteMagnitude

/-- The magnitude nearest to `digits · 10 ^ exponent`. The bits of the digits and three for each ten
    decide the far ends: from `2 ^ 1024` on all is infinite, and below `2 ^ (-1075)` all is zero. -/
def nearestDecimal (digits : Nat) (exponent : Int) : Nat :=
  let bits := Nat.log2 digits + 3 * exponent
  if digits = 0 then 0
  else if 0 ≤ exponent then
    if 1024 ≤ bits then infiniteMagnitude else nearest (digits * Nat.pow 10 exponent.toNat) 1
  else if bits < -1076 then 0
  else nearest digits (Nat.pow 10 (-exponent).toNat)

def ofDecimal (d : Decimal) : Binary64 := ofMagnitude d.negative (nearestDecimal d.digits d.exponent)

/-! ## Reading -/

/-- The words for what no decimal can say. -/
def readWord? (negative : Bool) (cs : List Char) : Option Binary64 :=
  let word := String.ofList (cs.map Char.toLower)
  if word = "inf" ∨ word = "infinity" then some (infinity negative)
  else if word = "nan" then some (ofMagnitude negative nan.magnitude)
  else none

def read? (cs : List Char) : Option Binary64 :=
  let (negative, unsigned) := splitSign cs
  match Decimal.readUnsigned? negative unsigned with
  | some d => some (ofDecimal d)
  | none => readWord? negative unsigned

end Binary64

end ObjectExpr.Number
