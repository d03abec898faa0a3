/-
  ObjectExpr.Number.Layout — the text of a finite floating-point number in a given `Layout`: near one
  it is written out, always with a point and a digit after it; far from one it has one digit before
  the point, no point if that is the only digit, and an exponent. What counts as near and the mark
  before a positive exponent are up to the format that is written.
-/

import ObjectExpr.Number.Shortest

namespace ObjectExpr.Number

structure Layout where
  /-- The first and the last exponent of a number that is written out. -/
  least : Int
  most : Int
  /-- What stands before the digits of a positive exponent. -/
  plus : List Char

/-- Digits without the zeros at their end. -/
def significantDigits (n : Nat) : List Char := ((naturalText n).reverse.dropWhile (· == '0')).reverse

/-- `digits` written out, the first of them standing for `10 ^ exponent`. -/
def positional (digits : List Char) (exponent : Int) : List Char :=
  if exponent < 0 then '0' :: '.' :: (List.replicate (-exponent - 1).toNat '0' ++ digits)
  else
    let whole := exponent.toNat + 1
    let padded := digits ++ List.replicate (whole - digits.length) '0'
    padded.take whole ++ '.' :: (if padded.drop whole = [] then ['0'] else padded.drop whole)

def scientific (layout : Layout) (digits : List Char) (exponent : Int) : List Char :=
  let fraction := if digits.drop 1 = [] then [] else '.' :: digits.drop 1
  let mark := if exponent < 0 then [] else layout.plus
  digits.take 1 ++ fraction ++ 'e' :: (mark ++ integerText exponent)

def Layout.digits (layout : Layout) (d : Decimal) : List Char :=
  let exponent := d.exponent + (naturalText d.digits).length - 1
  let digits := significantDigits d.digits
  if layout.least ≤ exponent ∧ exponent ≤ layout.most then positional digits exponent
  else scientific layout digits exponent

def Layout.float (layout : Layout) (x : Binary64) : List Char :=
  let text := if x.magnitude = 0 then ['0', '.', '0'] else layout.digits x.shortest
  if x.isNegative then '-' :: text else text

end ObjectExpr.Number
