/-
  ObjectExpr.Number.Shortest — the decimal to print for a finite floating-point number: the fewest
  digits that read back as that number, and of those the nearest to it, a tie going to the even last
  digit. Candidates are the two neighbours of the number on the grid of one digit, two digits, and so
  on; seventeen digits are always enough, and behind them stands the exact expansion.
-/

import ObjectExpr.Number.Binary64

namespace ObjectExpr.Number.Binary64

/-- The exponent of the first digit of `num / den`. -/
def log10Ratio (num den : Nat) : Int :=
  if den ≤ num then (naturalText (num / den)).length - 1
  else -((naturalText ((den + num - 1) / num - 1)).length : Int)

/-- The two neighbours of `num / den` among the multiples of `10 ^ grid`, the nearer one first. -/
def neighbours (num den : Nat) (grid : Int) : List Decimal :=
  let (num, den) := if 0 ≤ grid then (num, den * Nat.pow 10 grid.toNat) else (num * Nat.pow 10 (-grid).toNat, den)
  let below : Decimal := ⟨false, num / den, grid⟩
  let above : Decimal := ⟨false, num / den + 1, grid⟩
  if roundHalfEven num den = num / den then [below, above] else [above, below]

/-- The candidates with one digit, then those with two, up to seventeen. -/
def candidates (x : Binary64) : List Decimal :=
  let (num, den) := x.ratio
  (List.range 17).flatMap fun (n : Nat) => neighbours num den (log10Ratio num den - n)

/-- The absolute value with all its digits. -/
def exact (x : Binary64) : Decimal :=
  if 0 ≤ x.scale then ⟨false, x.significand <<< x.scale.toNat, 0⟩
  else ⟨false, x.significand * Nat.pow 5 (-x.scale).toNat, x.scale⟩

def readsBack (x : Binary64) (d : Decimal) : Bool := nearestDecimal d.digits d.exponent == x.magnitude

/-- The decimal to print for the absolute value of a finite number other than zero. -/
def shortest (x : Binary64) : Decimal := (x.candidates.find? x.readsBack).getD x.exact

end ObjectExpr.Number.Binary64
