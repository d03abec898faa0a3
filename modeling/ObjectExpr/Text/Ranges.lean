/-
  ObjectExpr.Text.Ranges — classes of characters given as tables of closed ranges of code points.
-/

namespace ObjectExpr.Text

/-- Whether the code point of `c` lies in one of the closed ranges of `table`. -/
def within (table : List (Nat × Nat)) (c : Char) : Bool :=
  table.any fun (first, last) => first ≤ c.toNat && c.toNat ≤ last

theorem within_iff {table : List (Nat × Nat)} {c : Char} :
    within table c = true ↔ ∃ r ∈ table, r.1 ≤ c.toNat ∧ c.toNat ≤ r.2 := by
  simp [within]

end ObjectExpr.Text
