/-
  ObjectExpr.Proofs.Tree.Height — how many objects and arrays lie in one another (`Tree.height`). A merge
  is no higher than the higher of its parts (`height_merge_le`), so a field that is written again never
  builds higher than the writes were (`fieldHeight_insertAll_le`).
-/

import ObjectExpr.Proofs.Tree.Paths

namespace ObjectExpr

namespace Tree

mutual

/-- The most objects and arrays that lie in one another. -/
def height : Tree → Nat
  | .scalar _ => 0
  | .object fs => fieldHeight fs + 1
  | .array xs => elementHeight xs + 1

def fieldHeight : List (String × Tree) → Nat
  | [] => 0
  | (_, t) :: fs => max t.height (fieldHeight fs)

def elementHeight : List Tree → Nat
  | [] => 0
  | x :: xs => max x.height (elementHeight xs)

end

theorem height_le_of_mem {fs : List (String × Tree)} {name : String} {t : Tree} (h : (name, t) ∈ fs) :
    t.height ≤ fieldHeight fs := by
  induction fs with
  | nil => cases h
  | cons f fs ih =>
    obtain ⟨n, u⟩ := f
    rw [fieldHeight]
    rcases List.mem_cons.mp h with h | h
    · obtain ⟨-, rfl⟩ := Prod.mk.inj h
      exact Nat.le_max_left _ _
    · exact Nat.le_trans (ih h) (Nat.le_max_right _ _)

@[simp] theorem height_ofField (name : String) (t : Tree) : (ofField name t).height = t.height + 1 := by
  simp [ofField, height, fieldHeight]

/-! ## Merging -/

/-- A write is no higher than what it puts there, if joining builds no higher. -/
theorem fieldHeight_put_le {name : String} {new : Tree} {join : Tree → Tree}
    (hj : ∀ old, (join old).height ≤ max old.height new.height) (fs : List (String × Tree)) :
    fieldHeight (Fields.put name new join fs) ≤ max (fieldHeight fs) new.height := by
  induction fs with
  | nil => simp [Fields.put, fieldHeight]
  | cons f fs ih =>
    obtain ⟨n, old⟩ := f
    rw [Fields.put]
    split
    · have := hj old
      simp only [fieldHeight]
      omega
    · simp only [fieldHeight]
      omega

mutual

theorem height_merge_le (a b : Tree) : (a.merge b).height ≤ max a.height b.height := by
  match b with
  | .scalar s => rw [merge_eq_right_of_leaf a rfl]; exact Nat.le_max_right _ _
  | .array xs => rw [merge_eq_right_of_leaf a rfl]; exact Nat.le_max_right _ _
  | .object gs =>
    cases a with
    | scalar s => rw [merge_eq_right rfl]; exact Nat.le_max_right _ _
    | array xs => rw [merge_eq_right rfl]; exact Nat.le_max_right _ _
    | object fs =>
      have := fieldHeight_insertAll_le fs gs
      rw [merge_object]
      simp only [height]
      omega

theorem fieldHeight_insertAll_le (fs gs : List (String × Tree)) :
    fieldHeight (insertAll fs gs) ≤ max (fieldHeight fs) (fieldHeight gs) := by
  match gs with
  | [] => exact Nat.le_max_left _ _
  | (name, t) :: gs =>
    have hput : fieldHeight (insert fs name t) ≤ max (fieldHeight fs) t.height :=
      fieldHeight_put_le (fun old => height_merge_le old t) fs
    have hrest := fieldHeight_insertAll_le (insert fs name t) gs
    rw [insertAll_cons]
    simp only [fieldHeight]
    omega

end

end Tree

end ObjectExpr
