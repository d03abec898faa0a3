/-
  ObjectExpr.Proofs.Tree.Spreading — an object written at once, or field by field. Whatever the tree is
  that an object with distinct names is written into, and at whatever path, writing its fields one after
  another at the same path comes to the same tree (`merge_nest_object`). The first of these writes wipes
  out what is no object on the way, as the one write does; the others find what it left.
-/

import ObjectExpr.Proofs.Tree.LastWrite

namespace ObjectExpr

namespace Fields

variable {α : Type}

/-- Puts a value under a name, in place of what the name held. -/
def set (fs : List (String × α)) (name : String) (a : α) : List (String × α) := put name a (fun _ => a) fs

theorem set_cons (n name : String) (old a : α) (fs : List (String × α)) :
    set ((n, old) :: fs) name a = if n = name then (n, a) :: fs else (n, old) :: set fs name a := rfl

theorem get?_set (fs : List (String × α)) (name : String) (a : α) : get? (set fs name a) name = some a := by
  rw [set, get?_put, if_pos rfl]
  cases get? fs name <;> rfl

/-- The second of two writes wins. -/
theorem set_set (fs : List (String × α)) (name : String) (a b : α) : set (set fs name a) name b = set fs name b := by
  induction fs with
  | nil => simp [set, put]
  | cons f fs ih =>
    obtain ⟨n, old⟩ := f
    by_cases h : n = name
    · rw [set_cons, if_pos h, set_cons, if_pos h, set_cons, if_pos h]
    · rw [set_cons, if_neg h, set_cons, if_neg h, set_cons, if_neg h, ih]

end Fields

namespace Tree

open Fields (names get?)

variable {gs : List (String × Tree)}

/-- A write merges with what stands under its name, and puts the result there. -/
theorem insert_fields (t : Tree) (name : String) (u : Tree) :
    insert t.fields name u = Fields.set t.fields name (merge (t.child name) u) := by
  rw [child]
  induction t.fields with
  | nil => exact congrArg (fun v => [(name, v)]) (merge_eq_right rfl u).symm
  | cons f fs ih =>
    obtain ⟨n, old⟩ := f
    rw [insert, Fields.put, Fields.set_cons, Fields.get?_cons]
    by_cases h : n = name
    · subst h
      rw [if_pos rfl, if_pos rfl, if_pos rfl]
      rfl
    · rw [if_neg h, if_neg h, if_neg (Ne.symm h)]
      exact congrArg _ ih

/-! ## Under one name -/

theorem merge_ofField_eq_set (t : Tree) (name : String) (u : Tree) :
    merge t (.ofField name u) = .object (Fields.set t.fields name (merge (t.child name) u)) := by
  rw [merge_ofField_eq, insert_fields]

theorem child_set (fs : List (String × Tree)) (name : String) (u : Tree) :
    (object (Fields.set fs name u)).child name = u := by
  rw [child, fields, Fields.get?_set, Option.getD_some]

/-- Writes under one name show under this name only, where they are merged one after another. -/
theorem foldl_merge_ofField (t : Tree) (name : String) (u : Tree) (us : List Tree) :
    (u :: us).foldl (fun t u => merge t (.ofField name u)) t =
      .object (Fields.set t.fields name ((u :: us).foldl merge (t.child name))) := by
  induction us generalizing t u with
  | nil => exact merge_ofField_eq_set t name u
  | cons v us ih =>
    rw [List.foldl_cons, ih, merge_ofField_eq_set, child_set]
    exact congrArg object (Fields.set_set _ _ _ _)

/-! ## Under many names -/

/-- Fields are written one after another. -/
theorem object_insertAll (fs gs : List (String × Tree)) :
    object (insertAll fs gs) = gs.foldl (fun t g => merge t (.ofField g.1 g.2)) (.object fs) := by
  induction gs generalizing fs with
  | nil => rfl
  | cons g gs ih => exact ih _

theorem merge_object_eq (hd : (names gs).Nodup) (t : Tree) :
    merge t (.object gs) = .object (insertAll t.fields gs) := by
  cases t with
  | object fs => exact merge_object fs gs
  | scalar s => exact congrArg object (insertAll_empty hd).symm
  | array xs => exact congrArg object (insertAll_empty hd).symm

/-- An object with distinct names that is written at a path is as good as its fields, written there one
    after another. -/
theorem merge_nest_object (hne : gs ≠ []) (hd : (names gs).Nodup) (t : Tree) (path : List String) :
    merge t (nest path (.object gs)) = gs.foldl (fun t g => merge t (nest path (.ofField g.1 g.2))) t := by
  obtain ⟨g, rest, rfl⟩ := List.exists_cons_of_ne_nil hne
  induction path generalizing t with
  | nil =>
    simp only [nest]
    rw [merge_object_eq hd, insertAll_cons, object_insertAll, List.foldl_cons, merge_ofField_eq]
  | cons name path ih =>
    have hfold := foldl_merge_ofField t name (nest path (.ofField g.1 g.2))
      (rest.map fun g => nest path (.ofField g.1 g.2))
    rw [← List.map_cons (f := fun g : String × Tree => nest path (.ofField g.1 g.2)), List.foldl_map,
      List.foldl_map] at hfold
    simp only [nest]
    rw [merge_ofField_eq_set, hfold, ih]

end Tree

end ObjectExpr
