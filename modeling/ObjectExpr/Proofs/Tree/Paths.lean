/-
  ObjectExpr.Proofs.Tree.Paths — looking into a tree along a path of names, through objects only
  (`Tree.at?`), and trees in which no object has a name twice (`Tree.Distinct`). Merging keeps names
  distinct (`Distinct.merge`), and every tree that an expression builds has distinct names
  (`distinct_tree`). A leaf of a merge is a leaf of one of its parts (`leaf_of_merge`).
-/

import ObjectExpr.Expression.Build
import ObjectExpr.Proofs.Tree.Fields

namespace ObjectExpr.Tree

open Fields (names get?)

/-! ## Along a path -/

/-- What stands at the end of a path of names. -/
def at? : Tree → List String → Option Tree
  | t, [] => some t
  | .object fs, name :: path => (get? fs name).bind fun t => t.at? path
  | _, _ :: _ => none

@[simp] theorem at?_nil (t : Tree) : t.at? [] = some t := by
  cases t <;> rfl

@[simp] theorem at?_object_cons (fs : List (String × Tree)) (name : String) (path : List String) :
    (object fs).at? (name :: path) = (get? fs name).bind fun t => t.at? path := rfl

def isObject : Tree → Bool
  | object _ => true
  | _ => false

theorem isObject_iff {t : Tree} : t.isObject = true ↔ ∃ fs, t = .object fs := by
  cases t <;> simp [isObject]

theorem at?_of_not_isObject {t : Tree} (h : t.isObject = false) (name : String) (path : List String) :
    t.at? (name :: path) = none := by
  cases t with
  | object fs => cases h
  | _ => rfl

/-- A path that leads on leads through an object. -/
theorem exists_of_at?_cons {t u : Tree} {name : String} {path : List String} (h : t.at? (name :: path) = some u) :
    ∃ fs x, t = .object fs ∧ get? fs name = some x ∧ x.at? path = some u := by
  cases t with
  | object fs =>
    obtain ⟨x, hx, hu⟩ := Option.bind_eq_some_iff.mp h
    exact ⟨fs, x, rfl, hx, hu⟩
  | scalar s => cases h
  | array xs => cases h

theorem nest_append (names more : List String) (t : Tree) : nest (names ++ more) t = nest names (nest more t) := by
  induction names with
  | nil => rfl
  | cons name names ih => rw [List.cons_append, nest, nest, ih]

/-! ## Merging with what is no object -/

theorem merge_eq_right {a : Tree} (h : a.isObject = false) (b : Tree) : merge a b = b := by
  cases a with
  | object fs => cases h
  | _ => cases b <;> rfl

theorem merge_eq_right_of_leaf (a : Tree) {b : Tree} (h : b.isObject = false) : merge a b = b := by
  cases b with
  | object fs => cases h
  | _ => cases a <;> rfl

theorem isObject_merge (a b : Tree) : (merge a b).isObject = b.isObject := by
  cases a <;> cases b <;> rfl

/-! ## Distinct names -/

/-- No object in the tree has two fields of one name. -/
inductive Distinct : Tree → Prop
  | scalar (s : Scalar) : Distinct (.scalar s)
  | object {fs : List (String × Tree)} : (names fs).Nodup → (∀ f ∈ fs, Distinct f.2) → Distinct (.object fs)
  | array {xs : List Tree} : (∀ x ∈ xs, Distinct x) → Distinct (.array xs)

theorem distinct_object_iff {fs : List (String × Tree)} :
    (Tree.object fs).Distinct ↔ (names fs).Nodup ∧ ∀ f ∈ fs, f.2.Distinct :=
  ⟨fun | .object hd hf => ⟨hd, hf⟩, fun h => .object h.1 h.2⟩

theorem distinct_array_iff {xs : List Tree} : (Tree.array xs).Distinct ↔ ∀ x ∈ xs, x.Distinct :=
  ⟨fun | .array hx => hx, .array⟩

namespace Distinct

variable {fs gs : List (String × Tree)} {t a b : Tree}

theorem nodup (h : (Tree.object fs).Distinct) : (names fs).Nodup := by
  cases h with
  | object hd _ => exact hd

theorem get? {name : String} (h : (Tree.object fs).Distinct) (ht : Fields.get? fs name = some t) : t.Distinct := by
  cases h with
  | object _ hf => exact hf _ (Fields.mem_of_get? ht)

theorem of_get? (hd : (names fs).Nodup) (h : ∀ name t, Fields.get? fs name = some t → t.Distinct) :
    (Tree.object fs).Distinct :=
  .object hd fun f hf => h f.1 f.2 (Fields.get?_of_mem hd hf)

theorem ofField (name : String) (h : t.Distinct) : (Tree.ofField name t).Distinct :=
  .object (by simp) (by simpa using h)

theorem nest (path : List String) (h : t.Distinct) : (Tree.nest path t).Distinct := by
  induction path with
  | nil => exact h
  | cons name path ih => exact ih.ofField name

theorem merge (ha : a.Distinct) (hb : b.Distinct) : (a.merge b).Distinct := by
  induction ha generalizing b with
  | scalar s => rwa [merge_eq_right rfl]
  | array hx => rwa [merge_eq_right rfl]
  | @object fs hd hf ih =>
    cases hb with
    | scalar s => exact .scalar s
    | array hx => exact .array hx
    | @object gs hd' hg =>
      rw [merge_object]
      refine of_get? (nodup_insertAll hd hd') fun name t ht => ?_
      rw [get?_insertAll hd'] at ht
      cases hx : Fields.get? fs name with
      | none =>
        rw [hx, Option.merge_none_left] at ht
        exact (Distinct.object hd' hg).get? ht
      | some x =>
        cases hy : Fields.get? gs name with
        | none =>
          rw [hx, hy, Option.merge_none_right] at ht
          exact Option.some.inj ht ▸ hf _ (Fields.mem_of_get? hx)
        | some y =>
          rw [hx, hy, Option.merge_some_some] at ht
          exact Option.some.inj ht ▸ ih _ (Fields.mem_of_get? hx) ((Distinct.object hd' hg).get? hy)

theorem insert (h : (Tree.object fs).Distinct) (name : String) (ht : t.Distinct) :
    (Tree.object (Tree.insert fs name t)).Distinct :=
  h.merge (ht.ofField name)

theorem insertAll (h : (Tree.object fs).Distinct) (hg : ∀ g ∈ gs, g.2.Distinct) :
    (Tree.object (Tree.insertAll fs gs)).Distinct := by
  induction gs generalizing fs with
  | nil => exact h
  | cons g gs ih =>
    obtain ⟨ht, hg⟩ := List.forall_mem_cons.mp hg
    exact ih (h.insert g.1 ht) hg

end Distinct

theorem distinct_empty : (object []).Distinct := .object List.nodup_nil (by simp)

/-- A leaf of a merge is a leaf of one of its parts, at the same path. -/
theorem leaf_of_merge {a b u : Tree} (hb : b.Distinct) {path : List String} (h : (merge a b).at? path = some u)
    (hu : u.isObject = false) : a.at? path = some u ∨ b.at? path = some u := by
  induction path generalizing a b with
  | nil =>
    rw [at?_nil] at h
    obtain rfl := Option.some.inj h
    rw [isObject_merge] at hu
    exact .inr (by rw [at?_nil, merge_eq_right_of_leaf a hu])
  | cons name path ih =>
    cases hao : a.isObject with
    | false => rw [merge_eq_right hao] at h; exact .inr h
    | true =>
      obtain ⟨fs, rfl⟩ := isObject_iff.mp hao
      cases hbo : b.isObject with
      | false => rw [merge_eq_right_of_leaf _ hbo] at h; exact .inr h
      | true =>
        obtain ⟨gs, rfl⟩ := isObject_iff.mp hbo
        rw [merge_object, at?_object_cons, get?_insertAll hb.nodup] at h
        rw [at?_object_cons, at?_object_cons]
        cases hx : get? fs name with
        | none => rw [hx, Option.merge_none_left] at h; exact .inr h
        | some x =>
          cases hy : get? gs name with
          | none => rw [hx, hy, Option.merge_none_right] at h; exact .inl h
          | some y => rw [hx, hy, Option.merge_some_some] at h; exact ih (hb.get? hy) h

/-! ## What expressions build -/

section

variable (lookup : String → Option String)

mutual

theorem distinct_tree (t : Term) : (t.tree lookup).Distinct := by
  match t with
  | .text s => rw [Term.tree]; exact .scalar _
  | .typed t => rw [Term.tree]; exact .scalar _
  | .env name => rw [Term.tree]; exact .scalar _
  | .object fields => rw [Term.tree]; exact distinct_empty.insertAll (distinct_fieldTrees fields)
  | .array elements => rw [Term.tree]; exact .array (distinct_elementTrees elements)

theorem distinct_fieldTrees (fields : List (Path × Term)) : ∀ f ∈ fieldTrees lookup fields, f.2.Distinct := by
  match fields with
  | [] => simp [fieldTrees]
  | (path, t) :: fields =>
    rw [fieldTrees]
    exact List.forall_mem_cons.mpr ⟨(distinct_tree t).nest path.tail, distinct_fieldTrees fields⟩

theorem distinct_elementTrees (elements : List (Option Path × Term)) :
    ∀ x ∈ elementTrees lookup elements, x.Distinct := by
  match elements with
  | [] => simp [elementTrees]
  | (none, t) :: elements =>
    rw [elementTrees]
    exact List.forall_mem_cons.mpr ⟨distinct_tree t, distinct_elementTrees elements⟩
  | (some path, t) :: elements =>
    rw [elementTrees]
    exact List.forall_mem_cons.mpr ⟨(distinct_tree t).nest path.names, distinct_elementTrees elements⟩

end

end

end ObjectExpr.Tree

namespace ObjectExpr

/-- Fields are written into the object of the fields before them. -/
theorem tree_object_append {lookup : String → Option String} {fields₁ fields₂ : List (Path × Term)} :
    (Term.object (fields₁ ++ fields₂)).tree lookup =
      .object (Tree.insertAll (Tree.insertAll [] (fieldTrees lookup fields₁)) (fieldTrees lookup fields₂)) := by
  rw [Term.tree, fieldTrees_append, Tree.insertAll_append]

end ObjectExpr
