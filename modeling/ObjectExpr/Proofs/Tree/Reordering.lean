/-
  ObjectExpr.Proofs.Tree.Reordering — trees that differ in the order of fields. `Reordered R` trees have the
  same arrays, and objects with the same names, at every depth, and leaves that are related by `R`; the
  fields of each object may stand in any order. Of objects with distinct names, that is to say that they have
  the same names and, under each, trees that are reordered again (`Reordered.get?`, `Reordered.of_get?`).

  A merge looks fields up by name, so the order does not show in what it finds: trees that are reordered merge
  to trees that are (`Reordered.merge`). Two writes at paths of which none is a prefix of the other come to the
  same but for the order (`reordered_merge_nest_comm`).
-/

import ObjectExpr.Proofs.Tree.Matching
import ObjectExpr.Proofs.Tree.Spreading

namespace ObjectExpr

namespace Tree

open Fields (names)

mutual

/-- The same tree but for the order of the fields of each object, with leaves that are related. -/
inductive Reordered (R : Scalar → Scalar → Prop) : Tree → Tree → Prop
  | scalar {s s' : Scalar} : R s s' → Reordered R (.scalar s) (.scalar s')
  | object {fs gs hs : List (String × Tree)} : ReorderedFields R fs gs → gs.Perm hs →
      Reordered R (.object fs) (.object hs)
  | array {xs xs' : List Tree} : ReorderedElements R xs xs' → Reordered R (.array xs) (.array xs')

/-- Fields of the same names in the same order, with trees that are reordered. -/
inductive ReorderedFields (R : Scalar → Scalar → Prop) : List (String × Tree) → List (String × Tree) → Prop
  | nil : ReorderedFields R [] []
  | cons (name : String) {t t' : Tree} {fs fs' : List (String × Tree)} : Reordered R t t' → ReorderedFields R fs fs' →
      ReorderedFields R ((name, t) :: fs) ((name, t') :: fs')

inductive ReorderedElements (R : Scalar → Scalar → Prop) : List Tree → List Tree → Prop
  | nil : ReorderedElements R [] []
  | cons {x x' : Tree} {xs xs' : List Tree} : Reordered R x x' → ReorderedElements R xs xs' →
      ReorderedElements R (x :: xs) (x' :: xs')

end

variable {R : Scalar → Scalar → Prop} {fs fs' gs gs' : List (String × Tree)} {t t' : Tree}

mutual

theorem Reordered.refl (hR : ∀ s, R s s) (t : Tree) : Reordered R t t := by
  match t with
  | .scalar s => exact .scalar (hR s)
  | .object fs => exact .object (ReorderedFields.refl hR fs) (.refl fs)
  | .array xs => exact .array (ReorderedElements.refl hR xs)

theorem ReorderedFields.refl (hR : ∀ s, R s s) (fs : List (String × Tree)) : ReorderedFields R fs fs := by
  match fs with
  | [] => exact .nil
  | (name, t) :: fs => exact .cons name (Reordered.refl hR t) (ReorderedFields.refl hR fs)

theorem ReorderedElements.refl (hR : ∀ s, R s s) (xs : List Tree) : ReorderedElements R xs xs := by
  match xs with
  | [] => exact .nil
  | x :: xs => exact .cons (Reordered.refl hR x) (ReorderedElements.refl hR xs)

end

theorem ReorderedElements.forall₂_iff {xs xs' : List Tree} :
    ReorderedElements R xs xs' ↔ List.Forall₂ (Reordered R) xs xs' := by
  constructor
  · intro h
    induction xs generalizing xs' with
    | nil => cases h; exact .nil
    | cons x xs ih => cases h with | cons hx h => exact .cons hx (ih h)
  · intro h
    induction h with
    | nil => exact .nil
    | cons hx _ ih => exact .cons hx ih

theorem reordered_scalar_iff {s s' : Scalar} : Reordered R (.scalar s) (.scalar s') ↔ R s s' := by
  refine ⟨fun h => ?_, .scalar⟩
  cases h with
  | scalar h => exact h

theorem reordered_array_iff {xs xs' : List Tree} :
    Reordered R (.array xs) (.array xs') ↔ List.Forall₂ (Reordered R) xs xs' := by
  rw [← ReorderedElements.forall₂_iff]
  refine ⟨fun h => ?_, .array⟩
  cases h with
  | array h => exact h

theorem Reordered.isObject (h : Reordered R t t') : t.isObject = t'.isObject := by
  cases h <;> rfl

theorem Reordered.ofField (name : String) (h : Reordered R t t') : Reordered R (.ofField name t) (.ofField name t') :=
  .object (.cons name h .nil) (.refl _)

/-! ## Through look-ups -/

theorem ReorderedFields.forall₂_iff : ReorderedFields R fs gs ↔ List.Forall₂ (Fields.SameName (Reordered R)) fs gs := by
  constructor
  · intro h
    induction fs generalizing gs with
    | nil => cases h; exact .nil
    | cons f fs ih => cases h with | cons name ht h => exact .cons (.mk name ht) (ih h)
  · intro h
    induction h with
    | nil => exact .nil
    | cons hfg _ ih => cases hfg with | mk name ht => exact .cons name ht ih

/-- Objects are reordered if they have the same names and, under each, trees that are. -/
theorem reordered_object_iff (hd : (names fs).Nodup) (hd' : (names gs).Nodup) :
    Reordered R (.object fs) (.object gs) ↔ Fields.Matched (Reordered R) fs gs := by
  rw [Fields.matched_iff_exists_perm hd hd']
  constructor
  · intro h
    cases h with
    | object hf hp => exact ⟨_, ReorderedFields.forall₂_iff.mp hf, hp⟩
  · rintro ⟨hs, hf, hp⟩
    exact .object (ReorderedFields.forall₂_iff.mpr hf) hp

theorem Reordered.perm_names (h : Reordered R (.object fs) (.object gs)) : (names fs).Perm (names gs) := by
  cases h with
  | object hf hp => exact Fields.names_eq_of_forall₂ (ReorderedFields.forall₂_iff.mp hf) ▸ Fields.perm_names hp

theorem Reordered.get? (h : Reordered R (.object fs) (.object gs)) (hd : (names gs).Nodup) (name : String) :
    Option.Rel (Reordered R) (Fields.get? fs name) (Fields.get? gs name) := by
  cases h with
  | object hf hp =>
    rw [Fields.get?_perm hp.symm hd name]
    exact Fields.rel_get?_of_forall₂ (ReorderedFields.forall₂_iff.mp hf) name

theorem Reordered.of_get? (hd : (names fs).Nodup) (hd' : (names gs).Nodup) (hn : (names fs).Perm (names gs))
    (h : ∀ name, Option.Rel (Reordered R) (Fields.get? fs name) (Fields.get? gs name)) :
    Reordered R (.object fs) (.object gs) :=
  (reordered_object_iff hd hd').mpr ⟨hn, h⟩

/-! ## Merging -/

theorem rel_merge {x x' y y' : Option Tree} (hx : Option.Rel (Reordered R) x x') (hy : Option.Rel (Reordered R) y y')
    (h : ∀ a a' b b', x = some a → x' = some a' → y = some b → y' = some b' → Reordered R a a' → Reordered R b b' →
      Reordered R (a.merge b) (a'.merge b')) :
    Option.Rel (Reordered R) (x.merge merge y) (x'.merge merge y') := by
  cases hx with
  | none => simpa using hy
  | some ha =>
    cases hy with
    | none => exact .some ha
    | some hb => exact .some (h _ _ _ _ rfl rfl rfl rfl ha hb)

theorem perm_names_insertAll (hg : (names gs).Nodup) (hg' : (names gs').Nodup) (hf : (names fs).Perm (names fs'))
    (hn : (names gs).Perm (names gs')) : (names (insertAll fs gs)).Perm (names (insertAll fs' gs')) := by
  have hmem : ∀ name ∈ names gs', (decide (name ∉ names fs)) = decide (name ∉ names fs') := by
    intro name _
    simp only [hf.mem_iff]
  rw [names_insertAll hg, names_insertAll hg', ← List.filter_congr hmem]
  exact hf.append (hn.filter _)

/-- The order of fields does not show in a merge. -/
theorem Reordered.merge {a a' b b' : Tree} (ha : Reordered R a a') (hb : Reordered R b b') (da : a.Distinct)
    (da' : a'.Distinct) (db : b.Distinct) (db' : b'.Distinct) : Reordered R (a.merge b) (a'.merge b') := by
  induction da generalizing a' b b' with
  | scalar s =>
    rw [merge_eq_right rfl, merge_eq_right ha.isObject.symm]
    exact hb
  | array hx =>
    rw [merge_eq_right rfl, merge_eq_right ha.isObject.symm]
    exact hb
  | @object fs hd hf ih =>
    obtain ⟨fs', rfl⟩ := isObject_iff.mp ha.isObject.symm
    cases hbo : b.isObject with
    | false =>
      rw [merge_eq_right_of_leaf _ hbo, merge_eq_right_of_leaf _ (hb.isObject ▸ hbo)]
      exact hb
    | true =>
      obtain ⟨gs, rfl⟩ := isObject_iff.mp hbo
      obtain ⟨gs', rfl⟩ := isObject_iff.mp (hb.isObject ▸ hbo)
      rw [merge_object, merge_object]
      refine .of_get? (nodup_insertAll hd db.nodup) (nodup_insertAll da'.nodup db'.nodup)
        (perm_names_insertAll db.nodup db'.nodup ha.perm_names hb.perm_names) fun name => ?_
      rw [get?_insertAll db.nodup, get?_insertAll db'.nodup]
      refine rel_merge (ha.get? da'.nodup name) (hb.get? db'.nodup name) fun x x' y y' hx hx' hy hy' hxx hyy => ?_
      exact ih _ (Fields.mem_of_get? hx) hxx hyy (da'.get? hx') (db.get? hy) (db'.get? hy')

theorem Reordered.insert (hf : Reordered R (.object fs) (.object fs')) (df : (Tree.object fs).Distinct)
    (df' : (Tree.object fs').Distinct) (name : String) (ht : Reordered R t t') (dt : t.Distinct) (dt' : t'.Distinct) :
    Reordered R (.object (insert fs name t)) (.object (insert fs' name t')) := by
  rw [← merge_ofField, ← merge_ofField]
  exact hf.merge (ht.ofField name) df df' (dt.ofField name) (dt'.ofField name)

/-! ## Writes at paths that part -/

theorem Distinct.child (h : t.Distinct) (name : String) : (t.child name).Distinct := by
  rw [Tree.child]
  cases hg : Fields.get? t.fields name with
  | none => exact .scalar _
  | some u =>
    cases t with
    | object fs => exact h.get? hg
    | scalar s => cases hg
    | array xs => cases hg

theorem Distinct.nodup_fields (h : t.Distinct) : (names t.fields).Nodup := by
  cases h with
  | object hd _ => exact hd
  | scalar s => exact List.nodup_nil
  | array hx => exact List.nodup_nil

theorem mem_names_insert {name m : String} {u : Tree} : m ∈ names (insert fs name u) ↔ m = name ∨ m ∈ names fs := by
  rw [names_insert]
  split
  · next h => exact ⟨.inr, fun hm => hm.elim (fun he => he ▸ h) id⟩
  · rw [List.mem_append, List.mem_singleton, or_comm]

theorem nodup_insert (h : (names fs).Nodup) (name : String) (u : Tree) : (names (insert fs name u)).Nodup := by
  have hname : (names [(name, u)]).Nodup := by simp
  exact nodup_insertAll h hname

theorem perm_names_insert_insert (hd : (names fs).Nodup) (n m : String) (u v : Tree) :
    (names (insert (insert fs n u) m v)).Perm (names (insert (insert fs m v) n u)) := by
  refine (List.perm_ext_iff_of_nodup (nodup_insert (nodup_insert hd n u) m v)
    (nodup_insert (nodup_insert hd m v) n u)).mpr fun name => ?_
  rw [mem_names_insert, mem_names_insert, mem_names_insert, mem_names_insert, or_left_comm]

/-- What stands under a name after two writes under it. -/
theorem get?_insert_insert (t : Tree) (name : String) (u v : Tree) :
    Fields.get? (insert (insert t.fields name u) name v) name = some (((t.child name).merge u).merge v) := by
  rw [insert_fields, ← fields_object (Fields.set _ _ _), insert_fields, child_set, Fields.get?_set]

/-- Writes under different names: each finds what it would find without the other. -/
theorem get?_insert_insert_of_ne {n m : String} (h : n ≠ m) (u v : Tree) (name : String) :
    Fields.get? (insert (insert fs n u) m v) name = Fields.get? (insert (insert fs m v) n u) name := by
  rw [get?_insert, get?_insert, get?_insert, get?_insert, get?_insert, get?_insert, if_neg h, if_neg h.symm]
  by_cases hn : name = n
  · subst hn
    rw [if_neg h, if_pos rfl, if_pos rfl]
  · rw [if_neg hn, if_neg hn]

theorem Reordered.refl_option (hR : ∀ s, R s s) (x : Option Tree) : Option.Rel (Reordered R) x x := by
  cases x with
  | none => exact .none
  | some t => exact .some (.refl hR t)

/-- Writes at paths of which none is a prefix of the other come to the same but for the order of fields. -/
theorem reordered_merge_nest_comm (hR : ∀ s, R s s) {p q : List String} (h : ¬p <+: q) (h' : ¬q <+: p) (v w : Tree)
    (ht : t.Distinct) :
    Reordered R ((t.merge (nest p v)).merge (nest q w)) ((t.merge (nest q w)).merge (nest p v)) := by
  induction p generalizing t q with
  | nil => exact absurd List.nil_prefix h
  | cons n p ih =>
    cases q with
    | nil => exact absurd List.nil_prefix h'
    | cons m q =>
      have hd := ht.nodup_fields
      rw [nest, nest, merge_ofField_eq, merge_ofField_eq, merge_ofField_eq, merge_ofField_eq]
      refine .of_get? (nodup_insert (nodup_insert hd _ _) _ _) (nodup_insert (nodup_insert hd _ _) _ _)
        (perm_names_insert_insert hd _ _ _ _) fun name => ?_
      rw [fields_object, fields_object]
      by_cases hnm : n = m
      · subst hnm
        rw [List.prefix_cons_inj] at h h'
        by_cases hn : name = n
        · subst hn
          rw [get?_insert_insert, get?_insert_insert]
          exact .some (ih h h' (ht.child name))
        · rw [get?_insert, if_neg hn, get?_insert, if_neg hn, get?_insert, if_neg hn, get?_insert, if_neg hn]
          exact Reordered.refl_option hR _
      · -- neither write sees the other
        rw [get?_insert_insert_of_ne hnm]
        exact Reordered.refl_option hR _

end Tree

end ObjectExpr
