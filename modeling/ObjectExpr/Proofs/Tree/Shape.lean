/-
  ObjectExpr.Proofs.Tree.Shape — trees of one shape: the same objects with the same names in the same
  order, the same arrays with as many elements, and leaves in the same places that are related by `R`
  (`Tree.SameShape`).

  Merging looks at names and at whether a tree is an object, never at a leaf, so trees of one shape merge
  into trees of one shape (`SameShape.merge`, `SameFields.insertAll`). Trees of one shape whose leaves are
  equal are equal (`SameShape.eq`, `SameElements.eq`).
-/

import ObjectExpr.Proofs.Tree.Paths

namespace ObjectExpr.Tree

variable {R : Scalar → Scalar → Prop}

mutual

/-- The trees differ in their leaves only, and these are related. -/
inductive SameShape (R : Scalar → Scalar → Prop) : Tree → Tree → Prop
  | scalar {s s' : Scalar} : R s s' → SameShape R (.scalar s) (.scalar s')
  | object {fs fs' : List (String × Tree)} : SameFields R fs fs' → SameShape R (.object fs) (.object fs')
  | array {xs xs' : List Tree} : SameElements R xs xs' → SameShape R (.array xs) (.array xs')

inductive SameFields (R : Scalar → Scalar → Prop) : List (String × Tree) → List (String × Tree) → Prop
  | nil : SameFields R [] []
  | cons (name : String) {t t' : Tree} {fs fs' : List (String × Tree)} : SameShape R t t' → SameFields R fs fs' →
      SameFields R ((name, t) :: fs) ((name, t') :: fs')

inductive SameElements (R : Scalar → Scalar → Prop) : List Tree → List Tree → Prop
  | nil : SameElements R [] []
  | cons {x x' : Tree} {xs xs' : List Tree} : SameShape R x x' → SameElements R xs xs' →
      SameElements R (x :: xs) (x' :: xs')

end

theorem SameShape.ofField (name : String) {t t' : Tree} (h : SameShape R t t') :
    SameShape R (.ofField name t) (.ofField name t') :=
  .object (.cons name h .nil)

/-! ## Equal leaves -/

mutual

theorem SameShape.eq {t t' : Tree} (h : SameShape R t t') (hR : ∀ s s', R s s' → s = s') : t = t' := by
  match h with
  | .scalar hs => rw [hR _ _ hs]
  | .object hf => rw [hf.eq hR]
  | .array hx => rw [hx.eq hR]

theorem SameFields.eq {fs fs' : List (String × Tree)} (h : SameFields R fs fs') (hR : ∀ s s', R s s' → s = s') :
    fs = fs' := by
  match h with
  | .nil => rfl
  | .cons name ht hf => rw [ht.eq hR, hf.eq hR]

theorem SameElements.eq {xs xs' : List Tree} (h : SameElements R xs xs') (hR : ∀ s s', R s s' → s = s') : xs = xs' := by
  match h with
  | .nil => rfl
  | .cons hx hxs => rw [hx.eq hR, hxs.eq hR]

end

/-! ## Merging -/

/-- A write finds the same name in the same place, or in none. -/
theorem SameFields.put {fs fs' : List (String × Tree)} (hf : SameFields R fs fs') (name : String) {t t' : Tree}
    (ht : SameShape R t t') {join join' : Tree → Tree}
    (hj : ∀ old old', SameShape R old old' → SameShape R (join old) (join' old')) :
    SameFields R (Fields.put name t join fs) (Fields.put name t' join' fs') := by
  induction fs generalizing fs' with
  | nil =>
    cases hf
    exact .cons name ht .nil
  | cons f fs ih =>
    cases hf with
    | cons n ho hf =>
      rw [Fields.put, Fields.put]
      by_cases h : n = name
      · rw [if_pos h, if_pos h]
        exact .cons n (hj _ _ ho) hf
      · rw [if_neg h, if_neg h]
        exact .cons n ho (ih hf)

mutual

theorem SameShape.merge {b b' : Tree} (hb : SameShape R b b') {a a' : Tree} (ha : SameShape R a a') :
    SameShape R (a.merge b) (a'.merge b') := by
  match hb with
  | .scalar hs =>
    rw [merge_eq_right_of_leaf a rfl, merge_eq_right_of_leaf a' rfl]
    exact .scalar hs
  | .array hx =>
    rw [merge_eq_right_of_leaf a rfl, merge_eq_right_of_leaf a' rfl]
    exact .array hx
  | .object hg =>
    cases ha with
    | scalar hs => exact .object hg
    | array hx => exact .object hg
    | object hf =>
      rw [merge_object, merge_object]
      exact .object (hg.insertAll hf)

theorem SameFields.insertAll {gs gs' : List (String × Tree)} (hg : SameFields R gs gs') {fs fs' : List (String × Tree)}
    (hf : SameFields R fs fs') : SameFields R (insertAll fs gs) (insertAll fs' gs') := by
  match hg with
  | .nil => exact hf
  | .cons name ht hg =>
    rw [insertAll_cons, insertAll_cons]
    exact hg.insertAll (hf.put name ht fun _ _ ho => ht.merge ho)

end

end ObjectExpr.Tree
