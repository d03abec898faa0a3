/-
  ObjectExpr.Proofs.Tree.Regrouping — when three merges can be grouped either way. A leaf of the middle
  tree between objects of the outer two wipes out the left one if it comes first, and is itself wiped
  out if the right two are merged first. That is the only way in which the grouping shows: the two agree
  if and only if at each such path the right object takes nothing from the left one
  (`merge_assoc_iff`). So fields can be written one after another or made into an object first and then
  merged, if none of them puts an object where one before it put something else
  (`object_insertAll_eq_merge`).
-/

import Mathlib.Data.List.Induction
import ObjectExpr.Proofs.Tree.Paths

namespace ObjectExpr.Tree

open Fields (names get?)

/-- An object, then something else, then an object. -/
def Interrupted (x u y : Tree) : Prop := x.isObject = true ∧ u.isObject = false ∧ y.isObject = true

/-- Where `b` has something else between objects of `a` and `c`, the last takes nothing from the first. -/
def Harmless (a b c : Tree) : Prop :=
  ∀ path x u y, a.at? path = some x → b.at? path = some u → c.at? path = some y → Interrupted x u y → merge x y = y

variable {a b c : Tree} {fs gs hs : List (String × Tree)}

theorem Harmless.descend (h : Harmless (object fs) (object gs) (object hs)) {name : String} {x y z : Tree}
    (hx : get? fs name = some x) (hy : get? gs name = some y) (hz : get? hs name = some z) : Harmless x y z := by
  intro path x' u z' hx' hu hz'
  refine h (name :: path) x' u z' ?_ ?_ ?_
  · rw [at?_object_cons, hx]; exact hx'
  · rw [at?_object_cons, hy]; exact hu
  · rw [at?_object_cons, hz]; exact hz'

/-! ## Objects, name by name -/

theorem names_regroup (hg : (names gs).Nodup) (hh : (names hs).Nodup) :
    names (insertAll (insertAll fs gs) hs) = names (insertAll fs (insertAll gs hs)) := by
  rw [names_insertAll hh, names_insertAll hg, names_insertAll (nodup_insertAll hg hh), names_insertAll hh,
    List.filter_append, List.filter_filter, List.append_assoc]
  refine congrArg _ (congrArg _ (List.filter_congr fun name _ => ?_))
  by_cases hf : name ∈ names fs
  · simp [hf]
  · by_cases hg : name ∈ names gs <;> simp [hf, hg]

/-- Objects can be regrouped if what they hold under each name can. -/
theorem insertAll_assoc (hf : (names fs).Nodup) (hg : (names gs).Nodup) (hh : (names hs).Nodup)
    (h : ∀ name x y z, get? fs name = some x → get? gs name = some y → get? hs name = some z →
      (x.merge y).merge z = x.merge (y.merge z)) :
    insertAll (insertAll fs gs) hs = insertAll fs (insertAll gs hs) := by
  refine Fields.ext (names_regroup hg hh) (nodup_insertAll (nodup_insertAll hf hg) hh) fun name => ?_
  rw [get?_insertAll hh, get?_insertAll hg, get?_insertAll (nodup_insertAll hg hh), get?_insertAll hh]
  cases hx : get? fs name with
  | none => simp
  | some x =>
    cases hy : get? gs name with
    | none => simp
    | some y =>
      cases hz : get? hs name with
      | none => simp
      | some z => simp [h name x y z hx hy hz]

theorem assoc_descend (hg : (names gs).Nodup) (hh : (names hs).Nodup)
    (h : insertAll (insertAll fs gs) hs = insertAll fs (insertAll gs hs)) {name : String} {x y z : Tree}
    (hx : get? fs name = some x) (hy : get? gs name = some y) (hz : get? hs name = some z) :
    (x.merge y).merge z = x.merge (y.merge z) := by
  have := congrArg (get? · name) h
  simp only [get?_insertAll hh, get?_insertAll hg, get?_insertAll (nodup_insertAll hg hh), hx, hy, hz,
    Option.merge_some_some, Option.some.injEq] at this
  exact this

/-! ## Trees -/

/-- If every interruption is harmless, the grouping does not show. -/
theorem merge_assoc_of_harmless (ha : a.Distinct) (hb : b.Distinct) (hc : c.Distinct) (h : Harmless a b c) :
    (a.merge b).merge c = a.merge (b.merge c) := by
  induction ha generalizing b c with
  | scalar s => rw [merge_eq_right rfl b, merge_eq_right rfl (b.merge c)]
  | array hx => rw [merge_eq_right rfl b, merge_eq_right rfl (b.merge c)]
  | @object fs hd hf ih =>
    cases hco : c.isObject with
    | false => rw [merge_eq_right_of_leaf _ hco, merge_eq_right_of_leaf b hco, merge_eq_right_of_leaf _ hco]
    | true =>
      cases hbo : b.isObject with
      | false =>
        -- on the left `b` wipes out `fs`, on the right `c` wipes out `b` first
        rw [merge_eq_right_of_leaf _ hbo, merge_eq_right hbo]
        exact (h [] (object fs) b c (at?_nil _) (at?_nil _) (at?_nil _) ⟨rfl, hbo, hco⟩).symm
      | true =>
        obtain ⟨gs, rfl⟩ := isObject_iff.mp hbo
        obtain ⟨hs, rfl⟩ := isObject_iff.mp hco
        simp only [merge_object]
        refine congrArg _ (insertAll_assoc hd hb.nodup hc.nodup fun name x y z hx hy hz => ?_)
        exact ih _ (Fields.mem_of_get? hx) (hb.get? hy) (hc.get? hz) (h.descend hx hy hz)

/-- Where the grouping does not show, every interruption is harmless. -/
theorem harmless_of_merge_assoc (hb : b.Distinct) (hc : c.Distinct)
    (h : (a.merge b).merge c = a.merge (b.merge c)) : Harmless a b c := by
  intro path x u y hx hu hy hi
  induction path generalizing a b c with
  | nil =>
    rw [at?_nil] at hx hu hy
    cases hx; cases hu; cases hy
    rw [merge_eq_right_of_leaf _ hi.2.1, merge_eq_right hi.2.1] at h
    exact h.symm
  | cons name path ih =>
    obtain ⟨fs, x', rfl, hx', hx⟩ := exists_of_at?_cons hx
    obtain ⟨gs, u', rfl, hu', hu⟩ := exists_of_at?_cons hu
    obtain ⟨hs, y', rfl, hy', hy⟩ := exists_of_at?_cons hy
    simp only [merge_object, object.injEq] at h
    exact ih (hb.get? hu') (hc.get? hy') (assoc_descend hb.nodup hc.nodup h hx' hu' hy') hx hu hy

/-- Three merges can be regrouped just if, at every path at which the outer trees have objects and the
    middle one has none, the right object takes nothing from the left one; so always if there is no such
    path. -/
theorem merge_assoc_iff (ha : a.Distinct) (hb : b.Distinct) (hc : c.Distinct) :
    ((a.merge b).merge c = a.merge (b.merge c) ↔
      ∀ path x u y, a.at? path = some x → b.at? path = some u → c.at? path = some y → Interrupted x u y →
        x.merge y = y) ∧
    ((∀ path x u y, a.at? path = some x → b.at? path = some u → c.at? path = some y → ¬Interrupted x u y) →
      (a.merge b).merge c = a.merge (b.merge c)) :=
  ⟨⟨harmless_of_merge_assoc hb hc, merge_assoc_of_harmless ha hb hc⟩, fun h =>
    merge_assoc_of_harmless ha hb hc fun path x u y hx hu hy hi => absurd hi (h path x u y hx hu hy)⟩

/-- The grouping shows where a leaf comes between objects that differ. -/
theorem merge_not_assoc :
    let a := ofField "x" (ofField "p" (.scalar .null))
    let b := ofField "x" (.scalar .null)
    let c := ofField "x" (ofField "q" (.scalar .null))
    a.Distinct ∧ b.Distinct ∧ c.Distinct ∧ (a.merge b).merge c ≠ a.merge (b.merge c) := by
  intro a b c
  have ha : a.Distinct := .ofField _ (.ofField _ (.scalar _))
  have hb : b.Distinct := .ofField _ (.scalar _)
  have hc : c.Distinct := .ofField _ (.ofField _ (.scalar _))
  refine ⟨ha, hb, hc, fun h => ?_⟩
  have hx := (merge_assoc_iff ha hb hc).1.mp h ["x"] (ofField "p" (.scalar .null)) (.scalar .null)
    (ofField "q" (.scalar .null)) rfl rfl rfl ⟨rfl, rfl, rfl⟩
  have hp := congrArg (fun t => (t.at? ["p"]).isSome) hx
  exact absurd hp (by decide)

/-! ## Fields one after another -/

/-- No field has an object where a field before it has something else. -/
def Unclobbered (gs : List (String × Tree)) : Prop :=
  gs.Pairwise fun g h => ∀ path x y, (ofField g.1 g.2).at? path = some x → (ofField h.1 h.2).at? path = some y →
    x.isObject = false → y.isObject = false

theorem object_insertAll_snoc (fs gs : List (String × Tree)) (g : String × Tree) :
    object (insertAll fs (gs ++ [g])) = (object (insertAll fs gs)).merge (ofField g.1 g.2) := by
  rw [insertAll_append, merge_ofField]
  rfl

theorem exists_leaf_of_insertAll (hg : ∀ g ∈ gs, g.2.Distinct) {path : List String} {u : Tree}
    (h : (object (insertAll [] gs)).at? path = some u) (hu : u.isObject = false) :
    ∃ g ∈ gs, (ofField g.1 g.2).at? path = some u := by
  induction gs using List.reverseRecOn with
  | nil =>
    cases path with
    | nil => cases h; cases hu
    | cons name path => cases h
  | append_singleton gs g ih =>
    rw [object_insertAll_snoc] at h
    rcases leaf_of_merge (.ofField g.1 (hg g (by simp))) h hu with h | h
    · obtain ⟨g', hg', h⟩ := ih (fun g' hg' => hg g' (List.mem_append_left _ hg')) h
      exact ⟨g', List.mem_append_left _ hg', h⟩
    · exact ⟨g, by simp, h⟩

/-- Fields that do not clobber one another are as good as the object that they make. -/
theorem object_insertAll_eq_merge (hf : (object fs).Distinct) (hg : ∀ g ∈ gs, g.2.Distinct) (h : Unclobbered gs) :
    object (insertAll fs gs) = (object fs).merge (object (insertAll [] gs)) := by
  induction gs using List.reverseRecOn with
  | nil => rw [merge_object]; rfl
  | append_singleton gs g ih =>
    obtain ⟨hgs, -, hlast⟩ := List.pairwise_append.mp h
    have hg' : ∀ g' ∈ gs, g'.2.Distinct := fun g' hm => hg g' (List.mem_append_left _ hm)
    have hharm : Harmless (object fs) (object (insertAll [] gs)) (ofField g.1 g.2) := by
      intro path x u y _ hu hy hi
      obtain ⟨g', hm, hu⟩ := exists_leaf_of_insertAll hg' hu hi.2.1
      have hyo := hlast g' hm g (by simp) path u y hu hy hi.2.1
      rw [hi.2.2] at hyo
      cases hyo
    calc object (insertAll fs (gs ++ [g]))
      _ = (object (insertAll fs gs)).merge (ofField g.1 g.2) := object_insertAll_snoc fs gs g
      _ = ((object fs).merge (object (insertAll [] gs))).merge (ofField g.1 g.2) := by rw [ih hg' hgs]
      _ = (object fs).merge ((object (insertAll [] gs)).merge (ofField g.1 g.2)) :=
        merge_assoc_of_harmless hf (distinct_empty.insertAll hg') (.ofField g.1 (hg g (by simp))) hharm
      _ = (object fs).merge (object (insertAll [] (gs ++ [g]))) := by rw [object_insertAll_snoc []]

end ObjectExpr.Tree
