/-
  ObjectExpr.Proofs.Tree.Union — a merge is the deep union of its two parts, path by path. Where both have
  something, the merge has these two merged (`at?_merge_some`): so on the way down, as long as both have
  objects, it has an object with the names of the first and then the new ones of the second. At the place
  where they part (`PartsAt`), it has what the second has, or else what the first has, as it was
  (`at?_merge_of_partsAt`). There is such a place on every path along which they do not both have objects
  to the end (`exists_partsAt`).
-/

import Mathlib.Data.List.Induction
import ObjectExpr.Proofs.Tree.Paths

namespace ObjectExpr.Tree

open Fields (names get?)

variable {a b : Tree} {path q : List String}

theorem at?_append (t : Tree) (path below : List String) :
    t.at? (path ++ below) = (t.at? path).bind fun u => u.at? below := by
  induction path generalizing t with
  | nil => simp
  | cons name path ih =>
    cases t with
    | object fs =>
      rw [List.cons_append, at?_object_cons, at?_object_cons]
      cases get? fs name with
      | none => rfl
      | some u => exact ih u
    | scalar s => rfl
    | array xs => rfl

theorem Distinct.of_at? {t u : Tree} (h : t.Distinct) (hu : t.at? path = some u) : u.Distinct := by
  induction path generalizing t with
  | nil =>
    rw [at?_nil] at hu
    cases hu
    exact h
  | cons name path ih =>
    obtain ⟨fs, x, rfl, hx, hu⟩ := exists_of_at?_cons hu
    exact ih (h.get? hx) hu

/-- What both trees have at the end of a path is merged there. -/
theorem at?_merge_some (hb : b.Distinct) {x y : Tree} (hx : a.at? path = some x) (hy : b.at? path = some y) :
    (a.merge b).at? path = some (x.merge y) := by
  induction path generalizing a b with
  | nil =>
    rw [at?_nil] at hx hy
    cases hx
    cases hy
    rw [at?_nil]
  | cons name path ih =>
    obtain ⟨fs, x', rfl, hx', hx⟩ := exists_of_at?_cons hx
    obtain ⟨gs, y', rfl, hy', hy⟩ := exists_of_at?_cons hy
    rw [merge_object, at?_object_cons, get?_insertAll hb.nodup, hx', hy', Option.merge_some_some, Option.bind_some]
    exact ih (hb.get? hy') hx hy

/-! ## Where two trees part -/

def BothObjects (a b : Tree) (path : List String) : Prop :=
  ∃ fs gs, a.at? path = some (.object fs) ∧ b.at? path = some (.object gs)

/-- The shortest part of the path at whose end the trees do not both have an object. -/
structure PartsAt (a b : Tree) (path q : List String) : Prop where
  start : q <+: path
  parts : ¬BothObjects a b q
  shortest : ∀ r, r <+: path → r.length < q.length → BothObjects a b r

theorem exists_object_of_at?_append {t u : Tree} {name : String} {below : List String}
    (h : t.at? (path ++ name :: below) = some u) : ∃ fs, t.at? path = some (.object fs) := by
  rw [at?_append] at h
  obtain ⟨x, hx, hu⟩ := Option.bind_eq_some_iff.mp h
  obtain ⟨fs, -, rfl, -, -⟩ := exists_of_at?_cons hu
  exact ⟨fs, hx⟩

theorem BothObjects.of_prefix (h : BothObjects a b path) (hq : q <+: path) : BothObjects a b q := by
  obtain ⟨below, rfl⟩ := hq
  cases below with
  | nil => rwa [List.append_nil] at h
  | cons name below =>
    obtain ⟨fs, gs, hf, hg⟩ := h
    obtain ⟨fs', hf'⟩ := exists_object_of_at?_append hf
    obtain ⟨gs', hg'⟩ := exists_object_of_at?_append hg
    exact ⟨fs', gs', hf', hg'⟩

theorem exists_partsAt (h : ¬BothObjects a b path) : ∃ q, PartsAt a b path q := by
  induction path using List.reverseRecOn with
  | nil =>
    refine ⟨[], List.prefix_rfl, h, ?_⟩
    intro r _ hlt
    exact absurd hlt (Nat.not_lt_zero _)
  | append_singleton path name ih =>
    by_cases hp : BothObjects a b path
    · refine ⟨path ++ [name], List.prefix_rfl, h, ?_⟩
      intro r hr hlt
      have hle : r.length ≤ path.length := by
        rw [List.length_append, List.length_singleton] at hlt
        omega
      exact hp.of_prefix (List.prefix_of_prefix_length_le hr (List.prefix_append _ _) hle)
    · obtain ⟨q, hq⟩ := ih hp
      refine ⟨q, hq.start.trans (List.prefix_append _ _), hq.parts, ?_⟩
      intro r hr hlt
      have hle : r.length ≤ path.length := by
        have := hq.start.length_le
        omega
      exact hq.shortest r (List.prefix_of_prefix_length_le hr (List.prefix_append _ _) hle) hlt

/-- Two trees that are not both objects merge to the second one. -/
theorem merge_eq_right_of_not_both (h : ¬BothObjects a b []) : a.merge b = b := by
  by_cases ha : a.isObject = true
  · by_cases hb : b.isObject = true
    · obtain ⟨fs, rfl⟩ := isObject_iff.mp ha
      obtain ⟨gs, rfl⟩ := isObject_iff.mp hb
      exact absurd ⟨fs, gs, rfl, rfl⟩ h
    · exact merge_eq_right_of_leaf a (Bool.not_eq_true _ ▸ hb)
  · exact merge_eq_right (Bool.not_eq_true _ ▸ ha) b

theorem at?_merge_snoc (hb : b.Distinct) (h : BothObjects a b path) (name : String) :
    (a.merge b).at? (path ++ [name]) = (a.at? (path ++ [name])).merge merge (b.at? (path ++ [name])) := by
  obtain ⟨fs, gs, hf, hg⟩ := h
  have hm := at?_merge_some hb hf hg
  have hgs : (names gs).Nodup := (hb.of_at? hg).nodup
  rw [merge_object] at hm
  rw [at?_append, at?_append, at?_append, hm, hf, hg]
  simp only [Option.bind_some, at?_object_cons, at?_nil, Option.bind_fun_some, get?_insertAll hgs]

/-- At the place where two trees part, the merge has what the second has, or else what the first has. -/
theorem at?_merge_of_partsAt (hb : b.Distinct) (h : PartsAt a b path q) :
    (a.merge b).at? q = (b.at? q).or (a.at? q) := by
  cases q using List.reverseRecOn with
  | nil =>
    rw [merge_eq_right_of_not_both h.parts, at?_nil]
    rfl
  | append_singleton r name =>
    have hr : r <+: path := (List.prefix_append r [name]).trans h.start
    have hboth : BothObjects a b r := h.shortest r hr (by simp)
    rw [at?_merge_snoc hb hboth]
    cases hx : a.at? (r ++ [name]) with
    | none => rw [Option.merge_none_left, Option.or_none]
    | some x =>
      cases hy : b.at? (r ++ [name]) with
      | none => rfl
      | some y =>
        have hxy : ¬BothObjects x y [] := by
          intro hobjects
          obtain ⟨fs, gs, hf, hg⟩ := hobjects
          rw [at?_nil] at hf hg
          exact h.parts ⟨fs, gs, hx.trans hf, hy.trans hg⟩
        rw [Option.merge_some_some, merge_eq_right_of_not_both hxy]
        rfl

/-- Along a path on which two trees never part, their merge has an object with the names of the first
    and then those of the second that are new. Where they part, it has what the second has there, or else
    what the first has. -/
theorem merge_is_deep_union (hb : b.Distinct) (path : List String) :
    ((∀ q, ¬PartsAt a b path q) →
      ∃ fs gs hs, a.at? path = some (.object fs) ∧ b.at? path = some (.object gs) ∧
        (a.merge b).at? path = some (.object hs) ∧ names hs = names fs ++ (names gs).filter (· ∉ names fs)) ∧
    ∀ q, PartsAt a b path q → (a.merge b).at? q = (b.at? q).or (a.at? q) := by
  refine ⟨?_, ?_⟩
  · intro hnone
    have hboth : BothObjects a b path := by
      by_contra h
      obtain ⟨q, hq⟩ := exists_partsAt h
      exact hnone q hq
    obtain ⟨fs, gs, hf, hg⟩ := hboth
    have hm := at?_merge_some hb hf hg
    rw [merge_object] at hm
    exact ⟨fs, gs, insertAll fs gs, hf, hg, hm, names_insertAll (hb.of_at? hg).nodup⟩
  · intro q hq
    exact at?_merge_of_partsAt hb hq

/-- One name is in both trees, and they part below another one. -/
theorem merge_is_deep_union_of_two :
    let leaf : Tree := .scalar .null
    let a : Tree := .object [("x", .ofField "p" leaf), ("y", .array [])]
    let b : Tree := .object [("y", .ofField "z" leaf), ("x", .object [("q", leaf), ("p", .array [])])]
    b.Distinct ∧
      (∃ hs, (a.merge b).at? ["x"] = some (.object hs) ∧ names hs = ["p", "q"]) ∧
      PartsAt a b ["y", "z"] ["y"] ∧ (a.merge b).at? ["y"] = some (.ofField "z" leaf) := by
  intro leaf a b
  have hleaf : leaf.Distinct := .scalar _
  have hx : (Tree.object [("q", leaf), ("p", .array [])]).Distinct := by
    simp [distinct_object_iff, distinct_array_iff, hleaf]
  have hb : b.Distinct := by
    simp [b, distinct_object_iff, hx, hleaf.ofField]
  have hparts : PartsAt a b ["y", "z"] ["y"] := by
    refine ⟨by decide, ?_, ?_⟩
    · intro h
      obtain ⟨fs, gs, hf, -⟩ := h
      cases hf
    · intro r hr hlt
      obtain rfl : r = [] := List.length_eq_zero_iff.mp (Nat.lt_one_iff.mp hlt)
      exact ⟨_, _, rfl, rfl⟩
  have hnone : ∀ q, ¬PartsAt a b ["x"] q := by
    intro q hq
    exact hq.parts (BothObjects.of_prefix ⟨_, _, rfl, rfl⟩ hq.start)
  refine ⟨hb, ?_, hparts, (merge_is_deep_union hb ["y", "z"]).2 ["y"] hparts⟩
  obtain ⟨fs, gs, hs, hf, hg, hm, hnames⟩ := (merge_is_deep_union hb ["x"]).1 hnone
  cases hf
  cases hg
  exact ⟨hs, hm, hnames⟩

end ObjectExpr.Tree
