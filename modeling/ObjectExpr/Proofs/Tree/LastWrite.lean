/-
  ObjectExpr.Proofs.Tree.LastWrite — what is left of a sequence of writes. A write puts a leaf (a scalar
  or an array) at a path; it concerns every path that is a prefix of its own and every path that its own
  is a prefix of, and no other (`at?_merge_nest_append`, `at?_merge_nest_above`, `at?_merge_nest_of_apart`).
  So the last write that concerns a path says what stands there: its leaf, an object on the way to it, or
  nothing, below it (`stands_written`). The names of an object are those that were written under it since
  it was last wiped out, in the order in which they first came (`names_fieldsAt_written`). An expression
  whose fields hold no objects of their own is such a sequence (`last_write_wins`).
-/

import Mathlib.Data.List.DropRight
import ObjectExpr.Proofs.Tree.Paths

namespace ObjectExpr.Tree

open Fields (names get?)

/-! ## One level of a tree -/

def fields : Tree → List (String × Tree)
  | .object fs => fs
  | _ => []

@[simp] theorem fields_object (fs : List (String × Tree)) : (object fs).fields = fs := rfl

/-- What stands under a name; null if there is nothing, which a merge does not see. -/
def child (t : Tree) (name : String) : Tree := (get? t.fields name).getD (.scalar .null)

/-- The fields of the object at the end of a path, if one is there. -/
def fieldsAt (t : Tree) (path : List String) : List (String × Tree) := ((t.at? path).map fields).getD []

@[simp] theorem fieldsAt_nil (t : Tree) : t.fieldsAt [] = t.fields := by
  simp [fieldsAt]

theorem at?_child (t : Tree) (name next : String) (path : List String) :
    (t.child name).at? (next :: path) = t.at? (name :: next :: path) := by
  cases t with
  | object fs => cases h : get? fs name <;> simp [child, fields, h, at?]
  | _ => rfl

theorem fieldsAt_child (t : Tree) (name : String) (path : List String) :
    (t.child name).fieldsAt path = t.fieldsAt (name :: path) := by
  cases t with
  | object fs => cases h : get? fs name <;> cases path <;> simp [fieldsAt, child, fields, h, at?]
  | _ => cases path <;> rfl

theorem merge_ofField_eq (t : Tree) (name : String) (u : Tree) :
    merge t (.ofField name u) = .object (insert t.fields name u) := by
  cases t <;> rfl

theorem at?_merge_ofField_same (t : Tree) (name : String) (u : Tree) (path : List String) :
    (merge t (.ofField name u)).at? (name :: path) = (merge (t.child name) u).at? path := by
  rw [merge_ofField_eq, at?_object_cons, get?_insert, if_pos rfl, child]
  cases get? t.fields name with
  | none => rw [Option.merge_none_left, Option.getD_none, merge_eq_right rfl]; rfl
  | some x => rfl

theorem at?_merge_ofField_ne (t : Tree) {name other : String} (h : other ≠ name) (u : Tree) (path : List String) :
    (merge t (.ofField name u)).at? (other :: path) = t.at? (other :: path) := by
  rw [merge_ofField_eq, at?_object_cons, get?_insert, if_neg h]
  cases t with
  | object fs => rfl
  | _ => rfl

/-! ## One write -/

variable {v : Tree}

/-- At its path and below, a write leaves what was written and nothing else. -/
theorem at?_merge_nest_append (hv : v.isObject = false) (t : Tree) (path below : List String) :
    (merge t (nest path v)).at? (path ++ below) = v.at? below := by
  induction path generalizing t with
  | nil => rw [nest, merge_eq_right_of_leaf t hv, List.nil_append]
  | cons name path ih => rw [nest, List.cons_append, at?_merge_ofField_same, ih]

/-- On the way to its path, a write adds one name at most. -/
theorem at?_merge_nest_above (t : Tree) (path : List String) (name : String) (rest : List String) (v : Tree) :
    (merge t (nest (path ++ name :: rest) v)).at? path = some (.object (insert (t.fieldsAt path) name (nest rest v))) := by
  induction path generalizing t with
  | nil => rw [List.nil_append, nest, at?_nil, merge_ofField_eq, fieldsAt_nil]
  | cons next path ih => rw [List.cons_append, nest, at?_merge_ofField_same, ih, fieldsAt_child]

/-- Away from its path, a write changes nothing. -/
theorem at?_merge_nest_of_apart (t : Tree) {path other : List String} (h : ¬path <+: other) (h' : ¬other <+: path) :
    (merge t (nest path v)).at? other = t.at? other := by
  induction path generalizing t other with
  | nil => exact absurd List.nil_prefix h
  | cons name path ih =>
    cases other with
    | nil => exact absurd List.nil_prefix h'
    | cons next other =>
      by_cases hn : next = name
      · subst hn
        rw [List.prefix_cons_inj] at h h'
        rw [nest, at?_merge_ofField_same, ih _ h h']
        cases other with
        | nil => exact absurd List.nil_prefix h'
        | cons o other => exact at?_child t next o other
      · exact at?_merge_ofField_ne t hn _ other

/-! ## Many writes -/

/-- Leaves that are put at paths, one after another. -/
def written (ws : List (List String × Tree)) : Tree := ws.foldl (fun t w => merge t (nest w.1 w.2)) (.object [])

/-- One of the paths is a prefix of the other. -/
def Concerns (path other : List String) : Prop := path <+: other ∨ other <+: path

instance (path other : List String) : Decidable (Concerns path other) := inferInstanceAs (Decidable (_ ∨ _))

def lastConcerning (path : List String) (ws : List (List String × Tree)) : Option (List String × Tree) :=
  (ws.filter fun w => Concerns w.1 path).getLast?

/-- The writes after the last one at a path or above it. -/
def since (path : List String) (ws : List (List String × Tree)) : List (List String × Tree) :=
  ws.rtakeWhile fun w => ¬w.1 <+: path

/-- The name that comes next on the way from `path` down to `other`. -/
def nextName (path other : List String) : Option String := if path <+: other then other[path.length]? else none

theorem nextName_append (path : List String) (name : String) (rest : List String) :
    nextName path (path ++ name :: rest) = some name := by
  simp [nextName]

theorem written_snoc (ws : List (List String × Tree)) (w : List String × Tree) :
    written (ws ++ [w]) = merge (written ws) (nest w.1 w.2) := by
  simp [written]

theorem lastConcerning_snoc (path : List String) (ws : List (List String × Tree)) (w : List String × Tree) :
    lastConcerning path (ws ++ [w]) = if Concerns w.1 path then some w else lastConcerning path ws := by
  by_cases h : Concerns w.1 path <;> simp [lastConcerning, h]

theorem exists_of_prefix_of_ne {path other : List String} (h : path <+: other) (hne : path ≠ other) :
    ∃ name rest, other = path ++ name :: rest := by
  obtain ⟨rest, rfl⟩ := h
  cases rest with
  | nil => simp at hne
  | cons name rest => exact ⟨name, rest, rfl⟩

/-- What stands at a path if `last` is the last write that concerns it. -/
def Stands (root : Tree) (path : List String) : Option (List String × Tree) → Prop
  | some last =>
    (last.1 = path → root.at? path = some last.2) ∧
    (path <+: last.1 → path ≠ last.1 → ∃ fs, root.at? path = some (.object fs)) ∧
    (last.1 <+: path → last.1 ≠ path → root.at? path = none)
  | none => root.at? path = none

/-- The write that was made last leaves what it says at every path that it concerns. -/
theorem stands_merge_nest (hv : v.isObject = false) (t : Tree) (path other : List String) :
    Stands (merge t (nest path v)) other (some (path, v)) := by
  refine ⟨fun he => ?_, fun h hne => ?_, fun h hne => ?_⟩
  · obtain rfl : path = other := he
    have hat := at?_merge_nest_append hv t path []
    rwa [List.append_nil, at?_nil] at hat
  · obtain ⟨name, rest, hp⟩ := exists_of_prefix_of_ne h hne
    rw [show path = other ++ name :: rest from hp]
    exact ⟨_, at?_merge_nest_above t other name rest v⟩
  · obtain ⟨name, rest, rfl⟩ := exists_of_prefix_of_ne h hne
    rw [at?_merge_nest_append hv, at?_of_not_isObject hv]

/-- What stands at a path is what the last write that concerns it left there. -/
theorem stands_written {ws : List (List String × Tree)} (hv : ∀ w ∈ ws, w.2.isObject = false) {path : List String}
    (hp : path ≠ []) : Stands (written ws) path (lastConcerning path ws) := by
  induction ws using List.reverseRecOn with
  | nil =>
    obtain ⟨name, rest, rfl⟩ := List.exists_cons_of_ne_nil hp
    rfl
  | append_singleton ws w ih =>
    rw [lastConcerning_snoc, written_snoc]
    by_cases hc : Concerns w.1 path
    · rw [if_pos hc]
      exact stands_merge_nest (hv w (by simp)) (written ws) w.1 path
    · obtain ⟨h, h'⟩ := not_or.mp hc
      have hat := at?_merge_nest_of_apart (v := w.2) (written ws) h h'
      have ih := ih fun w' hw' => hv w' (List.mem_append_left _ hw')
      rw [if_neg hc]
      cases hl : lastConcerning path ws with
      | none => rw [hl] at ih; exact hat.trans ih
      | some w' => rw [hl, Stands, ← hat] at ih; exact ih

/-! ## Names in order -/

theorem eraseDups_snoc (xs : List String) (x : String) :
    (xs ++ [x]).eraseDups = if x ∈ xs.eraseDups then xs.eraseDups else xs.eraseDups ++ [x] := by
  rw [List.eraseDups_append]
  by_cases h : x ∈ xs
  · simp [List.removeAll, h, List.mem_eraseDups]
  · simp [List.removeAll, h, List.mem_eraseDups, List.eraseDups_cons]

theorem fieldsAt_of_not_isObject (hv : v.isObject = false) (path : List String) : v.fieldsAt path = [] := by
  cases v with
  | object fs => cases hv
  | _ => cases path <;> rfl

/-- Names under a path come from writes below it, and go with a write at it or above it. -/
theorem fieldsAt_merge_nest (hv : v.isObject = false) (t : Tree) (path other : List String) :
    (path <+: other ∧ (merge t (nest path v)).fieldsAt other = []) ∨
    (∃ name rest, path = other ++ name :: rest ∧
      (merge t (nest path v)).fieldsAt other = insert (t.fieldsAt other) name (nest rest v)) ∨
    (¬path <+: other ∧ ¬other <+: path ∧ (merge t (nest path v)).fieldsAt other = t.fieldsAt other) := by
  by_cases h : path <+: other
  · obtain ⟨below, rfl⟩ := h
    refine .inl ⟨List.prefix_append _ _, ?_⟩
    rw [fieldsAt, at?_merge_nest_append hv]
    exact fieldsAt_of_not_isObject hv below
  · by_cases h' : other <+: path
    · have hne : other ≠ path := fun he => h (he ▸ List.prefix_refl _)
      obtain ⟨name, rest, hp⟩ := exists_of_prefix_of_ne h' hne
      refine .inr (.inl ⟨name, rest, hp, ?_⟩)
      rw [hp, fieldsAt, at?_merge_nest_above]
      rfl
    · exact .inr (.inr ⟨h, h', by rw [fieldsAt, at?_merge_nest_of_apart t h h', fieldsAt]⟩)

/-- The names of an object are those written under it since the last write at its path or above it. -/
theorem names_fieldsAt_written {ws : List (List String × Tree)} (hv : ∀ w ∈ ws, w.2.isObject = false)
    (path : List String) :
    names ((written ws).fieldsAt path) = ((since path ws).filterMap fun w => nextName path w.1).eraseDups := by
  induction ws using List.reverseRecOn with
  | nil => cases path <;> rfl
  | append_singleton ws w ih =>
    have hw : w.2.isObject = false := hv w (by simp)
    have ih := ih fun w' hw' => hv w' (List.mem_append_left _ hw')
    rw [written_snoc, since, List.rtakeWhile_concat]
    rcases fieldsAt_merge_nest hw (written ws) w.1 path with ⟨h, he⟩ | ⟨name, rest, hp, he⟩ | ⟨h, h', he⟩
    · -- the object is gone, and with it what was written before
      rw [he, if_neg (by simpa using h)]
      rfl
    · -- one more name, or one that is there and keeps its place
      have h : ¬w.1 <+: path := by
        intro hle
        have hlen := hle.length_le
        rw [hp, List.length_append, List.length_cons] at hlen
        omega
      have hn : [w].filterMap (fun w => nextName path w.1) = [name] := by simp [hp, nextName_append]
      rw [he, if_pos (by simpa using h), List.filterMap_append, hn, eraseDups_snoc, names_insert, ih, since]
    · have hn : [w].filterMap (fun w => nextName path w.1) = [] := by simp [nextName, h']
      rw [he, if_pos (by simpa using h), List.filterMap_append, hn, List.append_nil, ih, since]

/-! ## Expressions -/

section

variable {lookup : String → Option String}

/-- The writes that top-level fields make, with their paths. -/
def writes (lookup : String → Option String) (fields : List (Path × Term)) : List (List String × Tree) :=
  fields.map fun f => (f.1.names, f.2.tree lookup)

theorem foldl_writes (fs : List (String × Tree)) (fields : List (Path × Term)) :
    (writes lookup fields).foldl (fun t w => merge t (nest w.1 w.2)) (.object fs) =
      .object (insertAll fs (fieldTrees lookup fields)) := by
  induction fields generalizing fs with
  | nil => rfl
  | cons f fields ih =>
    obtain ⟨path, t⟩ := f
    exact ih _

theorem isObject_tree {t : Term} (h : ∀ fields, t ≠ .object fields) : (t.tree lookup).isObject = false := by
  cases t with
  | object fields => exact absurd rfl (h fields)
  | _ => simp [Term.tree, isObject]

theorem isObject_writes (lookup : String → Option String) {fields : List (Path × Term)}
    (h : ∀ f ∈ fields, ∀ inner, f.2 ≠ .object inner) : ∀ w ∈ writes lookup fields, w.2.isObject = false := by
  intro w hw
  obtain ⟨f, hf, rfl⟩ := List.mem_map.mp hw
  exact isObject_tree (h f hf)

end

/-- In an expression whose fields hold no objects of their own, the last write that concerns a path
    decides what stands there, and an object has the names that were written under it since the last
    write at its path or above it, in the order in which they first came. -/
theorem last_write_wins (lookup : String → Option String) {input : String} {fields : List (Path × Term)}
    (hp : Expression.parse input = .ok (.flat fields)) (hleaf : ∀ f ∈ fields, ∀ inner, f.2 ≠ .object inner) :
    ∃ root, parseForest lookup input = .ok [root] ∧ root.isObject = true ∧
      (∀ path, path ≠ [] → Stands root path (lastConcerning path (writes lookup fields))) ∧
      ∀ path fs, root.at? path = some (.object fs) →
        names fs = ((since path (writes lookup fields)).filterMap fun w => nextName path w.1).eraseDups := by
  have hw : written (writes lookup fields) = .object (insertAll [] (fieldTrees lookup fields)) := foldl_writes [] fields
  refine ⟨written (writes lookup fields), ?_, by rw [hw]; rfl, fun path hne => ?_, fun path fs hfs => ?_⟩
  · rw [parseForest_eq_ok_iff_parse]
    exact ⟨_, hp, by rw [Expression.forest, Term.tree, hw]⟩
  · exact stands_written (isObject_writes lookup hleaf) hne
  · have hnames := names_fieldsAt_written (isObject_writes lookup hleaf) path
    rwa [fieldsAt, hfs] at hnames

/-- A scalar wipes out the object before it, and the next object starts afresh. -/
theorem last_write_wins_over_scalar :
    let fields : List (Path × Term) := [(⟨"a", ["b"]⟩, .text "1"), (⟨"a", []⟩, .text "x"), (⟨"a", ["c"]⟩, .text "2")]
    Expression.parse "a.b=1 a=x a.c=2" = .ok (.flat fields) ∧ (∀ f ∈ fields, ∀ inner, f.2 ≠ .object inner) ∧
      ∃ root fs, parseForest (fun _ => none) "a.b=1 a=x a.c=2" = .ok [root] ∧
        root.at? ["a"] = some (.object fs) ∧ names fs = ["c"] := by
  intro fields
  have hp : Expression.parse "a.b=1 a=x a.c=2" = .ok (.flat fields) := by with_unfolding_all rfl
  have hleaf : ∀ f ∈ fields, ∀ inner, f.2 ≠ .object inner := by simp [fields]
  obtain ⟨root, hroot, -, hstands, hnames⟩ := last_write_wins (fun _ => none) hp hleaf
  obtain ⟨fs, hfs⟩ := (hstands ["a"] (by simp)).2.1 (by decide) (by decide)
  exact ⟨hp, hleaf, root, fs, hroot, hfs, (hnames _ _ hfs).trans (by decide)⟩

end ObjectExpr.Tree
