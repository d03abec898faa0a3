/-
  ObjectExpr.Proofs.Grammar.Limit — the limit of levels as a limit of height. Every bracket and every dot
  is a level, and an object or an array of the tree (`height_value`). Two kinds of object have no level:
  the one that fields without brackets make, and the one that a field in an array stands for. So a tree
  is at most twice as high as its expression is deep, and one more; and merging what is written more than
  once takes nothing from this (`height_within_limit`).
-/

import ObjectExpr.Proofs.Grammar.Acceptance
import ObjectExpr.Proofs.Tree.Height

namespace ObjectExpr

/-! ## Fields in arrays -/

mutual

/-- No element of an array is a field. -/
def Term.unsugared : Term → Bool
  | .text _ | .typed _ | .env _ => true
  | .object fields => fieldsUnsugared fields
  | .array elements => elementsUnsugared elements

def fieldsUnsugared : List (Path × Term) → Bool
  | [] => true
  | (_, t) :: fields => t.unsugared && fieldsUnsugared fields

def elementsUnsugared : List (Option Path × Term) → Bool
  | [] => true
  | (path, t) :: elements => path.isNone && t.unsugared && elementsUnsugared elements

end

def Expression.unsugared : Expression → Bool
  | flat fields => fieldsUnsugared fields
  | bracketed roots => roots.all Term.unsugared

namespace Grammar

open ObjectExpr.Tree (fieldHeight elementHeight)

/-! ## Height and depth -/

section

variable (lookup : String → Option String) {k : Nat}

theorem height_rawTree (text : String) : (rawTree text).height = 0 := by
  rw [rawTree]
  split <;> rfl

/-- A level is worth two objects or arrays, but one if no element of an array is a field. -/
def Bounds (k : Nat) (unsugared : Bool) : Prop := 2 ≤ k ∨ (k = 1 ∧ unsugared = true)

theorem Bounds.pos {u : Bool} (h : Bounds k u) : 1 ≤ k := by
  rcases h with h | ⟨rfl, -⟩
  · omega
  · exact Nat.le_refl 1

theorem bounds_and {u v : Bool} (h : Bounds k (u && v)) : Bounds k u ∧ Bounds k v := by
  rcases h with h | ⟨rfl, h⟩
  · exact ⟨.inl h, .inl h⟩
  · rw [Bool.and_eq_true] at h
    exact ⟨.inr ⟨rfl, h.1⟩, .inr ⟨rfl, h.2⟩⟩

mutual

theorem height_rhs (r : Rhs) {level : Nat} {q : List String × Term} (h : r.read level = .ok q)
    (hk : Bounds k q.2.unsugared) : (r.tree lookup).height ≤ k * r.depth := by
  match r with
  | .assign v =>
    obtain ⟨t, ht, rfl⟩ := map_eq_ok_iff.mp h
    exact height_value v ht hk
  | .dot name r =>
    obtain ⟨p, hp, rfl⟩ := map_eq_ok_iff.mp (deeper_eq_ok_iff.mp h).2
    have hr := height_rhs r hp hk
    have hpos := hk.pos
    rw [Rhs.tree, Tree.height_ofField, Rhs.depth, Nat.mul_succ]
    omega

theorem height_value (v : Value) {level : Nat} {t : Term} (h : v.read level = .ok t) (hk : Bounds k t.unsugared) :
    (v.tree lookup).height ≤ k * v.depth := by
  match v with
  | .literal text => exact Nat.zero_le _
  | .raw text => rw [Value.tree, height_rawTree]; exact Nat.zero_le _
  | .env name => exact Nat.zero_le _
  | .object fs =>
    obtain ⟨gs, hg, rfl⟩ := map_eq_ok_iff.mp (deeper_eq_ok_iff.mp h).2
    have hfs := height_fields fs hg hk
    have hwrites := Tree.fieldHeight_insertAll_le [] (fieldTrees lookup fs)
    have hpos := hk.pos
    rw [Tree.fieldHeight] at hwrites
    rw [Value.tree, Tree.height, Value.depth, Nat.mul_succ]
    omega
  | .array es =>
    obtain ⟨ds, hd, rfl⟩ := map_eq_ok_iff.mp (deeper_eq_ok_iff.mp h).2
    have hes := height_elements es hd hk
    have hpos := hk.pos
    rw [Value.tree, Tree.height, Value.depth, Nat.mul_succ]
    omega

theorem height_fields (fs : List (String × Rhs)) {level : Nat} {gs : List (Path × Term)}
    (h : readFields level fs = .ok gs) (hk : Bounds k (fieldsUnsugared gs)) :
    fieldHeight (fieldTrees lookup fs) ≤ k * fieldDepth fs := by
  match fs with
  | [] => exact Nat.zero_le _
  | (name, r) :: fs =>
    obtain ⟨q, hq, h⟩ := bind_eq_ok_iff.mp h
    obtain ⟨gs, hg, rfl⟩ := map_eq_ok_iff.mp h
    obtain ⟨hkr, hks⟩ := bounds_and hk
    have hr := height_rhs r hq hkr
    have hfs := height_fields fs hg hks
    rw [fieldTrees, fieldHeight, fieldDepth, ← Nat.mul_max_mul_left]
    omega

/-- A field in an array is one object higher than its levels account for. -/
theorem height_element (e : Element) {level : Nat} {d : Option Path × Term} (h : e.read level = .ok d)
    (hk : Bounds k (d.1.isNone && d.2.unsugared)) : (e.tree lookup).height ≤ k * e.depth + (k - 1) := by
  match e with
  | .value v =>
    obtain ⟨t, ht, rfl⟩ := map_eq_ok_iff.mp h
    exact Nat.le_add_right_of_le (height_value v ht (bounds_and hk).2)
  | .field name r =>
    obtain ⟨q, hq, rfl⟩ := map_eq_ok_iff.mp h
    have hr := height_rhs r hq (bounds_and hk).2
    have htwo : 2 ≤ k := hk.resolve_right fun hn => Bool.false_ne_true hn.2
    rw [Element.tree, Tree.height_ofField, Element.depth]
    omega

theorem height_elements (es : List Element) {level : Nat} {ds : List (Option Path × Term)}
    (h : readElements level es = .ok ds) (hk : Bounds k (elementsUnsugared ds)) :
    elementHeight (elementTrees lookup es) ≤ k * elementDepth es + (k - 1) := by
  match es with
  | [] => exact Nat.zero_le _
  | e :: es =>
    obtain ⟨d, hd, h⟩ := bind_eq_ok_iff.mp h
    obtain ⟨ds, he, rfl⟩ := map_eq_ok_iff.mp h
    obtain ⟨hke, hks⟩ := bounds_and hk
    have h₁ := height_element e hd hke
    have h₂ := height_elements es he hks
    rw [elementTrees, elementHeight, elementDepth, ← Nat.mul_max_mul_left]
    omega

end

theorem height_roots (rs : List Root) {ts : List Term} (h : readRoots rs = .ok ts)
    (hk : Bounds k (ts.all Term.unsugared)) : ∀ r ∈ rs, (r.value.tree lookup).height ≤ k * rootDepth rs := by
  induction rs generalizing ts with
  | nil => exact fun r hr => nomatch hr
  | cons r rs ih =>
    obtain ⟨t, ht, h⟩ := bind_eq_ok_iff.mp h
    obtain ⟨ts, hts, rfl⟩ := map_eq_ok_iff.mp h
    obtain ⟨hkt, hks⟩ := bounds_and hk
    have hdepth : k * rootDepth (r :: rs) = max (k * r.value.depth) (k * rootDepth rs) :=
      (Nat.mul_max_mul_left ..).symm
    rw [hdepth]
    refine List.forall_mem_cons.mpr ⟨?_, fun r' hr' => ?_⟩
    · exact Nat.le_trans (height_value lookup r.value ht hkt) (Nat.le_max_left _ _)
    · exact Nat.le_trans (ih hts hks r' hr') (Nat.le_max_right _ _)

/-- Fields without brackets make one object more than there are levels. -/
theorem height_start (d : Start) {e : Expression} (h : d.read = .ok e) (hk : Bounds k e.unsugared) :
    ∀ root ∈ d.forest lookup, root.height ≤ k * d.depth + 1 := by
  cases d with
  | brackets first rest =>
    obtain ⟨ts, hts, rfl⟩ := map_eq_ok_iff.mp h
    rw [Start.forest, List.forall_mem_map]
    exact fun r hr => Nat.le_succ_of_le (height_roots lookup (first :: rest) hts hk r hr)
  | fields fs =>
    obtain ⟨gs, hg, rfl⟩ := map_eq_ok_iff.mp h
    have hfs := height_fields lookup fs hg hk
    have hwrites := Tree.fieldHeight_insertAll_le [] (fieldTrees lookup fs)
    rw [Tree.fieldHeight] at hwrites
    rw [Start.forest, List.forall_mem_singleton, Tree.height, Start.depth]
    omega

end

end Grammar

/-- No root of an expression is higher than twice the limit and one, nor higher than the limit and one
    if no element of an array is a field. Merging what is written more than once takes nothing from this,
    for it never builds higher. -/
theorem height_within_limit (lookup : String → Option String) {input : String} {forest : Forest}
    (h : parseForest lookup input = .ok forest) :
    (∃ e, Expression.parse input = .ok e ∧
      (∀ root ∈ forest, root.height ≤ 2 * maxDepth + 1) ∧
      (e.unsugared = true → ∀ root ∈ forest, root.height ≤ maxDepth + 1)) ∧
    ∀ a b : Tree, (a.merge b).height ≤ max a.height b.height := by
  obtain ⟨e, he, rfl⟩ := parseForest_eq_ok_iff_parse.mp h
  obtain ⟨tokens, -, d, -, hr⟩ := parse_eq_ok_iff.mp he
  obtain ⟨-, hdepth⟩ := (Grammar.accepted_start d).mp ⟨e, hr⟩
  have hbound {k : Nat} (hk : Grammar.Bounds k e.unsugared) : ∀ root ∈ e.forest lookup, root.height ≤ k * maxDepth + 1 := by
    intro root hroot
    rw [Grammar.forest_of_start d hr] at hroot
    exact Nat.le_trans (Grammar.height_start lookup d hr hk root hroot) (Nat.succ_le_succ (Nat.mul_le_mul_left k hdepth))
  refine ⟨⟨e, he, hbound (.inl (Nat.le_refl 2)), fun hu => ?_⟩, Tree.height_merge_le⟩
  have hone := hbound (.inr ⟨rfl, hu⟩)
  rwa [Nat.one_mul] at hone

/-- A field in an array is an object in it, and the fields around it make one more. -/
theorem height_within_limit_of_sugar :
    let root : Tree := .ofField "a" (.array [.ofField "x" (.scalar (.string "1"))])
    parseForest (fun _ => none) "a=[x=1]" = .ok [root] ∧ root.height = 3 ∧ root.height ≤ 2 * maxDepth + 1 := by
  intro root
  have he : Expression.parse "a=[x=1]" = .ok (.flat [(⟨"a", []⟩, .array [(some ⟨"x", []⟩, .text "1")])]) := by
    with_unfolding_all rfl
  have hp : parseForest (fun _ => none) "a=[x=1]" = .ok [root] := parseForest_eq_ok_iff_parse.mpr ⟨_, he, rfl⟩
  obtain ⟨⟨e, -, hle, -⟩, -⟩ := height_within_limit (fun _ => none) hp
  exact ⟨hp, rfl, hle root List.mem_cons_self⟩

end ObjectExpr
