/-
  ObjectExpr.Proofs.Tree.Equality — equality of trees, and of nodes through their indexes. As with values,
  equality sees all but the order of fields (`equal_iff_reordered`), so a tree equals another just if its value
  equals the value of the other (`equal_eq_produce`): nothing that equality sees is lost in a value.

  In an object with a sound index a look-up finds the field of its name, so nodes compare like their values, and
  no comparison runs past a slot (`Node.equal_eq_produce`, `Node.equal_eq_tree`).
-/

import ObjectExpr.Proofs.Tree.Nodes
import ObjectExpr.Proofs.Tree.Reordering
import ObjectExpr.Proofs.Value.Equality

namespace ObjectExpr

open Number (Binary64)

namespace Scalar

/-- The same leaf, or one number in two floats. -/
inductive Same : Scalar → Scalar → Prop
  | null : Same .null .null
  | boolean (b : Bool) : Same (.boolean b) (.boolean b)
  | integer (n : Int64) : Same (.integer n) (.integer n)
  | float {x y : Binary64} : x.SameNumber y → Same (.float x) (.float y)
  | string (s : String) : Same (.string s) (.string s)

theorem reordered_ofScalar_iff {a b : Scalar} : Value.Reordered (.ofScalar a) (.ofScalar b) ↔ Same a b := by
  constructor
  · intro h
    cases a <;> cases b <;> cases h
    · exact .null
    · exact .boolean _
    · exact .integer _
    · next h => exact .float h
    · exact .string _
  · intro h
    cases h with
    | null => exact .null
    | boolean b => exact .boolean b
    | integer n => exact .integer n
    | float h => exact .float h
    | string s => exact .string s

theorem equal_ofScalar (a b : Scalar) : (Value.ofScalar a).equal (Value.ofScalar b) = a.equal b := by
  cases a <;> cases b <;> simp [Value.equal, Value.equalFrom, Value.ofScalar, Scalar.equal]

theorem equal_iff_same {a b : Scalar} : a.equal b = true ↔ Same a b := by
  rw [← equal_ofScalar, Value.equal_iff_reordered (.ofScalar a) (.ofScalar b), reordered_ofScalar_iff]

end Scalar

namespace Tree

open Fields (names)

variable {fs gs : List (String × Tree)} {t u : Tree}

/-- No float in the tree is not-a-number. -/
inductive NanFree : Tree → Prop
  | scalar {s : Scalar} : (Value.ofScalar s).NanFree → NanFree (.scalar s)
  | object {fs : List (String × Tree)} : (∀ f ∈ fs, NanFree f.2) → NanFree (.object fs)
  | array {xs : List Tree} : (∀ x ∈ xs, NanFree x) → NanFree (.array xs)

theorem NanFree.produce (h : t.NanFree) : t.produce.NanFree := by
  induction h with
  | scalar hs => exact hs
  | object _ ih =>
    rw [Tree.produce, produceFields_eq_map]
    refine .object ?_
    rw [List.forall_mem_map]
    exact ih
  | array _ ih =>
    rw [Tree.produce, produceAll_eq_map]
    refine .array ?_
    rw [List.forall_mem_map]
    exact ih

/-! ## What equality sees -/

theorem covered_iff (fs gs : List (String × Tree)) :
    covered fs gs = true ↔ ∀ f ∈ fs, ∃ u, Fields.get? gs f.1 = some u ∧ f.2.equal u = true := by
  induction fs with
  | nil => simp [covered]
  | cons f fs ih =>
    obtain ⟨name, t⟩ := f
    rw [covered, Bool.and_eq_true, ih, List.forall_mem_cons]
    cases Fields.get? gs name <;> simp

theorem equal_object_iff (hd : (names fs).Nodup) :
    (object fs).equal (.object gs) = true ↔ Fields.Matched (fun t u => t.equal u = true) fs gs := by
  rw [equal, Bool.and_eq_true, beq_iff_eq, covered_iff, Fields.matched_iff hd]

theorem equalAll_iff {xs ys : List Tree} :
    equalAll xs ys = true ↔ List.Forall₂ (fun x y => x.equal y = true) xs ys := by
  induction xs generalizing ys with
  | nil => cases ys <;> simp [equalAll]
  | cons x xs ih =>
    cases ys with
    | nil => simp [equalAll]
    | cons y ys => rw [equalAll, Bool.and_eq_true, ih, List.forall₂_cons]

/-- Where no name comes twice, equality sees all but the order of fields. -/
theorem equal_iff_reordered (ht : t.Distinct) (hu : u.Distinct) : t.equal u = true ↔ Reordered Scalar.Same t u := by
  induction ht generalizing u with
  | scalar s =>
    cases u with
    | scalar s' =>
      rw [equal, Scalar.equal_iff_same, reordered_scalar_iff]
    | _ => exact iff_of_false (by simp [equal]) (fun h => by cases h)
  | array _ ih =>
    cases u with
    | array ys =>
      rw [equal, equalAll_iff, reordered_array_iff]
      exact forall₂_congr_of_mem fun x hx y hy => ih x hx (distinct_array_iff.mp hu y hy)
    | _ => exact iff_of_false (by simp [equal]) (fun h => by cases h)
  | @object fs hd _ ih =>
    cases u with
    | object gs =>
      obtain ⟨hd', hg⟩ := distinct_object_iff.mp hu
      rw [reordered_object_iff hd hd', equal_object_iff hd]
      exact Fields.matched_congr hd fun f hf g hmem => ih f hf (hg g hmem)
    | _ => exact iff_of_false (by simp [equal]) (fun h => by cases h)

/-- Trees are the same but for the order of fields just if their values are. -/
theorem reordered_produce_iff (ht : t.Distinct) (hu : u.Distinct) :
    t.produce.Reordered u.produce ↔ Reordered Scalar.Same t u := by
  induction ht generalizing u with
  | scalar s =>
    cases u with
    | scalar s' =>
      rw [Tree.produce, Tree.produce, Scalar.reordered_ofScalar_iff, reordered_scalar_iff]
    | _ =>
      refine iff_of_false (fun h => ?_) (fun h => by cases h)
      rw [Tree.produce, Tree.produce] at h
      cases s <;> cases h
  | array _ ih =>
    cases u with
    | array ys =>
      rw [Tree.produce, Tree.produce, Value.reordered_array_iff, reordered_array_iff, produceAll_eq_map, produceAll_eq_map,
        List.forall₂_map_left_iff, List.forall₂_map_right_iff]
      exact forall₂_congr_of_mem fun x hx y hy => ih x hx (distinct_array_iff.mp hu y hy)
    | scalar s =>
      refine iff_of_false (fun h => ?_) (fun h => by cases h)
      rw [Tree.produce, Tree.produce] at h
      cases s <;> cases h
    | object gs =>
      refine iff_of_false (fun h => ?_) (fun h => by cases h)
      rw [Tree.produce, Tree.produce] at h
      cases h
  | @object fs hd _ ih =>
    cases u with
    | object gs =>
      obtain ⟨hd', hg⟩ := distinct_object_iff.mp hu
      rw [Tree.produce, Tree.produce,
        Value.reordered_object_iff (by rwa [names_produceFields]) (by rwa [names_produceFields]),
        reordered_object_iff hd hd', produceFields_eq_map, produceFields_eq_map, Fields.matched_map_iff]
      exact Fields.matched_congr hd fun f hf g hmem => ih f hf (hg g hmem)
    | scalar s =>
      refine iff_of_false (fun h => ?_) (fun h => by cases h)
      rw [Tree.produce, Tree.produce] at h
      cases s <;> cases h
    | array ys =>
      refine iff_of_false (fun h => ?_) (fun h => by cases h)
      rw [Tree.produce, Tree.produce] at h
      cases h

/-- Nothing that equality sees is lost in a value. -/
theorem equal_eq_produce (ht : t.Distinct) (hu : u.Distinct) : t.equal u = t.produce.equal u.produce := by
  rw [Bool.eq_iff_iff, equal_iff_reordered ht hu, Value.equal_iff_reordered ht.produce hu.produce,
    reordered_produce_iff ht hu]

end Tree

/-! ## Through the indexes -/

namespace Node

theorem bind_ok_and (a b : Bool) :
    ((.ok a >>= fun same => if same then .ok b else .ok false) : Except OutOfBounds Bool) = .ok (a && b) := by
  cases a <;> rfl

/-- The field of the right that is looked up stands in bounds, and asks as its value does. -/
theorem covered_eq {fs : List (String × Node)} {p : Indexed Node} (hp : p.Sound)
    (h : ∀ f ∈ fs, ∀ m, Fields.get? p.fields f.1 = some m → m.equal f.2 = .ok (m.produce.equal f.2.produce)) :
    covered fs p =
      .ok (fs.all fun f => (Fields.get? p.fields f.1).elim false fun m => m.produce.equal f.2.produce) := by
  induction fs with
  | nil => rw [covered, List.all_nil]
  | cons f fs ih =>
    obtain ⟨name, n⟩ := f
    obtain ⟨hn, h⟩ := List.forall_mem_cons.mp h
    rw [covered, List.all_cons]
    split
    · next e he =>
      rw [hp.get?_eq] at he
      cases he
    · next he =>
      rw [hp.get?_eq, Except.ok.injEq] at he
      rw [he]
      rfl
    · next m he =>
      rw [hp.get?_eq, Except.ok.injEq] at he
      rw [hn m he, ih h, he, bind_ok_and]
      rfl

theorem equal_object_eq {o p : Indexed Node} (hp : p.Sound)
    (h : ∀ f ∈ o.fields, ∀ m, Fields.get? p.fields f.1 = some m → m.equal f.2 = .ok (m.produce.equal f.2.produce)) :
    (object o).equal (.object p) = .ok ((object o).produce.equal (object p).produce) := by
  obtain ⟨fs, i⟩ := o
  obtain ⟨gs, j⟩ := p
  rw [equal, covered_eq hp h, produce_object, produce_object, Value.equal_object]
  simp only [List.length_map, List.all_map, Fields.get?_map, Option.elim_map, Function.comp_def]
  by_cases hl : fs.length = gs.length
  · have hlen : fs.length = Indexed.length ⟨gs, j⟩ := hl
    rw [if_pos hlen, hl, beq_self_eq_true, Bool.true_and]
  · have hlen : fs.length ≠ Indexed.length ⟨gs, j⟩ := hl
    rw [if_neg hlen, beq_false_of_ne hl, Bool.false_and]

theorem equalAll_eq {ns ms : List Node} (h : ∀ n ∈ ns, ∀ m ∈ ms, n.equal m = .ok (n.produce.equal m.produce)) :
    equalAll ns ms = .ok (Value.equalAll false (produceAll ns) (produceAll ms)) := by
  induction ns generalizing ms with
  | nil => cases ms <;> simp [equalAll, produceAll, Value.equalAll]
  | cons n ns ih =>
    obtain ⟨hn, h⟩ := List.forall_mem_cons.mp h
    cases ms with
    | nil => simp [equalAll, produceAll, Value.equalAll]
    | cons m ms =>
      obtain ⟨hnm, -⟩ := List.forall_mem_cons.mp hn
      have hrest := ih fun n hn m hm => h n hn m (List.mem_cons_of_mem _ hm)
      rw [equalAll, produceAll, produceAll, Value.equalAll, hnm, hrest, bind_ok_and, Value.equal]

theorem equal_array_eq {ns ms : List Node} (h : ∀ n ∈ ns, ∀ m ∈ ms, n.equal m = .ok (n.produce.equal m.produce)) :
    (array ns).equal (.array ms) = .ok ((array ns).produce.equal (array ms).produce) := by
  rw [equal, equalAll_eq h, produce, produce, Value.equal, Value.equalFrom]
  split
  · rfl
  · next hl =>
    have hlen : (produceAll ns).length ≠ (produceAll ms).length := by
      rwa [produceAll_eq_map, produceAll_eq_map, List.length_map, List.length_map]
    rw [Value.equalAll_eq_false hlen]

/-- Nodes compare like their values, whichever of the two asks. -/
theorem equal_eq_produce_both {a b : Node} (ha : a.WellIndexed) (hb : b.WellIndexed) :
    a.equal b = .ok (a.produce.equal b.produce) ∧ b.equal a = .ok (b.produce.equal a.produce) := by
  induction ha generalizing b with
  | scalar s =>
    cases hb with
    | scalar s' => simp only [equal, produce, Scalar.equal_ofScalar, and_self]
    | object _ _ => cases s <;> simp [equal, produce, Value.equal, Value.ofScalar, Value.equalFrom]
    | array _ => cases s <;> simp [equal, produce, Value.equal, Value.ofScalar, Value.equalFrom]
  | @object o ho hf ih =>
    cases hb with
    | scalar s => cases s <;> simp [equal, produce, Value.equal, Value.ofScalar, Value.equalFrom]
    | @object p hp hg =>
      refine ⟨equal_object_eq hp fun f hmem m hm => ?_, equal_object_eq ho fun g hmem n hn => ?_⟩
      · exact (ih f hmem (hg _ (Fields.mem_of_get? hm))).2
      · exact (ih _ (Fields.mem_of_get? hn) (hg g hmem)).1
    | array _ => simp [equal, produce, Value.equal, Value.equalFrom]
  | @array ns hn ih =>
    cases hb with
    | scalar s => cases s <;> simp [equal, produce, Value.equal, Value.ofScalar, Value.equalFrom]
    | object _ _ => simp [equal, produce, Value.equal, Value.equalFrom]
    | @array ms hm =>
      refine ⟨equal_array_eq fun n hmem m hmem' => ?_, equal_array_eq fun m hmem n hmem' => ?_⟩
      · exact (ih n hmem (hm m hmem')).1
      · exact (ih n hmem' (hm m hmem)).2

/-- No comparison runs past a slot, and it comes to the comparison of the values. -/
theorem equal_eq_produce {a b : Node} (ha : a.WellIndexed) (hb : b.WellIndexed) :
    a.equal b = .ok (a.produce.equal b.produce) := (equal_eq_produce_both ha hb).1

theorem equal_eq_tree {a b : Node} (ha : a.WellIndexed) (hb : b.WellIndexed) : a.equal b = .ok (a.tree.equal b.tree) := by
  rw [equal_eq_produce ha hb, ← produce_tree, ← produce_tree, Tree.equal_eq_produce ha.distinct hb.distinct]

end Node

end ObjectExpr
