/-
  ObjectExpr.Proofs.Value.Production — the value of a node tells all that the node does. A path leads through
  both by names of objects and by positions of arrays; in the node a name goes through the index, in the value
  to the first field of that name. Where the indexes tell the slots, both lead to the same place: what the path
  finds in the value is the value of what it finds in the node (`follow_produce`), and there the names stand in
  the same order. And two nodes are equal just if their values are, so equality goes through values too
  (`produce_is_faithful`).
-/

import ObjectExpr.Proofs.Tree.Equality

namespace ObjectExpr

/-- One turn of a path: to a field of an object, or to an element of an array. -/
inductive Turn
  | name (s : String)
  | position (i : Nat)

def Value.follow : Value → List Turn → Option Value
  | v, [] => some v
  | v, .name s :: path => (v.get? s).bind fun w => w.follow path
  | v, .position i :: path => (v.elements?.bind fun vs => vs[i]?).bind fun w => w.follow path

namespace Node

def follow : Node → List Turn → Except OutOfBounds (Option Node)
  | n, [] => .ok (some n)
  | .object o, .name s :: path =>
    o.get? s >>= fun
      | some n => n.follow path
      | none => .ok none
  | .array ns, .position i :: path =>
    match ns[i]? with
    | some n => n.follow path
    | none => .ok none
  | _, _ :: _ => .ok none

/-- The names of an object, in the order of its fields. -/
def names : Node → List String
  | .object o => Fields.names o.fields
  | _ => []

theorem names_produce (n : Node) : n.produce.names = n.names := by
  cases n with
  | scalar s => cases s <;> rfl
  | object o => rw [produce_object, Value.names, Fields.names_map, names]
  | array ns => rw [produce_array]; rfl

/-- No path runs past a slot, and it leads to the same place in the value. -/
theorem follow_produce {n : Node} (h : n.WellIndexed) (path : List Turn) :
    ∃ found, n.follow path = .ok found ∧ n.produce.follow path = found.map produce := by
  induction path generalizing n with
  | nil => exact ⟨some n, by rw [follow], by rw [Value.follow, Option.map_some]⟩
  | cons turn path ih =>
    cases h with
    | scalar s => refine ⟨none, ?_, ?_⟩ <;> cases s <;> cases turn <;> rfl
    | @object o ho hf =>
      rw [produce_object]
      cases turn with
      | position i => exact ⟨none, rfl, rfl⟩
      | name s =>
        rw [follow, ho.get?_eq, Value.follow, Value.get?, Fields.get?_map]
        cases hs : Fields.get? o.fields s with
        | none => exact ⟨none, rfl, rfl⟩
        | some m => exact ih (hf _ (Fields.mem_of_get? hs))
    | @array ns hn =>
      rw [produce_array]
      cases turn with
      | name s => exact ⟨none, rfl, rfl⟩
      | position i =>
        rw [follow, Value.follow, Value.elements?, Option.bind_some, List.getElem?_map]
        cases hi : ns[i]? with
        | none => exact ⟨none, rfl, rfl⟩
        | some m => exact ih (hn m (List.mem_of_getElem? hi))

end Node

/-- Trees are equal just if their values are, and so are nodes; and a path leads to the same place in a node and
    in its value, with the names there in the same order. -/
theorem produce_is_faithful :
    (∀ t u : Tree, t.Distinct → u.Distinct → t.equal u = t.produce.equal u.produce) ∧
    (∀ g h : Node, g.WellIndexed → h.WellIndexed → g.equal h = .ok (g.produce.equal h.produce)) ∧
    ∀ (g : Node) (path : List Turn), g.WellIndexed → ∃ found, g.follow path = .ok found ∧
      g.produce.follow path = found.map Node.produce ∧ ∀ n ∈ found, n.produce.names = n.names := by
  refine ⟨fun _ _ ht hu => Tree.equal_eq_produce ht hu, fun _ _ hg hh => Node.equal_eq_produce hg hh, fun g path hg => ?_⟩
  obtain ⟨found, hf, hp⟩ := Node.follow_produce hg path
  exact ⟨found, hf, hp, fun n _ => n.names_produce⟩

/-- A node with what is not a number equals itself as little as its value does. -/
theorem produce_is_faithful_of_nan :
    ∃ g : Node, g.WellIndexed ∧ g.produce = .object [("b", .array [.float .nan]), ("a", .string "x")] ∧
      g.equal g = .ok false ∧ (∃ n, g.follow [.name "b", .position 0] = .ok (some n) ∧ n.produce = .float .nan) ∧
      g.names = ["b", "a"] := by
  let first : Indexed Node := ⟨[("b", .array [.scalar (.float .nan)])], Std.HashMap.insert ∅ "b" 0⟩
  let o : Indexed Node := ⟨first.fields ++ [("a", .scalar (.string "x"))], first.index.insert "a" first.length⟩
  have hfirst : first.Sound := Indexed.sound_empty.append (by simp [Indexed.empty]) _
  have ho : o.Sound := hfirst.append (by simp [first]) _
  have hg : (Node.object o).WellIndexed :=
    .object ho (List.forall_mem_cons.mpr ⟨.array (List.forall_mem_singleton.mpr (.scalar _)),
      List.forall_mem_singleton.mpr (.scalar _)⟩)
  have hp : (Node.object o).produce = .object [("b", .array [.float .nan]), ("a", .string "x")] := by
    rfl
  obtain ⟨-, he, hf⟩ := produce_is_faithful
  obtain ⟨found, hfollow, hvalue, -⟩ := hf (.object o) [.name "b", .position 0] hg
  refine ⟨.object o, hg, hp, ?_, ?_, rfl⟩
  · have hnan : Number.Binary64.nan.equal .nan = false := by decide
    rw [he _ _ hg hg, hp]
    simp [Value.equal, Value.equalFrom, Value.covered, Value.equalAll, Fields.get?, hnan]
  · rw [hp] at hvalue
    obtain ⟨n, rfl, hn⟩ := Option.map_eq_some_iff.mp hvalue.symm
    exact ⟨n, hfollow, hn⟩

end ObjectExpr
