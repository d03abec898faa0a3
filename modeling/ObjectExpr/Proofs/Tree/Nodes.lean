/-
  ObjectExpr.Proofs.Tree.Nodes — trees with an index in every object. Every object begins empty and is
  written field by field (`Node.Built`), so at any depth of what the operations and the parser build, each
  index is sound, and no operation runs past a slot (`built_merge`, `Built.insert`, `forest_of_nodes`).
  Without the indexes, a node is the tree that the same operations on trees come to.

  So whatever is built tells its fields truly: by name, by slot and in the order of the first writes
  (`index_tells_slots`).
-/

import Mathlib.Data.Finset.Card
import ObjectExpr.Proofs.Tree.Index
import ObjectExpr.Proofs.Tree.LastWrite
import ObjectExpr.Proofs.Value.Plain

namespace ObjectExpr

open Fields (names)

theorem Fields.put_of_split {α : Type} {before behind : List (String × α)} {name : String} (h : name ∉ names before)
    (old new : α) (join : α → α) :
    Fields.put name new join (before ++ (name, old) :: behind) = before ++ (name, join old) :: behind := by
  induction before with
  | nil => rw [List.nil_append, Fields.put, if_pos rfl, List.nil_append]
  | cons f before ih =>
    obtain ⟨n, u⟩ := f
    rw [Fields.names_cons, List.mem_cons, not_or] at h
    rw [List.cons_append, Fields.put, if_neg (Ne.symm h.1), ih h.2, List.cons_append]

namespace Node

/-! ## Without the index -/

theorem fieldTrees_eq_map (fs : List (String × Node)) : fieldTrees fs = fs.map fun f => (f.1, f.2.tree) := by
  induction fs with
  | nil => rfl
  | cons f fs ih =>
    obtain ⟨name, n⟩ := f
    rw [fieldTrees, ih, List.map_cons]

theorem trees_eq_map (ns : List Node) : trees ns = ns.map tree := by
  induction ns with
  | nil => rfl
  | cons n ns ih => rw [trees, ih, List.map_cons]

@[simp] theorem tree_object (o : Indexed Node) : (object o).tree = .object (fieldTrees o.fields) := rfl

theorem names_fieldTrees (fs : List (String × Node)) : names (fieldTrees fs) = names fs := by
  rw [fieldTrees_eq_map, Fields.names_map]

mutual

theorem produce_tree (n : Node) : n.tree.produce = n.produce := by
  match n with
  | .scalar s => rfl
  | .object ⟨fs, index⟩ => rw [tree, Tree.produce, produce, produce_fieldTrees fs]
  | .array ns => rw [tree, Tree.produce, produce, produce_trees ns]

theorem produce_fieldTrees (fs : List (String × Node)) : Tree.produceFields (fieldTrees fs) = produceFields fs := by
  match fs with
  | [] => rfl
  | (name, n) :: fs => rw [fieldTrees, Tree.produceFields, produceFields, produce_tree n, produce_fieldTrees fs]

theorem produce_trees (ns : List Node) : Tree.produceAll (trees ns) = produceAll ns := by
  match ns with
  | [] => rfl
  | n :: ns => rw [trees, Tree.produceAll, produceAll, produce_tree n, produce_trees ns]

end

theorem produceFields_eq_map (fs : List (String × Node)) : produceFields fs = fs.map fun f => (f.1, f.2.produce) := by
  induction fs with
  | nil => rfl
  | cons f fs ih =>
    obtain ⟨name, n⟩ := f
    rw [produceFields, ih, List.map_cons]

theorem produceAll_eq_map (ns : List Node) : produceAll ns = ns.map produce := by
  induction ns with
  | nil => rfl
  | cons n ns ih => rw [produceAll, ih, List.map_cons]

theorem produce_object (o : Indexed Node) : (object o).produce = .object (o.fields.map fun f => (f.1, f.2.produce)) := by
  rw [← produceFields_eq_map, produce]

theorem produce_array (ns : List Node) : (array ns).produce = .array (ns.map produce) := by
  rw [← produceAll_eq_map, produce]

/-! ## Written field by field -/

theorem absorb_cons (o : Indexed Node) (name : String) (n : Node) (gs : List (String × Node)) :
    absorb o ((name, n) :: gs) = insert o name n >>= fun o => absorb o gs := rfl

theorem absorb_append (o : Indexed Node) (fs gs : List (String × Node)) :
    absorb o (fs ++ gs) = absorb o fs >>= fun o => absorb o gs := by
  induction fs generalizing o with
  | nil => rfl
  | cons f fs ih =>
    obtain ⟨name, n⟩ := f
    rw [List.cons_append, absorb_cons, absorb_cons]
    cases insert o name n with
    | error e => rfl
    | ok o => exact ih o

theorem eraseDups_append_cons_of_mem {xs ys : List String} {x : String} (h : x ∈ xs) :
    (xs ++ x :: ys).eraseDups = (xs ++ ys).eraseDups := by
  rw [List.eraseDups_append, List.eraseDups_append]
  simp [List.removeAll, h]

theorem eraseDups_of_nodup {xs : List String} (h : xs.Nodup) : xs.eraseDups = xs := by
  induction xs using List.reverseRecOn with
  | nil => rfl
  | append_singleton xs x ih =>
    obtain ⟨hxs, -, hx⟩ := List.nodup_append.mp h
    have hnew : x ∉ xs := fun hm => hx x hm x List.mem_cons_self rfl
    rw [Tree.eraseDups_snoc, ih hxs, if_neg hnew]

/-- Names are listed in the order of their first writes. -/
theorem sound_absorb {o o' : Indexed Node} {ws : List (String × Node)} (h : o.Sound) (hw : absorb o ws = .ok o') :
    o'.Sound ∧ names o'.fields = (names o.fields ++ names ws).eraseDups := by
  induction ws generalizing o with
  | nil =>
    cases hw
    exact ⟨h, by rw [Fields.names_nil, List.append_nil, eraseDups_of_nodup h.nodup]⟩
  | cons w ws ih =>
    obtain ⟨name, n⟩ := w
    obtain ⟨o₁, ho₁, hw⟩ := bind_eq_ok_iff.mp hw
    obtain ⟨hs, hn⟩ := h.put ho₁
    obtain ⟨hs', hn'⟩ := ih hs hw
    refine ⟨hs', ?_⟩
    rw [hn', hn, Fields.names_cons]
    split
    · next hm => rw [eraseDups_append_cons_of_mem hm]
    · rw [List.append_assoc, List.singleton_append]

/-- Every object in it has been written field by field, from an empty one. -/
inductive Built : Node → Prop
  | scalar (s : Scalar) : Built (.scalar s)
  | object {o : Indexed Node} (writes : List (String × Node)) : absorb .empty writes = .ok o →
      (∀ f ∈ o.fields, Built f.2) → Built (.object o)
  | array {ns : List Node} : (∀ n ∈ ns, Built n) → Built (.array ns)

namespace Built

variable {o : Indexed Node} {n : Node}

theorem writes (h : Built (.object o)) : ∃ writes, absorb .empty writes = .ok o := by
  cases h with
  | object writes hw _ => exact ⟨writes, hw⟩

theorem fields (h : Built (.object o)) : ∀ f ∈ o.fields, Built f.2 := by
  cases h with
  | object _ _ hf => exact hf

theorem elements {ns : List Node} (h : Built (.array ns)) : ∀ n ∈ ns, Built n := by
  cases h with
  | array hn => exact hn

theorem sound (h : Built (.object o)) : o.Sound := by
  obtain ⟨writes, hw⟩ := h.writes
  exact (sound_absorb Indexed.sound_empty hw).1

theorem empty : Built (.object .empty) := .object [] rfl (fun _ hf => nomatch hf)

/-- A field can be written if its node can be merged into any other. -/
theorem insert_of_merge (ho : Built (.object o)) (hn : Built n) (name : String)
    (hm : ∀ old, Built old → ∃ c, old.merge n = .ok c ∧ Built c ∧ c.tree = old.tree.merge n.tree) :
    ∃ o', insert o name n = .ok o' ∧ Built (.object o') ∧
      fieldTrees o'.fields = Tree.insert (fieldTrees o.fields) name n.tree := by
  obtain ⟨writes, hw⟩ := ho.writes
  have hwrites {o' : Indexed Node} (h : insert o name n = .ok o') : absorb .empty (writes ++ [(name, n)]) = .ok o' := by
    rw [absorb_append, hw]
    change absorb o [(name, n)] = .ok o'
    rw [absorb_cons, h]
    rfl
  rcases ho.sound.put_cases name n (.scalar .null) (fun old => old.merge n) with ⟨hno, hp⟩ | ⟨before, old, behind, hf, hp⟩
  · refine ⟨_, hp, .object _ (hwrites hp) ?_, ?_⟩
    · intro f hf
      rcases List.mem_append.mp hf with hf | hf
      · exact ho.fields f hf
      · rw [List.mem_singleton.mp hf]
        exact hn
    · rw [Tree.insert, Fields.put_of_notMem ((names_fieldTrees _).symm ▸ hno), fieldTrees_eq_map, fieldTrees_eq_map,
        List.map_append]
      rfl
  · obtain ⟨c, hc, hbc, htc⟩ := hm old (ho.fields (name, old) (by simp [hf]))
    have hi : insert o name n = .ok ⟨before ++ (name, c) :: behind, o.index⟩ := hp.trans (by rw [hc]; rfl)
    have hbefore : name ∉ names before := by
      have hd := ho.sound.nodup
      rw [hf, names, List.map_append, List.nodup_append] at hd
      intro hmem
      exact hd.2.2 name hmem name (by simp) rfl
    refine ⟨_, hi, .object _ (hwrites hi) ?_, ?_⟩
    · intro f hmem
      rcases List.mem_append.mp hmem with hmem | hmem
      · exact ho.fields f (by simp [hf, hmem])
      · rcases List.mem_cons.mp hmem with rfl | hmem
        · exact hbc
        · exact ho.fields f (by simp [hf, hmem])
    · have hsplit (m : Node) : fieldTrees (before ++ (name, m) :: behind) =
          fieldTrees before ++ (name, m.tree) :: fieldTrees behind := by
        simp only [fieldTrees_eq_map, List.map_append, List.map_cons]
      rw [Tree.insert, hf, hsplit, hsplit, htc, Fields.put_of_split ((names_fieldTrees before).symm ▸ hbefore)]

end Built

mutual

/-- No slot is missing in a merge, and it comes to the merge of the trees. -/
theorem built_merge (b : Node) {a : Node} (ha : a.Built) (hb : b.Built) :
    ∃ c, a.merge b = .ok c ∧ c.Built ∧ c.tree = a.tree.merge b.tree := by
  match b with
  | .scalar s =>
    refine ⟨.scalar s, ?_, hb, (Tree.merge_eq_right_of_leaf a.tree rfl).symm⟩
    cases a <;> rfl
  | .array ns =>
    refine ⟨.array ns, ?_, hb, (Tree.merge_eq_right_of_leaf a.tree rfl).symm⟩
    cases a <;> rfl
  | .object ⟨gs, index⟩ =>
    cases a with
    | scalar s => exact ⟨_, rfl, hb, (Tree.merge_eq_right rfl _).symm⟩
    | array ns => exact ⟨_, rfl, hb, (Tree.merge_eq_right rfl _).symm⟩
    | object o =>
      obtain ⟨o', ho', hbuilt, htrees⟩ := built_absorb gs ha hb.fields
      refine ⟨.object o', map_eq_ok_iff.mpr ⟨o', ho', rfl⟩, hbuilt, ?_⟩
      rw [tree_object, htrees, tree_object, tree_object, Tree.merge_object]

theorem built_absorb (gs : List (String × Node)) {o : Indexed Node} (ho : Built (.object o)) (hg : ∀ g ∈ gs, g.2.Built) :
    ∃ o', absorb o gs = .ok o' ∧ Built (.object o') ∧
      fieldTrees o'.fields = Tree.insertAll (fieldTrees o.fields) (fieldTrees gs) := by
  match gs with
  | [] => exact ⟨o, rfl, ho, rfl⟩
  | (name, n) :: gs =>
    obtain ⟨hn, hgs⟩ := List.forall_mem_cons.mp hg
    obtain ⟨o₁, ho₁, hb₁, ht₁⟩ := ho.insert_of_merge hn name fun old hold => built_merge n hold hn
    obtain ⟨o₂, ho₂, hb₂, ht₂⟩ := built_absorb gs hb₁ hgs
    refine ⟨o₂, bind_eq_ok_iff.mpr ⟨o₁, ho₁, ho₂⟩, hb₂, ?_⟩
    rw [ht₂, ht₁, fieldTrees, Tree.insertAll_cons]

end

namespace Built

variable {o : Indexed Node} {n : Node}

theorem insert (ho : Built (.object o)) (hn : Built n) (name : String) :
    ∃ o', insert o name n = .ok o' ∧ Built (.object o') ∧
      fieldTrees o'.fields = Tree.insert (fieldTrees o.fields) name n.tree :=
  ho.insert_of_merge hn name fun _ hold => built_merge n hold hn

theorem ofField (hn : Built n) (name : String) :
    ∃ m, ofField name n = .ok m ∧ Built m ∧ m.tree = .ofField name n.tree := by
  obtain ⟨o, ho, hb, ht⟩ := empty.insert hn name
  refine ⟨.object o, map_eq_ok_iff.mpr ⟨o, ho, rfl⟩, hb, ?_⟩
  rw [tree_object, ht]
  rfl

theorem nest (hn : Built n) (path : List String) :
    ∃ m, nest path n = .ok m ∧ Built m ∧ m.tree = .nest path n.tree := by
  induction path with
  | nil => exact ⟨n, rfl, hn, rfl⟩
  | cons name path ih =>
    obtain ⟨m, hm, hb, ht⟩ := ih
    obtain ⟨m', hm', hb', ht'⟩ := hb.ofField name
    refine ⟨m', bind_eq_ok_iff.mpr ⟨m, hm, hm'⟩, hb', ?_⟩
    rw [ht', ht, Tree.nest]

theorem push {ns : List Node} (hns : ∀ m ∈ ns, Built m) (hn : Built n) : ∀ m ∈ push ns n, Built m := by
  intro m hm
  rcases List.mem_append.mp hm with hm | hm
  · exact hns m hm
  · rw [List.mem_singleton.mp hm]
    exact hn

end Built

end Node

/-! ## Expressions -/

section

open Node

variable (lookup : String → Option String)

mutual

/-- What a term builds is its tree with an index in every object. -/
theorem tree_of_node (t : Term) : ∃ n, t.node lookup = .ok n ∧ n.Built ∧ n.tree = t.tree lookup := by
  match t with
  | .text s => exact ⟨_, rfl, .scalar _, rfl⟩
  | .typed t => exact ⟨_, rfl, .scalar _, rfl⟩
  | .env name => exact ⟨_, rfl, .scalar _, rfl⟩
  | .object fields =>
    obtain ⟨o, ho, hb, ht⟩ := trees_of_insertTerms fields Built.empty
    refine ⟨.object o, map_eq_ok_iff.mpr ⟨o, ho, rfl⟩, hb, ?_⟩
    rw [tree_object, ht, Term.tree]
    rfl
  | .array elements =>
    have hnil : ∀ n ∈ ([] : List Node), n.Built := fun _ hn => nomatch hn
    obtain ⟨ns, hns, hb, ht⟩ := trees_of_pushTerms elements hnil
    refine ⟨.array ns, map_eq_ok_iff.mpr ⟨ns, hns, rfl⟩, .array hb, ?_⟩
    rw [Node.tree, ht, Term.tree]
    rfl

theorem trees_of_insertTerms (fields : List (Path × Term)) {o : Indexed Node} (ho : Built (.object o)) :
    ∃ o', insertTerms lookup o fields = .ok o' ∧ Built (.object o') ∧
      Node.fieldTrees o'.fields = Tree.insertAll (Node.fieldTrees o.fields) (fieldTrees lookup fields) := by
  match fields with
  | [] => exact ⟨o, rfl, ho, rfl⟩
  | (path, t) :: fields =>
    obtain ⟨n, hn, hbn, htn⟩ := tree_of_node t
    obtain ⟨m, hm, hbm, htm⟩ := hbn.nest path.tail
    obtain ⟨o₁, ho₁, hb₁, ht₁⟩ := ho.insert hbm path.head
    obtain ⟨o₂, ho₂, hb₂, ht₂⟩ := trees_of_insertTerms fields hb₁
    refine ⟨o₂, ?_, hb₂, ?_⟩
    · exact bind_eq_ok_iff.mpr ⟨n, hn, bind_eq_ok_iff.mpr ⟨m, hm, bind_eq_ok_iff.mpr ⟨o₁, ho₁, ho₂⟩⟩⟩
    · rw [ht₂, ht₁, htm, htn, fieldTrees, Tree.insertAll_cons]

theorem trees_of_pushTerms (elements : List (Option Path × Term)) {done : List Node} (hd : ∀ n ∈ done, n.Built) :
    ∃ ns, pushTerms lookup done elements = .ok ns ∧ (∀ n ∈ ns, n.Built) ∧
      trees ns = trees done ++ elementTrees lookup elements := by
  match elements with
  | [] => exact ⟨done, rfl, hd, by rw [elementTrees, List.append_nil]⟩
  | (none, t) :: elements =>
    obtain ⟨n, hn, hbn, htn⟩ := tree_of_node t
    obtain ⟨ns, hns, hb, ht⟩ := trees_of_pushTerms elements (hbn.push hd)
    refine ⟨ns, bind_eq_ok_iff.mpr ⟨n, hn, hns⟩, hb, ?_⟩
    rw [ht, elementTrees, Node.push, trees_eq_map, trees_eq_map, List.map_append, List.append_assoc, ← htn]
    rfl
  | (some path, t) :: elements =>
    obtain ⟨n, hn, hbn, htn⟩ := tree_of_node t
    obtain ⟨m, hm, hbm, htm⟩ := hbn.nest path.names
    obtain ⟨ns, hns, hb, ht⟩ := trees_of_pushTerms elements (hbm.push hd)
    refine ⟨ns, bind_eq_ok_iff.mpr ⟨n, hn, bind_eq_ok_iff.mpr ⟨m, hm, hns⟩⟩, hb, ?_⟩
    rw [ht, elementTrees, Node.push, trees_eq_map, trees_eq_map, List.map_append, List.append_assoc, ← htn, ← htm]
    rfl

end

theorem trees_of_roots (roots : List Term) :
    ∃ ns, roots.mapM (fun t => t.node lookup) = .ok ns ∧ (∀ n ∈ ns, n.Built) ∧
      ns.map tree = roots.map fun t => t.tree lookup := by
  induction roots with
  | nil => exact ⟨[], rfl, (fun _ hn => nomatch hn), rfl⟩
  | cons t roots ih =>
    obtain ⟨n, hn, hb, ht⟩ := tree_of_node lookup t
    obtain ⟨ns, hns, hbs, hts⟩ := ih
    refine ⟨n :: ns, ?_, List.forall_mem_cons.mpr ⟨hb, hbs⟩, ?_⟩
    · rw [List.mapM_cons]
      exact bind_eq_ok_iff.mpr ⟨n, hn, bind_eq_ok_iff.mpr ⟨ns, hns, rfl⟩⟩
    · rw [List.map_cons, List.map_cons, ht, hts]

/-- Building the trees of an expression never runs past a slot. -/
theorem forest_of_nodes (e : Expression) :
    ∃ ns, e.nodes lookup = .ok ns ∧ (∀ n ∈ ns, n.Built) ∧ ns.map tree = e.forest lookup := by
  cases e with
  | flat fields =>
    obtain ⟨o, ho, hb, ht⟩ := trees_of_insertTerms lookup fields Built.empty
    refine ⟨[.object o], map_eq_ok_iff.mpr ⟨o, ho, rfl⟩, List.forall_mem_singleton.mpr hb, ?_⟩
    rw [List.map_singleton, tree_object, ht, Expression.forest, Term.tree]
    rfl
  | bracketed roots => exact trees_of_roots lookup roots

end

/-! ## Whatever is built -/

namespace Node

/-- What the operations on nodes and the building of expressions can come to. -/
inductive Reachable : Node → Prop
  | scalar (s : Scalar) : Reachable (.scalar s)
  | empty : Reachable (.object .empty)
  | ofField {name : String} {n m : Node} : Reachable n → ofField name n = .ok m → Reachable m
  | insert {o o' : Indexed Node} {name : String} {n : Node} : Reachable (.object o) → Reachable n →
      insert o name n = .ok o' → Reachable (.object o')
  | emptyArray : Reachable (.array [])
  | push {ns : List Node} {n : Node} : Reachable (.array ns) → Reachable n → Reachable (.array (push ns n))
  | merge {a b c : Node} : Reachable a → Reachable b → a.merge b = .ok c → Reachable c
  | parsed {lookup : String → Option String} {input : String} {e : Expression} {ns : List Node} {n : Node} :
      Expression.parse input = .ok e → e.nodes lookup = .ok ns → n ∈ ns → Reachable n

/-- The object lies in the node, at any depth. -/
inductive Inside (o : Indexed Node) : Node → Prop
  | itself : Inside o (.object o)
  | field {p : Indexed Node} {f : String × Node} : f ∈ p.fields → Inside o f.2 → Inside o (.object p)
  | element {ns : List Node} {n : Node} : n ∈ ns → Inside o n → Inside o (.array ns)

theorem Reachable.built {n : Node} (h : n.Reachable) : n.Built := by
  induction h with
  | scalar s => exact .scalar s
  | empty => exact .empty
  | ofField _ he ih =>
    obtain ⟨m, hm, hb, -⟩ := ih.ofField _
    obtain rfl := Except.ok.inj (he.symm.trans hm)
    exact hb
  | insert _ _ he iho ihn =>
    obtain ⟨o', ho', hb, -⟩ := iho.insert ihn _
    obtain rfl := Except.ok.inj (he.symm.trans ho')
    exact hb
  | emptyArray => exact .array (fun _ hn => nomatch hn)
  | push _ _ ihs ihn => exact .array (ihn.push ihs.elements)
  | merge _ _ he iha ihb =>
    obtain ⟨c, hc, hb, -⟩ := built_merge _ iha ihb
    obtain rfl := Except.ok.inj (he.symm.trans hc)
    exact hb
  | @parsed lookup _ e _ _ _ he hmem =>
    obtain ⟨ns, hns, hb, -⟩ := forest_of_nodes lookup e
    obtain rfl := Except.ok.inj (he.symm.trans hns)
    exact hb _ hmem

theorem Built.inside {n : Node} {o : Indexed Node} (h : n.Built) (hi : Inside o n) : Built (.object o) := by
  induction hi with
  | itself => exact h
  | field hf _ ih => exact ih (h.fields _ hf)
  | element hn _ ih => exact ih (h.elements _ hn)

/-- At every depth, the index of an object leads to the slots of its fields and nowhere else. -/
inductive WellIndexed : Node → Prop
  | scalar (s : Scalar) : WellIndexed (.scalar s)
  | object {o : Indexed Node} : o.Sound → (∀ f ∈ o.fields, WellIndexed f.2) → WellIndexed (.object o)
  | array {ns : List Node} : (∀ n ∈ ns, WellIndexed n) → WellIndexed (.array ns)

theorem Built.wellIndexed {n : Node} (h : n.Built) : n.WellIndexed := by
  induction h with
  | scalar s => exact .scalar s
  | object writes hw _ ih => exact .object (sound_absorb Indexed.sound_empty hw).1 ih
  | array _ ih => exact .array ih

theorem WellIndexed.distinct {n : Node} (h : n.WellIndexed) : n.tree.Distinct := by
  induction h with
  | scalar s => exact .scalar s
  | object hs _ ih =>
    rw [tree_object]
    refine .object ((names_fieldTrees _).symm ▸ hs.nodup) ?_
    rw [fieldTrees_eq_map, List.forall_mem_map]
    exact ih
  | array _ ih =>
    rw [tree, trees_eq_map]
    refine .array ?_
    rw [List.forall_mem_map]
    exact ih

theorem Built.distinct {n : Node} (h : n.Built) : n.tree.Distinct := h.wellIndexed.distinct

/-- What the fields and the index of an object tell. -/
structure Consistent (o : Indexed Node) : Prop where
  nodup : (names o.fields).Nodup
  index (name : String) (slot : Nat) : o.index[name]? = some slot ↔ (names o.fields)[slot]? = some name
  /-- A look-up stays in bounds, and finds what stands under the name. -/
  found (name : String) (n : Node) : o.get? name = .ok (some n) ↔ (name, n) ∈ o.fields
  missing (name : String) : o.get? name = .ok none ↔ name ∉ names o.fields
  length : o.length = (names o.fields).toFinset.card
  /-- The object came about by writes, and lists their names in the order in which each came first. -/
  written : ∃ writes, absorb .empty writes = .ok o
  order (writes : List (String × Node)) : absorb .empty writes = .ok o → names o.fields = (names writes).eraseDups
  /-- A write stays in bounds too, and keeps the slots of all names that are there. -/
  insert (name : String) (n : Node) : n.Reachable → ∃ o', insert o name n = .ok o' ∧
    names o'.fields = if name ∈ names o.fields then names o.fields else names o.fields ++ [name]

theorem Built.consistent {o : Indexed Node} (h : Built (.object o)) : Consistent o where
  nodup := h.sound.nodup
  index := h.sound.index
  found name n := by
    rw [h.sound.get?_eq, Except.ok.injEq]
    exact ⟨Fields.mem_of_get?, fun hn => Fields.get?_of_mem h.sound.nodup hn⟩
  missing name := by rw [h.sound.get?_eq, Except.ok.injEq, Fields.get?_eq_none_iff]
  length := by
    rw [List.toFinset_card_of_nodup h.sound.nodup, names, List.length_map]
    rfl
  written := h.writes
  order writes hw := by simpa [Indexed.empty] using (sound_absorb Indexed.sound_empty hw).2
  insert name n hn := by
    obtain ⟨o', ho', -, -⟩ := h.insert hn.built name
    exact ⟨o', ho', (h.sound.put ho').2⟩

/-- In whatever is built, at any depth, the index of an object leads to the slots of its fields and
    nowhere else, and no operation runs past them. So no name of a value comes twice, and no field is lost
    on the way to a document. Without the indexes, an expression builds the trees that it stands for. -/
theorem index_tells_slots {n : Node} (h : n.Reachable) :
    (∀ o, Inside o n → Consistent o) ∧
    (∀ m : Node, m.Reachable → ∃ merged, n.merge m = .ok merged ∧ merged.tree = n.tree.merge m.tree) ∧
    n.produce.Distinct ∧ n.produce.plain = n.produce.finite ∧
    ∀ (lookup : String → Option String) (e : Expression), ∃ ns, e.nodes lookup = .ok ns ∧ ns.map tree = e.forest lookup := by
  have hd : n.produce.Distinct := by
    rw [← produce_tree]
    exact h.built.distinct.produce
  refine ⟨fun o ho => (h.built.inside ho).consistent, ?_, hd, Value.plain_eq_finite _ hd, ?_⟩
  · intro m hm
    obtain ⟨c, hc, -, ht⟩ := built_merge m h.built hm.built
    exact ⟨c, hc, ht⟩
  · intro lookup e
    obtain ⟨ns, hns, -, ht⟩ := forest_of_nodes lookup e
    exact ⟨ns, hns, ht⟩

/-- A name that is written again keeps its slot. -/
theorem index_tells_slots_of_two :
    ∃ o : Indexed Node, (Node.object o).Reachable ∧ names o.fields = ["b", "a"] ∧ o.index["b"]? = some 0 ∧
      o.index["a"]? = some 1 ∧ o.length = 2 := by
  let lookup : String → Option String := fun _ => none
  let e : Expression := .flat [(⟨"b", []⟩, .text "1"), (⟨"a", []⟩, .text "2"), (⟨"b", []⟩, .text "3")]
  have hp : Expression.parse "b=1 a=2 b=3" = .ok e := by with_unfolding_all rfl
  obtain ⟨ns, hns, -, ht⟩ := forest_of_nodes lookup e
  have hforest : e.forest lookup = [.object [("b", .scalar (.string "3")), ("a", .scalar (.string "2"))]] := by
    with_unfolding_all rfl
  rw [hforest] at ht
  obtain ⟨n, rfl, htree⟩ := List.map_eq_singleton_iff.mp ht
  have hr : n.Reachable := .parsed hp hns List.mem_cons_self
  cases n with
  | scalar s => cases htree
  | array ns => cases htree
  | object o =>
    have hfields := Tree.object.inj htree
    have hnames : names o.fields = ["b", "a"] := by
      rw [← names_fieldTrees, hfields]
      rfl
    have hc := (index_tells_slots hr).1 o .itself
    refine ⟨o, hr, hnames, ?_, ?_, ?_⟩
    · rw [hc.index, hnames]; rfl
    · rw [hc.index, hnames]; rfl
    · rw [hc.length, hnames]; rfl

end Node

end ObjectExpr
