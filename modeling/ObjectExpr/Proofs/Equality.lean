/-
  ObjectExpr.Proofs.Equality — what equality is good for. On values, on trees and on nodes in which no name
  comes twice it is symmetric and transitive, and a thing equals itself if no float in it is not-a-number; it
  sees all but the order of fields (`equality_sees_all_but_order`).

  A merge keeps it: equal things with equal things merged into them are equal (`merge_respects_equality`), and
  so on through any number of merges (`Tree.Agree.foldl_merge`). So the order in which the fields of a fragment
  were written never shows in what later merges come to.
-/

import ObjectExpr.Proofs.Tree.Equality

namespace ObjectExpr

/-! ## An equivalence -/

/-- What equality is on things of which some have distinct names and some have no float that is
    not-a-number. -/
structure SeesAllButOrder {α : Type} (Distinct NanFree : α → Prop) (Equal Reordered : α → α → Prop) : Prop where
  refl (v : α) : Distinct v → NanFree v → Equal v v
  symm (v w : α) : Distinct v → Distinct w → Equal v w → Equal w v
  trans (u v w : α) : Distinct u → Distinct v → Distinct w → Equal u v → Equal v w → Equal u w
  iff_reordered (v w : α) : Distinct v → Distinct w → (Equal v w ↔ Reordered v w)

theorem Value.seesAllButOrder : SeesAllButOrder Distinct NanFree (fun v w => v.equal w = true) Reordered where
  refl v hv hn := (equal_iff_reordered hv hv).mpr (.refl hn)
  symm v w hv hw h := equal_comm hv hw ▸ h
  trans u v w hu hv hw h h' := by
    rw [equal_iff_reordered hu hv] at h
    rw [equal_iff_reordered hv hw] at h'
    exact (equal_iff_reordered hu hw).mpr (h.trans h')
  iff_reordered _ _ hv hw := equal_iff_reordered hv hw

/-- Things that compare like their values have the equality of values. -/
theorem SeesAllButOrder.of_produce {α : Type} {Distinct NanFree : α → Prop} {Equal Reordered : α → α → Prop}
    {produce : α → Value} (hd : ∀ v, Distinct v → (produce v).Distinct) (hn : ∀ v, NanFree v → (produce v).NanFree)
    (he : ∀ v w, Distinct v → Distinct w → (Equal v w ↔ (produce v).equal (produce w) = true))
    (hr : ∀ v w, Distinct v → Distinct w → (Equal v w ↔ Reordered v w)) :
    SeesAllButOrder Distinct NanFree Equal Reordered where
  refl v hv hnv := (he v v hv hv).mpr (Value.seesAllButOrder.refl _ (hd v hv) (hn v hnv))
  symm v w hv hw h := by
    rw [he v w hv hw] at h
    exact (he w v hw hv).mpr (Value.seesAllButOrder.symm _ _ (hd v hv) (hd w hw) h)
  trans u v w hu hv hw h h' := by
    rw [he u v hu hv] at h
    rw [he v w hv hw] at h'
    exact (he u w hu hw).mpr (Value.seesAllButOrder.trans _ _ _ (hd u hu) (hd v hv) (hd w hw) h h')
  iff_reordered := hr

theorem Tree.seesAllButOrder :
    SeesAllButOrder Distinct NanFree (fun t u => t.equal u = true) (Reordered Scalar.Same) :=
  .of_produce (fun _ ht => ht.produce) (fun _ ht => ht.produce) (fun _ _ ht hu => by rw [equal_eq_produce ht hu])
    fun _ _ ht hu => equal_iff_reordered ht hu

theorem Node.seesAllButOrder :
    SeesAllButOrder WellIndexed (fun n => n.tree.NanFree) (fun m n => m.equal n = .ok true)
      (fun m n => m.tree.Reordered Scalar.Same n.tree) :=
  .of_produce (fun n hn => produce_tree n ▸ hn.distinct.produce) (fun n hn => produce_tree n ▸ hn.produce)
    (fun _ _ hm hn => by rw [equal_eq_produce hm hn, Except.ok.injEq])
    fun _ _ hm hn => by rw [equal_eq_tree hm hn, Except.ok.injEq, Tree.equal_iff_reordered hm.distinct hn.distinct]

/-- Equality is an equivalence on what has distinct names and no float that is not-a-number, and it sees all
    but the order of fields: with values, with trees, and with nodes, where it goes through the indexes and
    comes to an answer. -/
theorem equality_sees_all_but_order :
    SeesAllButOrder Value.Distinct Value.NanFree (fun v w => v.equal w = true) Value.Reordered ∧
    SeesAllButOrder Tree.Distinct Tree.NanFree (fun t u => t.equal u = true) (Tree.Reordered Scalar.Same) ∧
    SeesAllButOrder Node.WellIndexed (fun n => n.tree.NanFree) (fun m n => m.equal n = .ok true)
      (fun m n => m.tree.Reordered Scalar.Same n.tree) ∧
    ∀ m n : Node, m.WellIndexed → n.WellIndexed → m.equal n = .ok (m.tree.equal n.tree) :=
  ⟨Value.seesAllButOrder, Tree.seesAllButOrder, Node.seesAllButOrder, fun _ _ hm hn => Node.equal_eq_tree hm hn⟩

/-- Neither the order of fields nor the sign of a zero is seen; an integer equals no float. -/
theorem equality_sees_all_but_order_of_two :
    let first := Value.object [("a", .float (.zero false)), ("b", .array [.integer 1])]
    let second := Value.object [("b", .array [.integer 1]), ("a", .float (.zero true))]
    first.Distinct ∧ second.Distinct ∧ first.equal second = true ∧ second.equal first = true ∧
      ¬(Value.integer 1).equal (.float ⟨0x3FF0000000000000⟩) = true := by
  intro first second
  have h := equality_sees_all_but_order.1
  have hd : first.Distinct := by
    simp [first, Value.distinct_object_iff, Value.distinct_array_iff, Value.Distinct.float, Value.Distinct.integer]
  have hd' : second.Distinct := by
    simp [second, Value.distinct_object_iff, Value.distinct_array_iff, Value.Distinct.float, Value.Distinct.integer]
  have hzero : Number.Binary64.SameNumber (.zero false) (.zero true) := Number.Binary64.equal_iff.mp (by decide)
  have hr : first.Reordered second :=
    .object (.cons (.mk "a" (.float hzero)) (.cons (.mk "b" (.array (.cons (.integer 1) .nil))) .nil)) (.swap ..)
  have he := (h.iff_reordered first second hd hd').mpr hr
  refine ⟨hd, hd', he, h.symm _ _ hd hd' he, fun hone => ?_⟩
  cases (h.iff_reordered _ _ (.integer 1) (.float _)).mp hone

/-! ## Merging -/

namespace Tree

/-- Equal trees with distinct names. -/
structure Agree (t u : Tree) : Prop where
  left : t.Distinct
  right : u.Distinct
  equal : t.equal u = true

theorem agree_iff_reordered {t u : Tree} (ht : t.Distinct) (hu : u.Distinct) : Agree t u ↔ Reordered Scalar.Same t u :=
  ⟨fun h => (equal_iff_reordered ht hu).mp h.equal, fun h => ⟨ht, hu, (equal_iff_reordered ht hu).mpr h⟩⟩

variable {a a' b b' : Tree} {fs fs' : List (String × Tree)}

theorem Agree.reordered (h : Agree a b) : Reordered Scalar.Same a b := (agree_iff_reordered h.left h.right).mp h

theorem Agree.merge (ha : Agree a a') (hb : Agree b b') : Agree (a.merge b) (a'.merge b') :=
  (agree_iff_reordered (ha.left.merge hb.left) (ha.right.merge hb.right)).mpr
    (ha.reordered.merge hb.reordered ha.left ha.right hb.left hb.right)

theorem Agree.insert (hf : Agree (.object fs) (.object fs')) (name : String) (ha : Agree a a') :
    Agree (.object (insert fs name a)) (.object (insert fs' name a')) :=
  (agree_iff_reordered (hf.left.insert name ha.left) (hf.right.insert name ha.right)).mpr
    (hf.reordered.insert hf.left hf.right name ha.reordered ha.left ha.right)

theorem Agree.produce (h : Agree a b) : a.produce.equal b.produce = true := equal_eq_produce h.left h.right ▸ h.equal

/-- Any number of fragments, each merged into what the ones before it came to. -/
theorem Agree.foldl_merge {ts us : List Tree} (ha : Agree a a') (h : List.Forall₂ Agree ts us) :
    Agree (ts.foldl Tree.merge a) (us.foldl Tree.merge a') := by
  induction h generalizing a a' with
  | nil => exact ha
  | cons ht _ ih => exact ih (ha.merge ht)

end Tree

namespace Node

/-- Equal nodes that the operations can come to. -/
structure Agree (m n : Node) : Prop where
  left : m.Reachable
  right : n.Reachable
  equal : m.equal n = .ok true

theorem agree_iff_tree {m n : Node} (hm : m.Reachable) (hn : n.Reachable) : Agree m n ↔ m.tree.Agree n.tree := by
  have he := equal_eq_tree hm.built.wellIndexed hn.built.wellIndexed
  constructor
  · intro h
    exact ⟨hm.built.distinct, hn.built.distinct, Except.ok.inj (he.symm.trans h.equal)⟩
  · intro h
    exact ⟨hm, hn, h.equal ▸ he⟩

variable {a a' b b' : Node} {o o' : Indexed Node}

theorem Agree.tree (h : Agree a b) : a.tree.Agree b.tree := (agree_iff_tree h.left h.right).mp h

theorem Agree.merge (ha : Agree a a') (hb : Agree b b') :
    ∃ c c', a.merge b = .ok c ∧ a'.merge b' = .ok c' ∧ Agree c c' := by
  obtain ⟨c, hc, -, ht⟩ := built_merge b ha.left.built hb.left.built
  obtain ⟨c', hc', -, ht'⟩ := built_merge b' ha.right.built hb.right.built
  refine ⟨c, c', hc, hc', (agree_iff_tree (.merge ha.left hb.left hc) (.merge ha.right hb.right hc')).mpr ?_⟩
  rw [ht, ht']
  exact ha.tree.merge hb.tree

theorem Agree.insert (ho : Agree (.object o) (.object o')) (name : String) (ha : Agree a a') :
    ∃ p p', insert o name a = .ok p ∧ insert o' name a' = .ok p' ∧ Agree (.object p) (.object p') := by
  obtain ⟨p, hp, -, ht⟩ := ho.left.built.insert ha.left.built name
  obtain ⟨p', hp', -, ht'⟩ := ho.right.built.insert ha.right.built name
  refine ⟨p, p', hp, hp', (agree_iff_tree (.insert ho.left ha.left hp) (.insert ho.right ha.right hp')).mpr ?_⟩
  rw [tree_object, tree_object, ht, ht']
  exact ho.tree.insert name ha.tree

theorem Agree.produce (h : Agree a b) : a.produce.equal b.produce = true := by
  rw [← produce_tree, ← produce_tree]
  exact h.tree.produce

end Node

/-- Equal things merge to equal things, whatever is merged into them after; and a field that is written into
    equal objects leaves equal objects. With nodes no merge and no write runs past a slot. -/
theorem merge_respects_equality :
    (∀ a a' b b' : Tree, a.Agree a' → b.Agree b' → (a.merge b).Agree (a'.merge b')) ∧
    (∀ (fs fs' : List (String × Tree)) (name : String) (c c' : Tree), (Tree.object fs).Agree (.object fs') →
      c.Agree c' → (Tree.object (Tree.insert fs name c)).Agree (.object (Tree.insert fs' name c'))) ∧
    (∀ (a a' : Tree) (ts us : List Tree), a.Agree a' → List.Forall₂ Tree.Agree ts us →
      (ts.foldl Tree.merge a).produce.equal (us.foldl Tree.merge a').produce = true) ∧
    (∀ a a' b b' : Node, a.Agree a' → b.Agree b' →
      ∃ c c', a.merge b = .ok c ∧ a'.merge b' = .ok c' ∧ c.Agree c' ∧ c.produce.equal c'.produce = true) ∧
    ∀ (o o' : Indexed Node) (name : String) (c c' : Node), (Node.object o).Agree (.object o') → c.Agree c' →
      ∃ p p', Node.insert o name c = .ok p ∧ Node.insert o' name c' = .ok p' ∧ (Node.object p).Agree (.object p') := by
  refine ⟨fun _ _ _ _ ha hb => ha.merge hb, fun _ _ name _ _ hf hc => hf.insert name hc,
    fun _ _ _ _ ha h => (ha.foldl_merge h).produce, fun _ _ _ _ ha hb => ?_, fun _ _ name _ _ ho hc => ho.insert name hc⟩
  obtain ⟨c, c', hc, hc', h⟩ := ha.merge hb
  exact ⟨c, c', hc, hc', h, h.produce⟩

/-- Two fragments in two orders, written over what is there. -/
theorem merge_respects_equality_of_two :
    let text (s : String) := Tree.scalar (.string s)
    let a := Tree.object [("x", .object [("p", text "1"), ("q", text "2")]), ("y", text "3")]
    let a' := Tree.object [("y", text "3"), ("x", .object [("q", text "2"), ("p", text "1")])]
    let b := Tree.object [("x", .object [("q", text "4"), ("r", text "5")]), ("z", text "6")]
    let b' := Tree.object [("z", text "6"), ("x", .object [("r", text "5"), ("q", text "4")])]
    a.Agree a' ∧ b.Agree b' ∧ (a.merge b).Agree (a'.merge b') := by
  intro text a a' b b'
  have ha : a.Agree a' := by
    refine ⟨?_, ?_, by with_unfolding_all rfl⟩ <;>
      simp [a, a', text, Tree.distinct_object_iff, Tree.Distinct.scalar]
  have hb : b.Agree b' := by
    refine ⟨?_, ?_, by with_unfolding_all rfl⟩ <;>
      simp [b, b', text, Tree.distinct_object_iff, Tree.Distinct.scalar]
  exact ⟨ha, hb, merge_respects_equality.1 a a' b b' ha hb⟩

end ObjectExpr
