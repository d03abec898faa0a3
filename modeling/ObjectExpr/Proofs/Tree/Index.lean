/-
  ObjectExpr.Proofs.Tree.Index — an index that tells the slots of the fields (`Indexed.Sound`): no name
  stands in two slots, and the index leads from each name that is there to its slot, and from no other name
  anywhere. In an object with such an index, a write goes one of two ways, and neither past the last slot
  (`Sound.put_cases`); it leaves such an index (`Sound.put`). A look-up finds the field of its name
  (`Sound.get?_eq`).
-/

import ObjectExpr.Indexed
import ObjectExpr.Proofs.Grammar.Reading
import ObjectExpr.Proofs.Tree.Fields

namespace ObjectExpr

open Fields (names)

namespace Indexed

variable {α : Type} {o o' : Indexed α} {name : String} {new vacant : α} {join : α → Except OutOfBounds α}

/-- The index leads from each name to the slot of its field, and no name has two. -/
structure Sound (o : Indexed α) : Prop where
  nodup : (names o.fields).Nodup
  index : ∀ (name : String) (slot : Nat), o.index[name]? = some slot ↔ (names o.fields)[slot]? = some name

theorem sound_empty : (empty : Indexed α).Sound := by
  refine ⟨List.nodup_nil, ?_⟩
  intro name slot
  simp [empty]

theorem Sound.index_eq_none_iff (h : o.Sound) : o.index[name]? = none ↔ name ∉ names o.fields := by
  rw [List.mem_iff_getElem?, Option.eq_none_iff_forall_ne_some, not_exists]
  exact forall_congr' fun slot => not_congr (h.index name slot)

/-- The field that the index leads to. -/
theorem Sound.exists_of_index (h : o.Sound) {i : Nat} (hi : o.index[name]? = some i) :
    ∃ before old behind, o.fields = before ++ (name, old) :: behind ∧ before.length = i := by
  have hn := (h.index name i).mp hi
  rw [names, List.getElem?_map, Option.map_eq_some_iff] at hn
  obtain ⟨⟨n, old⟩, hf, rfl⟩ := hn
  obtain ⟨hlt, hf⟩ := List.getElem?_eq_some_iff.mp hf
  refine ⟨o.fields.take i, old, o.fields.drop (i + 1), ?_, ?_⟩
  · rw [← hf, List.getElem_cons_drop, List.take_append_drop]
  · rw [List.length_take]
    omega

theorem slot_length {before behind : List (String × α)} {f : String × α} (hf : o.fields = before ++ f :: behind) :
    o.slot before.length = .ok f := by
  rw [slot, hf, List.getElem?_append_right (Nat.le_refl _), Nat.sub_self]
  rfl

/-- A write puts a new name behind the last field, or joins what is in the slot of its name. -/
theorem Sound.put_cases (h : o.Sound) (name : String) (new vacant : α) (join : α → Except OutOfBounds α) :
    (name ∉ names o.fields ∧
      o.put name new vacant join = .ok ⟨o.fields ++ [(name, new)], o.index.insert name o.length⟩) ∨
    ∃ before old behind, o.fields = before ++ (name, old) :: behind ∧
      o.put name new vacant join = (fun joined => ⟨before ++ (name, joined) :: behind, o.index⟩) <$> join old := by
  cases hi : o.index[name]? with
  | none =>
    refine .inl ⟨h.index_eq_none_iff.mp hi, ?_⟩
    rw [put, hi]
  | some i =>
    obtain ⟨before, old, behind, hf, rfl⟩ := h.exists_of_index hi
    refine .inr ⟨before, old, behind, hf, ?_⟩
    have hset (joined : α) : (o.fields.set before.length (name, vacant)).set before.length (name, joined) =
        before ++ (name, joined) :: behind := by
      rw [List.set_set, hf, List.set_append_right _ _ (Nat.le_refl _), Nat.sub_self, List.set_cons_zero]
    simp only [put, hi, slot_length hf, bind, Except.bind, hset]

theorem Sound.append (h : o.Sound) (hn : name ∉ names o.fields) (new : α) :
    Sound ⟨o.fields ++ [(name, new)], o.index.insert name o.length⟩ := by
  have hnames : names (o.fields ++ [(name, new)]) = names o.fields ++ [name] := by simp [names]
  have hlength : o.length = (names o.fields).length := by simp [length, names]
  refine ⟨?_, ?_⟩
  · rw [hnames, List.nodup_append]
    refine ⟨h.nodup, by simp, ?_⟩
    intro a ha b hb
    obtain rfl := List.mem_singleton.mp hb
    rintro rfl
    exact hn ha
  · intro other slot
    rw [hnames, Std.HashMap.getElem?_insert, List.getElem?_append, ← hlength]
    by_cases ho : name = other
    · subst ho
      rw [if_pos (by simp)]
      constructor
      · rintro heq
        obtain rfl := Option.some.inj heq
        simp
      · intro heq
        split at heq
        · exact absurd (List.mem_of_getElem? heq) hn
        · next hlt =>
          have := (List.getElem?_eq_some_iff.mp heq).1
          rw [List.length_singleton] at this
          congr 1
          omega
    · rw [if_neg (by simpa using ho), h.index]
      split
      · rfl
      · next hlt =>
        have hout : (names o.fields)[slot]? = none := List.getElem?_eq_none (by omega)
        rw [hout, List.getElem?_singleton]
        split <;> simp [ho]

/-- A write keeps the index sound; a name that is there keeps its slot, and a new one comes last. -/
theorem Sound.put (h : o.Sound) (hp : o.put name new vacant join = .ok o') :
    o'.Sound ∧ names o'.fields = if name ∈ names o.fields then names o.fields else names o.fields ++ [name] := by
  rcases h.put_cases name new vacant join with ⟨hn, he⟩ | ⟨before, old, behind, hf, he⟩
  · obtain rfl := Except.ok.inj (he.symm.trans hp)
    refine ⟨h.append hn new, ?_⟩
    rw [if_neg hn]
    simp [names]
  · obtain ⟨joined, -, rfl⟩ := map_eq_ok_iff.mp (he.symm.trans hp)
    have hnames : names (before ++ (name, joined) :: behind) = names o.fields := by simp [names, hf]
    refine ⟨⟨hnames ▸ h.nodup, hnames ▸ h.index⟩, ?_⟩
    rw [hnames, if_pos (by simp [names, hf])]

/-- A look-up finds the field of its name, in bounds. -/
theorem Sound.get?_eq (h : o.Sound) (name : String) : o.get? name = .ok (Fields.get? o.fields name) := by
  cases hi : o.index[name]? with
  | none => rw [get?, hi, Fields.get?_eq_none_iff.mpr (h.index_eq_none_iff.mp hi)]
  | some i =>
    obtain ⟨before, old, behind, hf, rfl⟩ := h.exists_of_index hi
    have hmem : (name, old) ∈ o.fields := by simp [hf]
    rw [get?, hi, Fields.get?_of_mem h.nodup hmem]
    simp only [slot_length hf]
    rfl

end Indexed

end ObjectExpr
