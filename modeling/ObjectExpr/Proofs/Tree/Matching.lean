/-
  ObjectExpr.Proofs.Tree.Matching — fields that match by name, whatever their order: both sides have the same
  names, and under each name stand things that are related (`Fields.Matched`). Where no name comes twice,
  looking up every field of one side on the other is enough, if both have as many (`matched_iff`): then no
  name of the other side is left over. And matching is to say that one side can be put in the order of the
  other, field by field (`matched_iff_exists_perm`).
-/

import Mathlib.Data.List.Perm.Subperm
import ObjectExpr.Proofs.Tree.Fields

namespace ObjectExpr

/-! ## One after another -/

section

variable {α β : Type}

theorem forall₂_congr_of_mem {R S : α → β → Prop} {xs : List α} {ys : List β}
    (h : ∀ x ∈ xs, ∀ y ∈ ys, R x y ↔ S x y) : List.Forall₂ R xs ys ↔ List.Forall₂ S xs ys := by
  rw [List.forall₂_iff_zip, List.forall₂_iff_zip]
  refine and_congr_right fun _ => forall_congr' fun x => forall_congr' fun y => forall_congr' fun hxy => ?_
  obtain ⟨hx, hy⟩ := List.of_mem_zip hxy
  exact h x hx y hy

theorem forall₂_trans_of_mem {R : α → α → Prop} {xs ys zs : List α} (h : List.Forall₂ R xs ys)
    (h' : List.Forall₂ R ys zs) (ht : ∀ x ∈ xs, ∀ y z, R x y → R y z → R x z) : List.Forall₂ R xs zs := by
  induction h generalizing zs with
  | nil => exact h'
  | cons hxy _ ih =>
    obtain ⟨hx, ht⟩ := List.forall_mem_cons.mp ht
    cases h' with
    | cons hyz h' => exact .cons (hx _ _ hxy hyz) (ih h' ht)

end

namespace Fields

/-! ## In any order -/

section

variable {α : Type} {fs gs : List (String × α)}

theorem get?_eq_some_iff (hd : (names fs).Nodup) {name : String} {a : α} : get? fs name = some a ↔ (name, a) ∈ fs :=
  ⟨mem_of_get?, get?_of_mem hd⟩

theorem perm_names (h : fs.Perm gs) : (names fs).Perm (names gs) := h.map Prod.fst

/-- Of fields with distinct names, the order does not show in a look-up. -/
theorem get?_perm (h : fs.Perm gs) (hd : (names fs).Nodup) (name : String) : get? fs name = get? gs name := by
  have hd' : (names gs).Nodup := (perm_names h).nodup_iff.mp hd
  refine Option.ext fun a => ?_
  rw [get?_eq_some_iff hd, get?_eq_some_iff hd', h.mem_iff]

/-- The fields of these names, in the order of the names. -/
def inOrder (ns : List String) (fs : List (String × α)) : List (String × α) :=
  ns.filterMap fun name => (get? fs name).map fun a => (name, a)

theorem inOrder_names (hd : (names fs).Nodup) : inOrder (names fs) fs = fs := by
  have hself : ∀ f ∈ fs, ((get? fs f.1).map fun a => (f.1, a)) = some f := by
    intro f hf
    rw [get?_of_mem hd hf]
    rfl
  rw [inOrder, names, List.filterMap_map]
  exact (List.filterMap_congr hself).trans List.filterMap_some

end

/-! ## Matching -/

variable {α β : Type} {S : α → β → Prop} {fs : List (String × α)} {gs : List (String × β)}

/-- The same names on both sides, and things that are related under each. -/
structure Matched (S : α → β → Prop) (fs : List (String × α)) (gs : List (String × β)) : Prop where
  perm_names : (names fs).Perm (names gs)
  get? : ∀ name, Option.Rel S (get? fs name) (get? gs name)

/-- Two fields of one name with things that are related. -/
inductive SameName (S : α → β → Prop) : String × α → String × β → Prop
  | mk (name : String) {a : α} {b : β} : S a b → SameName S (name, a) (name, b)

theorem rel_swap {x : Option α} {y : Option β} (h : Option.Rel S x y) : Option.Rel (Function.swap S) y x := by
  cases h with
  | none => exact .none
  | some h => exact .some h

theorem Matched.symm (h : Matched S fs gs) : Matched (Function.swap S) gs fs :=
  ⟨h.perm_names.symm, fun name => rel_swap (h.get? name)⟩

theorem matched_swap_iff : Matched S fs gs ↔ Matched (Function.swap S) gs fs :=
  ⟨Matched.symm, Matched.symm⟩

theorem Matched.exists_get? (h : Matched S fs gs) (hd : (names fs).Nodup) {f : String × α} (hf : f ∈ fs) :
    ∃ b, Fields.get? gs f.1 = some b ∧ S f.2 b := by
  have hrel := h.get? f.1
  rw [get?_of_mem hd hf] at hrel
  generalize Fields.get? gs f.1 = y at hrel
  cases hrel with
  | some hs => exact ⟨_, rfl, hs⟩

/-- Where both sides have as many fields, none is left over on the right. -/
theorem matched_of_length (hd : (names fs).Nodup) (hl : fs.length = gs.length)
    (h : ∀ f ∈ fs, ∃ b, get? gs f.1 = some b ∧ S f.2 b) : Matched S fs gs := by
  have hsub : names fs ⊆ names gs := by
    intro name hname
    obtain ⟨f, hf, rfl⟩ := List.mem_map.mp hname
    obtain ⟨b, hb, -⟩ := h f hf
    exact mem_names (mem_of_get? hb)
  have hlen : (names gs).length ≤ (names fs).length := by simp [names, hl]
  have hperm : (names fs).Perm (names gs) := (List.subperm_of_subset hd hsub).perm_of_length_le hlen
  refine ⟨hperm, fun name => ?_⟩
  cases hx : get? fs name with
  | none =>
    have hname : name ∉ names gs := fun hm => get?_eq_none_iff.mp hx (hperm.mem_iff.mpr hm)
    rw [get?_eq_none_iff.mpr hname]
    exact .none
  | some a =>
    obtain ⟨b, hb, hs⟩ := h (name, a) (mem_of_get? hx)
    rw [hb]
    exact .some hs

theorem Matched.length (h : Matched S fs gs) : fs.length = gs.length := by
  have hlen := h.perm_names.length_eq
  rwa [names, names, List.length_map, List.length_map] at hlen

/-- As many fields, and a look-up from one side only. -/
theorem matched_iff (hd : (names fs).Nodup) :
    Matched S fs gs ↔ fs.length = gs.length ∧ ∀ f ∈ fs, ∃ b, get? gs f.1 = some b ∧ S f.2 b := by
  constructor
  · intro h
    exact ⟨h.length, fun f hf => h.exists_get? hd hf⟩
  · rintro ⟨hl, h⟩
    exact matched_of_length hd hl h

/-- What is related does not matter beyond the things that stand in the fields. -/
theorem matched_congr {T : α → β → Prop} (hd : (names fs).Nodup) (h : ∀ f ∈ fs, ∀ g ∈ gs, S f.2 g.2 ↔ T f.2 g.2) :
    Matched S fs gs ↔ Matched T fs gs := by
  rw [matched_iff hd, matched_iff hd]
  refine and_congr_right fun _ => forall₂_congr fun f hf => exists_congr fun b => and_congr_right fun hb => ?_
  exact h f hf _ (mem_of_get? hb)

theorem rel_map_iff {γ δ : Type} {T : γ → δ → Prop} {g : α → γ} {h : β → δ} {x : Option α} {y : Option β} :
    Option.Rel T (x.map g) (y.map h) ↔ Option.Rel (fun a b => T (g a) (h b)) x y := by
  cases x <;> cases y <;> simp

theorem matched_map_iff {γ δ : Type} {T : γ → δ → Prop} {g : α → γ} {h : β → δ} :
    Matched T (fs.map fun f => (f.1, g f.2)) (gs.map fun f => (f.1, h f.2)) ↔
      Matched (fun a b => T (g a) (h b)) fs gs := by
  constructor
  · rintro ⟨hn, hr⟩
    rw [names_map, names_map] at hn
    simp only [get?_map, rel_map_iff] at hr
    exact ⟨hn, hr⟩
  · rintro ⟨hn, hr⟩
    refine ⟨?_, ?_⟩
    · rwa [names_map, names_map]
    · simpa only [get?_map, rel_map_iff] using hr

/-! ## In one order -/

theorem rel_get?_of_forall₂ (h : List.Forall₂ (SameName S) fs gs) (name : String) :
    Option.Rel S (get? fs name) (get? gs name) := by
  induction h with
  | nil => exact .none
  | cons hfg _ ih =>
    cases hfg with
    | mk n hs =>
      rw [get?_cons, get?_cons]
      by_cases hn : name = n
      · rw [if_pos hn, if_pos hn]
        exact .some hs
      · rw [if_neg hn, if_neg hn]
        exact ih

theorem names_eq_of_forall₂ (h : List.Forall₂ (SameName S) fs gs) : names fs = names gs := by
  induction h with
  | nil => rfl
  | cons hfg _ ih => cases hfg with | mk n _ => rw [names_cons, names_cons, ih]

theorem Matched.forall₂_inOrder (h : Matched S fs gs) (hd : (names fs).Nodup) :
    List.Forall₂ (SameName S) fs (inOrder (names fs) gs) := by
  have hpart : ∀ part : List (String × α), (∀ f ∈ part, f ∈ fs) →
      List.Forall₂ (SameName S) part (inOrder (names part) gs) := by
    intro part hp
    induction part with
    | nil => exact .nil
    | cons f part ih =>
      obtain ⟨hf, hp⟩ := List.forall_mem_cons.mp hp
      obtain ⟨b, hb, hs⟩ := h.exists_get? hd hf
      rw [names_cons, inOrder, List.filterMap_cons, hb]
      exact .cons (.mk f.1 hs) (ih hp)
  exact hpart fs fun _ hf => hf

/-- Fields match just if one side can be put in the order of the other. -/
theorem matched_iff_exists_perm (hd : (names fs).Nodup) (hd' : (names gs).Nodup) :
    Matched S fs gs ↔ ∃ hs, List.Forall₂ (SameName S) fs hs ∧ hs.Perm gs := by
  constructor
  · intro h
    refine ⟨inOrder (names fs) gs, h.forall₂_inOrder hd, ?_⟩
    have hp : (inOrder (names fs) gs).Perm (inOrder (names gs) gs) := h.perm_names.filterMap _
    rwa [inOrder_names hd'] at hp
  · rintro ⟨hs, hf, hp⟩
    refine ⟨names_eq_of_forall₂ hf ▸ Fields.perm_names hp, fun name => ?_⟩
    rw [get?_perm hp.symm hd' name]
    exact rel_get?_of_forall₂ hf name

end Fields

end ObjectExpr
