/-
  ObjectExpr.Proofs.Tree.Fields — the fields of an object after writes, seen through their names and
  through look-ups. A write keeps the place of a name that is there and puts a new one at the end
  (`names_put`); it changes what is found under its own name and nothing else (`get?_put`). An object
  takes in another name by name (`names_insertAll`, `get?_insertAll`). With distinct names, the names in
  their order and the look-ups are all there is to know (`Fields.ext`).
-/

import ObjectExpr.Tree

namespace ObjectExpr

namespace Fields

variable {α : Type} {fs gs : List (String × α)}

@[simp] theorem names_nil : names ([] : List (String × α)) = [] := rfl

@[simp] theorem names_cons (f : String × α) (fs : List (String × α)) : names (f :: fs) = f.1 :: names fs := rfl

@[simp] theorem get?_nil (name : String) : get? ([] : List (String × α)) name = none := rfl

theorem get?_cons (f : String × α) (fs : List (String × α)) (name : String) :
    get? (f :: fs) name = if name = f.1 then some f.2 else get? fs name := by
  obtain ⟨n, a⟩ := f
  by_cases h : name = n
  · subst h; simp [get?]
  · simp [get?, List.lookup_cons, beq_eq_false_iff_ne.mpr h, h]

theorem mem_names {f : String × α} (h : f ∈ fs) : f.1 ∈ names fs := List.mem_map_of_mem h

theorem get?_eq_none_iff {name : String} : get? fs name = none ↔ name ∉ names fs := by
  induction fs with
  | nil => simp
  | cons f fs ih =>
    rw [get?_cons, names_cons, List.mem_cons, not_or]
    by_cases h : name = f.1
    · simp [h]
    · simp [h, ih]

theorem mem_of_get? {name : String} {a : α} (h : get? fs name = some a) : (name, a) ∈ fs := by
  induction fs with
  | nil => cases h
  | cons f fs ih =>
    rw [get?_cons] at h
    split at h
    · next hn =>
      obtain rfl := Option.some.inj h
      rw [hn]
      exact List.mem_cons_self
    · exact List.mem_cons_of_mem _ (ih h)

theorem get?_of_mem (hd : (names fs).Nodup) {f : String × α} (h : f ∈ fs) : get? fs f.1 = some f.2 := by
  induction fs with
  | nil => cases h
  | cons g fs ih =>
    obtain ⟨hg, hd⟩ := List.nodup_cons.mp hd
    rw [get?_cons]
    rcases List.mem_cons.mp h with rfl | h
    · rw [if_pos rfl]
    · have hf := mem_names h
      have hne : f.1 ≠ g.1 := by intro he; rw [he] at hf; exact hg hf
      rw [if_neg hne, ih hd h]

section

variable {β : Type} (g : α → β)

theorem names_map (fs : List (String × α)) : names (fs.map fun f => (f.1, g f.2)) = names fs := by
  rw [names, names, List.map_map]
  rfl

theorem get?_map (fs : List (String × α)) (name : String) :
    get? (fs.map fun f => (f.1, g f.2)) name = (get? fs name).map g := by
  induction fs with
  | nil => rfl
  | cons f fs ih =>
    rw [List.map_cons, get?_cons, get?_cons, ih]
    split <;> rfl

end

/-- Fields with distinct names are given by the order of the names and by what stands under each. -/
theorem ext (hn : names fs = names gs) (hd : (names fs).Nodup) (h : ∀ name, get? fs name = get? gs name) : fs = gs := by
  induction fs generalizing gs with
  | nil => exact (List.map_eq_nil_iff.mp hn.symm).symm
  | cons f fs ih =>
    cases gs with
    | nil => cases hn
    | cons g gs =>
      obtain ⟨n, a⟩ := f
      obtain ⟨m, b⟩ := g
      obtain ⟨rfl, hns⟩ : n = m ∧ names fs = names gs := List.cons.inj hn
      obtain ⟨hf, hd⟩ := List.nodup_cons.mp hd
      have hab := h n
      rw [get?_cons, get?_cons, if_pos rfl, if_pos rfl] at hab
      have hs : ∀ name, get? fs name = get? gs name := by
        intro name
        by_cases he : name = n
        · subst he
          rw [get?_eq_none_iff.mpr hf, get?_eq_none_iff.mpr (hns ▸ hf)]
        · have := h name
          rwa [get?_cons, get?_cons, if_neg he, if_neg he] at this
      obtain rfl : a = b := Option.some.inj hab
      rw [ih hns hd hs]

/-! ## One write -/

variable {name : String} {new : α} {join : α → α}

theorem names_put : names (put name new join fs) = if name ∈ names fs then names fs else names fs ++ [name] := by
  induction fs with
  | nil => rfl
  | cons f fs ih =>
    obtain ⟨n, old⟩ := f
    rw [put]
    split
    · next h => simp [h]
    · next h =>
      rw [names_cons, ih, names_cons]
      by_cases hm : name ∈ names fs
      · simp [hm]
      · simp [hm, Ne.symm h]

theorem get?_put (other : String) :
    get? (put name new join fs) other = if other = name then some ((get? fs name).elim new join) else get? fs other := by
  induction fs with
  | nil => simp [put, get?_cons]
  | cons f fs ih =>
    obtain ⟨n, old⟩ := f
    rw [put]
    split
    · next h =>
      subst h
      by_cases ho : other = n
      · simp [get?_cons, ho]
      · simp [get?_cons, ho]
    · next h =>
      rw [get?_cons, ih, get?_cons, get?_cons]
      by_cases ho : other = n
      · subst ho; simp [h]
      · simp [ho, Ne.symm h]

end Fields

namespace Tree

open Fields (names get?)

variable {fs gs : List (String × Tree)}

/-! ## Many writes -/

theorem merge_object (fs gs : List (String × Tree)) : merge (.object fs) (.object gs) = .object (insertAll fs gs) := by
  rw [merge, absorb_eq_insertAll]

@[simp] theorem insertAll_nil (fs : List (String × Tree)) : insertAll fs [] = fs := rfl

theorem insertAll_cons (fs : List (String × Tree)) (g : String × Tree) (gs : List (String × Tree)) :
    insertAll fs (g :: gs) = insertAll (insert fs g.1 g.2) gs := rfl

theorem insertAll_append (fs gs hs : List (String × Tree)) :
    insertAll fs (gs ++ hs) = insertAll (insertAll fs gs) hs := List.foldl_append

theorem merge_ofField (fs : List (String × Tree)) (name : String) (t : Tree) :
    merge (.object fs) (.ofField name t) = .object (insert fs name t) := rfl

theorem names_insert (name : String) (t : Tree) :
    names (insert fs name t) = if name ∈ names fs then names fs else names fs ++ [name] :=
  Fields.names_put

theorem get?_insert (name : String) (t : Tree) (other : String) :
    get? (insert fs name t) other = if other = name then (get? fs name).merge merge (some t) else get? fs other := by
  rw [insert, Fields.get?_put]
  cases get? fs name <;> rfl

theorem names_insertAll (hg : (names gs).Nodup) :
    names (insertAll fs gs) = names fs ++ (names gs).filter (· ∉ names fs) := by
  induction gs generalizing fs with
  | nil => simp
  | cons g gs ih =>
    obtain ⟨hn, hg⟩ := List.nodup_cons.mp hg
    rw [insertAll_cons, ih hg, names_insert, Fields.names_cons]
    by_cases h : g.1 ∈ names fs
    · simp [h]
    · have hf : ∀ m ∈ names gs, (decide (m ∉ names fs ++ [g.1])) = decide (m ∉ names fs) := by
        intro m hm
        have hne : m ≠ g.1 := by intro he; rw [he] at hm; exact hn hm
        simp [hne]
      rw [if_neg h, List.filter_congr hf, List.filter_cons_of_pos (by simpa using h), List.append_assoc]
      rfl

/-- What two objects hold under a name is merged; what one of them holds is kept. -/
theorem get?_insertAll (hg : (names gs).Nodup) (name : String) :
    get? (insertAll fs gs) name = (get? fs name).merge merge (get? gs name) := by
  induction gs generalizing fs with
  | nil => simp
  | cons g gs ih =>
    obtain ⟨hn, hg⟩ := List.nodup_cons.mp hg
    rw [insertAll_cons, ih hg, get?_insert, Fields.get?_cons]
    by_cases h : name = g.1
    · subst h
      simp [Fields.get?_eq_none_iff.mpr hn]
    · simp [h]

/-- Fields with distinct names make an object of just these fields. -/
theorem insertAll_empty (hd : (names fs).Nodup) : insertAll [] fs = fs := by
  have hn : names (insertAll [] fs) = names fs := by simp [names_insertAll hd]
  refine Fields.ext hn (hn ▸ hd) fun name => ?_
  rw [get?_insertAll hd, Fields.get?_nil, Option.merge_none_left]

theorem nodup_insertAll (hf : (names fs).Nodup) (hg : (names gs).Nodup) : (names (insertAll fs gs)).Nodup := by
  rw [names_insertAll hg]
  refine List.nodup_append.mpr ⟨hf, hg.filter _, ?_⟩
  rintro a ha b hb rfl
  have := (List.mem_filter.mp hb).2
  simp [ha] at this

end Tree

end ObjectExpr
