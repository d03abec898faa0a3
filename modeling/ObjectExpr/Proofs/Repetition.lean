/-
  ObjectExpr.Proofs.Repetition — fields that are written twice over. Merging is not associative, so a
  sequence of writes is not one write, and the second pass wipes out and builds again what the first one
  did. Yet it ends where it began (`insertAll_twice`).

  What an object has under a name is what all the writes under this name merge to, one after another
  (`get?_insertAll_written`). If there is a leaf among them, nothing before it shows, neither what was
  written nor what was there (`mergeAll_past_leaf`). If there are only objects, their fields are written
  into one object (`mergeAll_objects`), and these trees are lower, which carries the induction
  (`mergeAll_twice`). So an expression of fields that is repeated behind blanks stands for the same tree
  (`repeating_changes_nothing`).
-/

import ObjectExpr.Proofs.Concatenation
import ObjectExpr.Proofs.Tree.Height

namespace ObjectExpr

namespace Tree

open Fields (names get?)

/-! ## Merging one after another -/

def mergeAll (t : Tree) (us : List Tree) : Tree := us.foldl merge t

@[simp] theorem mergeAll_nil (t : Tree) : mergeAll t [] = t := rfl

@[simp] theorem mergeAll_cons (t u : Tree) (us : List Tree) : mergeAll t (u :: us) = mergeAll (t.merge u) us := rfl

/-- Nothing before a leaf shows. -/
theorem mergeAll_past_leaf {u : Tree} (hu : u.isObject = false) (t : Tree) (us vs : List Tree) :
    mergeAll t (us ++ u :: vs) = mergeAll u vs := by
  rw [mergeAll, List.foldl_append, List.foldl_cons, merge_eq_right_of_leaf _ hu]
  rfl

theorem mergeAll_objects (fs : List (String × Tree)) (gss : List (List (String × Tree))) :
    mergeAll (object fs) (gss.map object) = object (insertAll fs gss.flatten) := by
  induction gss generalizing fs with
  | nil => rfl
  | cons gs gss ih => rw [List.map_cons, mergeAll_cons, merge_object, ih, List.flatten_cons, insertAll_append]

theorem exists_objects {us : List Tree} (h : ∀ u ∈ us, u.isObject = true) :
    ∃ gss : List (List (String × Tree)), us = gss.map object := by
  induction us with
  | nil => exact ⟨[], rfl⟩
  | cons u us ih =>
    obtain ⟨hu, hus⟩ := List.forall_mem_cons.mp h
    obtain ⟨gs, rfl⟩ := isObject_iff.mp hu
    obtain ⟨gss, rfl⟩ := ih hus
    exact ⟨gs :: gss, rfl⟩

theorem empty_merge {u : Tree} (h : u.Distinct) : (object []).merge u = u := by
  cases u with
  | object gs => rw [merge_object, insertAll_empty h.nodup]
  | _ => rfl

/-! ## Writes under one name -/

variable {fs gs : List (String × Tree)}

/-- What some fields have under a name, in their order. -/
def under (name : String) (gs : List (String × Tree)) : List Tree := (gs.filter fun g => g.1 = name).map (·.2)

theorem mem_under {name : String} {u : Tree} : u ∈ under name gs ↔ (name, u) ∈ gs := by
  simp [under]

theorem under_eq_nil {name : String} (h : name ∉ names gs) : under name gs = [] := by
  refine List.eq_nil_iff_forall_not_mem.mpr ?_
  intro u hu
  exact h (Fields.mem_names (mem_under.mp hu))

/-- What an object has under a name takes in all that is written there, one after another. -/
theorem get?_insertAll_written (fs gs : List (String × Tree)) (name : String) :
    get? (insertAll fs gs) name =
      if name ∈ names gs then some (mergeAll ((get? fs name).getD (.scalar .null)) (under name gs)) else get? fs name := by
  induction gs generalizing fs with
  | nil => simp
  | cons g gs ih =>
    obtain ⟨n, u⟩ := g
    rw [insertAll_cons, ih, get?_insert, Fields.names_cons]
    by_cases hn : name = n
    · subst hn
      have hput : (get? fs name).merge merge (some u) = some (((get? fs name).getD (.scalar .null)).merge u) := by
        cases get? fs name with
        | none => rw [Option.merge_none_left, Option.getD_none, merge_eq_right rfl]
        | some x => rfl
      have hcons : under name ((name, u) :: gs) = u :: under name gs := by simp [under]
      rw [if_pos rfl, if_pos List.mem_cons_self, hput, hcons, mergeAll_cons, Option.getD_some]
      by_cases hm : name ∈ names gs
      · rw [if_pos hm]
      · rw [if_neg hm, under_eq_nil hm, mergeAll_nil]
    · have hcons : under name ((n, u) :: gs) = under name gs := by simp [under, Ne.symm hn]
      simp [hn, hcons]

theorem mem_names_insertAll {name : String} (h : name ∈ names gs) : name ∈ names (insertAll fs gs) := by
  by_contra hn
  rw [← Fields.get?_eq_none_iff, get?_insertAll_written, if_pos h] at hn
  cases hn

theorem names_insertAll_of_subset (h : ∀ name ∈ names gs, name ∈ names fs) : names (insertAll fs gs) = names fs := by
  induction gs generalizing fs with
  | nil => rfl
  | cons g gs ih =>
    obtain ⟨hg, hgs⟩ := List.forall_mem_cons.mp h
    have hput : names (insert fs g.1 g.2) = names fs := by rw [names_insert, if_pos hg]
    rw [insertAll_cons, ih (hput ▸ hgs), hput]

/-! ## Everything twice -/

/-- Fields can be repeated if under each name the writes can. -/
theorem insertAll_twice_of_names (hd : (names (insertAll fs gs)).Nodup)
    (h : ∀ name ∈ names gs, ∀ t, t = (get? fs name).getD (.scalar .null) →
      mergeAll (mergeAll t (under name gs)) (under name gs) = mergeAll t (under name gs)) :
    insertAll (insertAll fs gs) gs = insertAll fs gs := by
  have hn : names (insertAll (insertAll fs gs) gs) = names (insertAll fs gs) :=
    names_insertAll_of_subset fun _ hm => mem_names_insertAll hm
  refine Fields.ext hn (hn ▸ hd) ?_
  intro name
  rw [get?_insertAll_written (insertAll fs gs)]
  split
  · next hm => rw [get?_insertAll_written fs, if_pos hm, Option.getD_some, h name hm _ rfl]
  · rfl

theorem distinct_getD (hf : (object fs).Distinct) (name : String) :
    ((get? fs name).getD (.scalar .null)).Distinct := by
  cases hx : get? fs name with
  | none => exact .scalar _
  | some x => exact hf.get? hx

/-- What the trees below a height can do, the fields with such trees can. -/
theorem insertAll_twice_of_lower {n : Nat} (hf : (object fs).Distinct) (hg : ∀ g ∈ gs, g.2.Distinct ∧ g.2.height < n)
    (h : ∀ {t : Tree} {us : List Tree}, t.Distinct → (∀ u ∈ us, u.Distinct) → (∀ u ∈ us, u.height < n) →
      mergeAll (mergeAll t us) us = mergeAll t us) :
    insertAll (insertAll fs gs) gs = insertAll fs gs := by
  refine insertAll_twice_of_names (hf.insertAll fun g hm => (hg g hm).1).nodup ?_
  rintro name - t rfl
  apply h (distinct_getD hf name)
  · intro u hu
    exact (hg _ (mem_under.mp hu)).1
  · intro u hu
    exact (hg _ (mem_under.mp hu)).2

/-- Trees that are merged in once more change nothing. -/
theorem mergeAll_twice {n : Nat} {t : Tree} {us : List Tree} (ht : t.Distinct) (hd : ∀ u ∈ us, u.Distinct)
    (hn : ∀ u ∈ us, u.height < n) : mergeAll (mergeAll t us) us = mergeAll t us := by
  induction n generalizing t us with
  | zero =>
    cases us with
    | nil => rfl
    | cons u us => exact absurd (hn u List.mem_cons_self) (Nat.not_lt_zero _)
  | succ n ih =>
    have hobject : ∀ fs, (object fs).Distinct → (∀ u ∈ us, u.isObject = true) →
        mergeAll (mergeAll (object fs) us) us = mergeAll (object fs) us := by
      intro fs hfs ho
      obtain ⟨gss, rfl⟩ := exists_objects ho
      have hgs : ∀ g ∈ gss.flatten, g.2.Distinct ∧ g.2.height < n := by
        intro g hg
        obtain ⟨gs, hm, hg⟩ := List.mem_flatten.mp hg
        have hlow : fieldHeight gs + 1 < n + 1 := hn _ (List.mem_map_of_mem hm)
        have hle := height_le_of_mem hg
        exact ⟨(distinct_object_iff.mp (hd _ (List.mem_map_of_mem hm))).2 g hg, by omega⟩
      rw [mergeAll_objects, mergeAll_objects, insertAll_twice_of_lower hfs hgs ih]
    by_cases hleaf : ∃ u ∈ us, u.isObject = false
    · obtain ⟨u, hu, hleaf⟩ := hleaf
      obtain ⟨before, behind, rfl⟩ := List.append_of_mem hu
      rw [mergeAll_past_leaf hleaf (mergeAll _ _), mergeAll_past_leaf hleaf t]
    · have ho : ∀ u ∈ us, u.isObject = true := fun u hu => by
        by_contra h
        exact hleaf ⟨u, hu, Bool.eq_false_iff.mpr h⟩
      cases us with
      | nil => rfl
      | cons u us =>
        by_cases hto : t.isObject = true
        · obtain ⟨fs, rfl⟩ := isObject_iff.mp hto
          exact hobject fs ht ho
        · -- the first object replaces `t`, as it replaces an empty object
          have hfirst : mergeAll t (u :: us) = mergeAll (object []) (u :: us) := by
            rw [mergeAll_cons, mergeAll_cons, merge_eq_right (Bool.eq_false_iff.mpr hto),
              empty_merge (hd u List.mem_cons_self)]
          rw [hfirst]
          exact hobject [] distinct_empty ho

/-- Fields that are written into an object twice over change no more than the first time. -/
theorem insertAll_twice (hf : (object fs).Distinct) (hg : ∀ g ∈ gs, g.2.Distinct) :
    insertAll (insertAll fs gs) gs = insertAll fs gs := by
  have hlow : ∀ g ∈ gs, g.2.Distinct ∧ g.2.height < fieldHeight gs + 1 := by
    intro g hm
    exact ⟨hg g hm, Nat.lt_succ_of_le (height_le_of_mem hm)⟩
  exact insertAll_twice_of_lower hf hlow mergeAll_twice

end Tree

open Text (isBlank)
open Grammar (readFields fieldWords)

/-! ## An expression twice -/

namespace Grammar

theorem fieldWords_append (fs gs : List (String × Rhs)) : fieldWords (fs ++ gs) = fieldWords fs ++ fieldWords gs := by
  induction fs with
  | nil => rfl
  | cons f fs ih =>
    obtain ⟨name, r⟩ := f
    rw [List.cons_append, fieldWords, fieldWords, ih, List.cons_append, List.append_assoc]

theorem readFields_append {level : Nat} {fs gs : List (String × Rhs)} {xs ys : List (Path × Term)}
    (hf : readFields level fs = .ok xs) (hg : readFields level gs = .ok ys) :
    readFields level (fs ++ gs) = .ok (xs ++ ys) := by
  induction fs generalizing xs with
  | nil => cases hf; exact hg
  | cons f fs ih =>
    obtain ⟨name, r⟩ := f
    obtain ⟨q, hq, hf⟩ := bind_eq_ok_iff.mp hf
    obtain ⟨zs, hz, rfl⟩ := map_eq_ok_iff.mp hf
    exact bind_eq_ok_iff.mpr ⟨q, hq, map_eq_ok_iff.mpr ⟨zs ++ ys, ih hz, rfl⟩⟩

end Grammar

/-- Fields behind fields and blanks are read as fields of one expression. -/
theorem parse_flat_joined {input₁ blanks input₂ : String} {fields₁ fields₂ : List (Path × Term)}
    (h₁ : Expression.parse input₁ = .ok (.flat fields₁)) (h₂ : Expression.parse input₂ = .ok (.flat fields₂))
    (hne : blanks ≠ "") (hb : ∀ c ∈ blanks.toList, isBlank c = true) :
    Expression.parse (input₁ ++ blanks ++ input₂) = .ok (.flat (fields₁ ++ fields₂)) := by
  obtain ⟨ts, hts, d₁, hw₁, hr₁⟩ := parse_eq_ok_iff.mp h₁
  obtain ⟨us, hus, d₂, hw₂, hr₂⟩ := parse_eq_ok_iff.mp h₂
  obtain ⟨fs₁, rfl, hf₁⟩ := Grammar.Start.read_eq_flat hr₁
  obtain ⟨fs₂, rfl, hf₂⟩ := Grammar.Start.read_eq_flat hr₂
  refine parse_eq_ok_iff.mpr ⟨_, hts.joined hus hne hb, .fields (fs₁ ++ fs₂), ?_, ?_⟩
  · rw [List.map_append, List.map_map, ← hw₁]
    exact (Grammar.fieldWords_append fs₁ fs₂).trans (congrArg _ hw₂)
  · exact map_eq_ok_iff.mpr ⟨_, Grammar.readFields_append hf₁ hf₂, rfl⟩

/-- Fields that are repeated behind blanks stand for the same tree; and an object that takes them in twice
    over is the same as if it had taken them in once. -/
theorem repeating_changes_nothing (lookup : String → Option String) {input blanks : String}
    {fields : List (Path × Term)} (hp : Expression.parse input = .ok (.flat fields)) (hne : blanks ≠ "")
    (hb : ∀ c ∈ blanks.toList, isBlank c = true) :
    (∃ root, parseForest lookup input = .ok [root] ∧ parseForest lookup (input ++ blanks ++ input) = .ok [root]) ∧
      ∀ fs, (Tree.object fs).Distinct →
        Tree.insertAll (Tree.insertAll fs (fieldTrees lookup fields)) (fieldTrees lookup fields) =
          Tree.insertAll fs (fieldTrees lookup fields) := by
  have hd := Tree.distinct_fieldTrees lookup fields
  refine ⟨⟨(Term.object fields).tree lookup, ?_, ?_⟩, fun fs hfs => Tree.insertAll_twice hfs hd⟩
  · exact parseForest_eq_ok_iff_parse.mpr ⟨_, hp, rfl⟩
  · refine parseForest_eq_ok_iff_parse.mpr ⟨_, parse_flat_joined hp hp hne hb, ?_⟩
    rw [Expression.forest, tree_object_append, Term.tree, Tree.insertAll_twice Tree.distinct_empty hd]

/-- The second pass wipes out the object that the first one ended with, and builds it again. -/
theorem repeating_changes_nothing_over_scalar :
    let lookup : String → Option String := fun _ => none
    ∃ root, parseForest lookup "a.b=1 a=x a.c=2" = .ok [root] ∧
      parseForest lookup "a.b=1 a=x a.c=2 a.b=1 a=x a.c=2" = .ok [root] := by
  intro lookup
  have hp : Expression.parse "a.b=1 a=x a.c=2" =
      .ok (.flat [(⟨"a", ["b"]⟩, .text "1"), (⟨"a", []⟩, .text "x"), (⟨"a", ["c"]⟩, .text "2")]) := by
    with_unfolding_all rfl
  have hb : ∀ c ∈ " ".toList, isBlank c = true := by
    rw [show " ".toList = [' '] from rfl, List.forall_mem_singleton]
    decide
  exact (repeating_changes_nothing lookup hp (by decide : " " ≠ "") hb).1

end ObjectExpr
