/-
  ObjectExpr.Proofs.Grammar.Comparison — two runs of the parser side by side. A `Comparison` says which
  names compare and which trees; what is written of names and trees that compare has to compare again.
  States compare if they stand at the same place in the same brackets, with names and with trees built so
  far that compare (`StatesCompare`); how the terms of these trees are written does not matter.

  On words that compare, a step refuses both for the same fault or takes both to states that compare
  (`step_compares`), and so do many words (`feed_compares`). Where two ways of writing something lead to
  states that compare, the trees compare whatever comes behind (`after?_compares`).
-/

import Mathlib.Data.List.Forall2
import ObjectExpr.Proofs.Grammar.Words
import ObjectExpr.Proofs.Tree.Paths

namespace ObjectExpr

/-! ## What compares -/

/-- Which names compare and which trees do. A tree compares to itself, and writing keeps to it. -/
structure Comparison where
  name : String → String → Prop
  tree : Tree → Tree → Prop
  name_refl (n : String) : name n n
  tree_refl {t : Tree} : t.Distinct → tree t t
  text {n n' : String} : name n n' → tree (.scalar (.string n)) (.scalar (.string n'))
  insert {fs fs' : List (String × Tree)} {n n' : String} {t t' : Tree} : tree (.object fs) (.object fs') →
    name n n' → tree t t' → tree (.object (Tree.insert fs n t)) (.object (Tree.insert fs' n' t'))
  array {xs xs' : List Tree} : List.Forall₂ tree xs xs' → tree (.array xs) (.array xs')

namespace Comparison

/-- Only what is the same compares. -/
def same : Comparison where
  name := Eq
  tree := Eq
  name_refl _ := rfl
  tree_refl _ := rfl
  text h := by rw [h]
  insert hf hn ht := by rw [Tree.object.inj hf, hn, ht]
  array h := by rw [List.forall₂_eq_eq_eq] at h; rw [h]

variable (c : Comparison)

theorem ofField {n n' : String} {t t' : Tree} (hn : c.name n n') (ht : c.tree t t') :
    c.tree (.ofField n t) (.ofField n' t') :=
  c.insert (c.tree_refl Tree.distinct_empty) hn ht

theorem nest {names names' : List String} {t t' : Tree} (hn : List.Forall₂ c.name names names') (ht : c.tree t t') :
    c.tree (.nest names t) (.nest names' t') := by
  induction hn with
  | nil => exact ht
  | cons hn _ ih => exact c.ofField hn ih

theorem eq_of_same {x x' : Option Forest} (h : Option.Rel (List.Forall₂ same.tree) x x') : x = x' := by
  cases h with
  | none => rfl
  | some hf =>
    change List.Forall₂ Eq _ _ at hf
    rw [List.forall₂_eq_eq_eq] at hf
    rw [hf]

end Comparison

/-- Both go wrong, in ways that `E` relates, or both come to something, which `A` relates. -/
inductive SameOutcome {ε α : Type} (E : ε → ε → Prop) (A : α → α → Prop) : Except ε α → Except ε α → Prop
  | error {e e' : ε} : E e e' → SameOutcome E A (.error e) (.error e')
  | ok {a a' : α} : A a a' → SameOutcome E A (.ok a) (.ok a')

theorem SameOutcome.bind {ε α β : Type} {E : ε → ε → Prop} {A : α → α → Prop} {B : β → β → Prop} {x x' : Except ε α}
    {f f' : α → Except ε β} (h : SameOutcome E A x x') (hf : ∀ a a', A a a' → SameOutcome E B (f a) (f' a')) :
    SameOutcome E B (x >>= f) (x' >>= f') := by
  cases h with
  | error he => exact .error he
  | ok ha => exact hf _ _ ha

theorem SameOutcome.imp {ε α : Type} {E E' : ε → ε → Prop} {A A' : α → α → Prop} {x x' : Except ε α}
    (h : SameOutcome E A x x') (hE : ∀ e e', E e e' → E' e e') (hA : ∀ a a', A a a' → A' a a') : SameOutcome E' A' x x' := by
  cases h with
  | error he => exact .error (hE _ _ he)
  | ok ha => exact .ok (hA _ _ ha)

theorem SameOutcome.of_toOption {ε α : Type} {A : α → α → Prop} {x x' : Except ε α}
    (h : Option.Rel A x.toOption x'.toOption) : SameOutcome (fun _ _ => True) A x x' := by
  cases x with
  | error e =>
    cases x' with
    | error e' => exact .error trivial
    | ok a' => cases h
  | ok a =>
    cases x' with
    | error e' => cases h
    | ok a' => cases h with | some ha => exact .ok ha

section

variable (lookup : String → Option String)

/-- The tree of one element. -/
def elementTree : Element → Tree
  | (none, t) => t.tree lookup
  | (some path, t) => Tree.nest path.names (t.tree lookup)

theorem elementTrees_eq_map (elements : List Element) :
    elementTrees lookup elements = elements.map (elementTree lookup) := by
  induction elements with
  | nil => rfl
  | cons d elements ih => obtain ⟨_ | path, t⟩ := d <;> rw [elementTrees, ih] <;> rfl

theorem elementTrees_reverse (elements : List Element) :
    elementTrees lookup elements.reverse = (elementTrees lookup elements).reverse := by
  rw [elementTrees_eq_map, elementTrees_eq_map, List.map_reverse]

end

open Grammar (isFieldMark readRaw term_raw)

namespace Parser

/-! ## States -/

section

variable (c : Comparison) (lookup : String → Option String)

/-- A literal compares as a name; every other word compares to itself. -/
inductive WordsCompare : Word → Word → Prop
  | literal {text text' : String} : c.name text text' → WordsCompare (.literal text) (.literal text')
  | raw (text : String) : WordsCompare (.raw text) (.raw text)
  | env (name : String) : WordsCompare (.env name) (.env name)
  | mark (m : Mark) : WordsCompare (.mark m) (.mark m)

/-- The fields that are done make up objects that compare; and there are any on both sides or on none. -/
structure FieldsCompare (done done' : List Field) : Prop where
  isEmpty : done.isEmpty = done'.isEmpty
  tree : c.tree ((Term.object done.reverse).tree lookup) ((Term.object done'.reverse).tree lookup)

def ElementsCompare (done done' : List Element) : Prop :=
  List.Forall₂ c.tree (elementTrees lookup done) (elementTrees lookup done')

def RootsCompare (done done' : List Term) : Prop :=
  List.Forall₂ (fun t t' => c.tree (t.tree lookup) (t'.tree lookup)) done done'

def PathsCompare (path path' : Path) : Prop := List.Forall₂ c.name path.names path'.names

inductive OwnersCompare : Owner → Owner → Prop
  | fields {done done' : List Field} : FieldsCompare c lookup done done' → OwnersCompare (.fields done) (.fields done')
  | elements {done done' : List Element} : ElementsCompare c lookup done done' →
      OwnersCompare (.elements done) (.elements done')

inductive HolesCompare : Hole → Hole → Prop
  | root {done done' : List Term} : RootsCompare c lookup done done' → HolesCompare (.root done) (.root done')
  | item {done done' : List Element} : ElementsCompare c lookup done done' → HolesCompare (.item done) (.item done')
  | named {owner owner' : Owner} {path path' : Path} : OwnersCompare c lookup owner owner' → PathsCompare c path path' →
      HolesCompare (.named owner path) (.named owner' path')

inductive PlacesCompare : Place → Place → Prop
  | roots {done done' : List Term} : RootsCompare c lookup done done' → PlacesCompare (.roots done) (.roots done')
  | fields {done done' : List Field} : FieldsCompare c lookup done done' → PlacesCompare (.fields done) (.fields done')
  | elements {done done' : List Element} : ElementsCompare c lookup done done' →
      PlacesCompare (.elements done) (.elements done')
  | name {owner owner' : Owner} {path path' : Path} : OwnersCompare c lookup owner owner' → PathsCompare c path path' →
      PlacesCompare (.name owner path) (.name owner' path')
  | dot {owner owner' : Owner} {path path' : Path} : OwnersCompare c lookup owner owner' → PathsCompare c path path' →
      PlacesCompare (.dot owner path) (.dot owner' path')
  | value {owner owner' : Owner} {path path' : Path} : OwnersCompare c lookup owner owner' → PathsCompare c path path' →
      PlacesCompare (.value owner path) (.value owner' path')

/-- The two states stand at the same place and have built trees that compare. -/
inductive StatesCompare : State → State → Prop
  | mk {place place' : Place} {outer outer' : List Hole} : PlacesCompare c lookup place place' →
      List.Forall₂ (HolesCompare c lookup) outer outer' → StatesCompare ⟨place, outer⟩ ⟨place', outer'⟩

end

variable {c : Comparison} {lookup : String → Option String}

theorem WordsCompare.refl (w : Word) : WordsCompare c w w := by
  cases w with
  | literal text => exact .literal (c.name_refl text)
  | raw text => exact .raw text
  | env name => exact .env name
  | mark m => exact .mark m

theorem WordsCompare.literal_or_eq {w w' : Word} (h : WordsCompare c w w') :
    (∃ text text', w = .literal text ∧ w' = .literal text' ∧ c.name text text') ∨
      w = w' ∧ ∀ text, w ≠ .literal text := by
  cases h with
  | literal hn => exact .inl ⟨_, _, rfl, rfl, hn⟩
  | _ => exact .inr ⟨rfl, fun _ h => Word.noConfusion h⟩

theorem WordsCompare.kind {w w' : Word} (h : WordsCompare c w w') : w.kind = w'.kind := by
  cases h <;> rfl

theorem WordsCompare.isFieldMark {w w' : Word} (h : WordsCompare c w w') : isFieldMark w = isFieldMark w' := by
  cases h <;> rfl

theorem FieldsCompare.refl (done : List Field) : FieldsCompare c lookup done done :=
  ⟨rfl, c.tree_refl (Tree.distinct_tree lookup _)⟩

theorem ElementsCompare.refl (done : List Element) : ElementsCompare c lookup done done :=
  List.forall₂_same.mpr fun t ht => c.tree_refl (Tree.distinct_elementTrees lookup done t ht)

theorem RootsCompare.refl (done : List Term) : RootsCompare c lookup done done :=
  List.forall₂_same.mpr fun t _ => c.tree_refl (Tree.distinct_tree lookup t)

theorem PathsCompare.refl (path : Path) : PathsCompare c path path := List.forall₂_same.mpr fun n _ => c.name_refl n

theorem OwnersCompare.refl (owner : Owner) : OwnersCompare c lookup owner owner := by
  cases owner with
  | fields done => exact .fields (.refl done)
  | elements done => exact .elements (.refl done)

theorem HolesCompare.refl (hole : Hole) : HolesCompare c lookup hole hole := by
  cases hole with
  | root done => exact .root (.refl done)
  | item done => exact .item (.refl done)
  | named owner path => exact .named (.refl owner) (.refl path)

theorem HolesCompare.refl_all (outer : List Hole) : List.Forall₂ (HolesCompare c lookup) outer outer :=
  List.forall₂_same.mpr fun hole _ => .refl hole

theorem StatesCompare.start : StatesCompare c lookup .start .start := ⟨.fields (.refl []), .nil⟩

theorem StatesCompare.outer {s s' : State} (h : StatesCompare c lookup s s') :
    List.Forall₂ (HolesCompare c lookup) s.outer s'.outer := by
  cases h with
  | mk _ ho => exact ho

theorem PathsCompare.snoc {path path' : Path} (h : PathsCompare c path path') {name name' : String}
    (hn : c.name name name') : PathsCompare c (path.snoc name) (path'.snoc name') := by
  rw [PathsCompare, Path.names_snoc, Path.names_snoc]
  exact List.rel_append h (.cons hn .nil)

/-! ## Depth -/

theorem PathsCompare.length_tail {path path' : Path} (h : PathsCompare c path path') :
    path.tail.length = path'.tail.length :=
  Nat.succ.inj h.length_eq

theorem HolesCompare.dots {hole hole' : Hole} (h : HolesCompare c lookup hole hole') : hole.dots = hole'.dots := by
  cases h with
  | named _ hp => exact hp.length_tail
  | _ => rfl

theorem PlacesCompare.dots {place place' : Place} (h : PlacesCompare c lookup place place') :
    place.dots = place'.dots := by
  cases h with
  | name _ hp => exact hp.length_tail
  | dot _ hp => exact congrArg (· + 1) hp.length_tail
  | value _ hp => exact hp.length_tail
  | _ => rfl

theorem levels_eq {outer outer' : List Hole} (h : List.Forall₂ (HolesCompare c lookup) outer outer') :
    levels outer = levels outer' := by
  induction h with
  | nil => rfl
  | cons hh _ ih => rw [levels_cons, levels_cons, hh.dots, ih]

theorem StatesCompare.depth {s s' : State} (h : StatesCompare c lookup s s') : s.depth = s'.depth := by
  obtain ⟨hp, ho⟩ := h
  rw [State.depth_eq, State.depth_eq, hp.dots, levels_eq ho]

/-! ## One more term -/

section

variable {done done' : List Field} {items items' : List Element}

theorem tree_object_snoc (fields : List Field) (path : Path) (t : Term) :
    (Term.object (fields ++ [(path, t)])).tree lookup =
      .object (Tree.insert (Tree.insertAll [] (fieldTrees lookup fields)) path.head
        (Tree.nest path.tail (t.tree lookup))) := by
  rw [tree_object_append]
  rfl

theorem FieldsCompare.cons (h : FieldsCompare c lookup done done') {path path' : Path} {t t' : Term}
    (hn : c.name path.head path'.head)
    (ht : c.tree (Tree.nest path.tail (t.tree lookup)) (Tree.nest path'.tail (t'.tree lookup))) :
    FieldsCompare c lookup ((path, t) :: done) ((path', t') :: done') := by
  refine ⟨rfl, ?_⟩
  have hd := h.tree
  rw [Term.tree, Term.tree] at hd
  rw [List.reverse_cons, List.reverse_cons, tree_object_snoc, tree_object_snoc]
  exact c.insert hd hn ht

theorem ElementsCompare.cons {d d' : Element} (hd : c.tree (elementTree lookup d) (elementTree lookup d'))
    (h : ElementsCompare c lookup items items') : ElementsCompare c lookup (d :: items) (d' :: items') := by
  rw [ElementsCompare, elementTrees_eq_map, elementTrees_eq_map] at h ⊢
  exact .cons hd h

theorem ElementsCompare.array (h : ElementsCompare c lookup items items') :
    c.tree ((Term.array items.reverse).tree lookup) ((Term.array items'.reverse).tree lookup) := by
  rw [Term.tree, Term.tree, elementTrees_reverse, elementTrees_reverse]
  exact c.array (List.forall₂_reverse_iff.mpr h)

end

theorem OwnersCompare.add {owner owner' : Owner} (h : OwnersCompare c lookup owner owner') {path path' : Path}
    {t t' : Term} (hn : c.name path.head path'.head)
    (ht : c.tree (Tree.nest path.tail (t.tree lookup)) (Tree.nest path'.tail (t'.tree lookup))) :
    PlacesCompare c lookup (owner.add path t) (owner'.add path' t') := by
  cases h with
  | fields h => exact .fields (h.cons hn ht)
  | elements h => exact .elements (.cons (c.ofField hn ht) h)

theorem HolesCompare.fill {hole hole' : Hole} (h : HolesCompare c lookup hole hole') {t t' : Term}
    (ht : c.tree (t.tree lookup) (t'.tree lookup)) : PlacesCompare c lookup (hole.fill t) (hole'.fill t') := by
  cases h with
  | root h => exact .roots (.cons ht h)
  | item h => exact .elements (.cons ht h)
  | named h hp =>
    obtain ⟨hn, hns⟩ := List.forall₂_cons.mp hp
    exact h.add hn (c.nest hns ht)

/-! ## Steps -/

section

variable (c lookup)

/-- Both states are refused for the same fault, or come to states that compare. -/
abbrev StepsCompare : Except Refusal State → Except Refusal State → Prop := SameOutcome Eq (StatesCompare c lookup)

end

namespace State

variable {s s' : State} {w w' : Word}

theorem unexpected_compares (hw : WordsCompare c w w') : StepsCompare c lookup (unexpected w) (unexpected w') :=
  .error (by rw [hw.kind])

theorem descend_compares (h : StatesCompare c lookup s s') {inner inner' : State}
    (hi : StatesCompare c lookup inner inner') : StepsCompare c lookup (s.descend inner) (s'.descend inner') := by
  unfold descend
  rw [h.depth]
  split
  · exact .ok hi
  · exact .error rfl

theorem openObject_compares (h : StatesCompare c lookup s s') {hole hole' : Hole}
    (hh : HolesCompare c lookup hole hole') : StepsCompare c lookup (s.openObject hole) (s'.openObject hole') :=
  descend_compares h ⟨.fields (.refl []), .cons hh h.outer⟩

theorem openArray_compares (h : StatesCompare c lookup s s') {hole hole' : Hole}
    (hh : HolesCompare c lookup hole hole') : StepsCompare c lookup (s.openArray hole) (s'.openArray hole') :=
  descend_compares h ⟨.elements (.refl []), .cons hh h.outer⟩

theorem fill_compares (h : StatesCompare c lookup s s') {hole hole' : Hole} (hh : HolesCompare c lookup hole hole')
    {t t' : Term} (ht : c.tree (t.tree lookup) (t'.tree lookup)) :
    StatesCompare c lookup (s.fill hole t) (s'.fill hole' t') :=
  ⟨hh.fill ht, h.outer⟩

theorem root_compares (h : StatesCompare c lookup s s') {done done' : List Term} (hd : RootsCompare c lookup done done')
    (hw : WordsCompare c w w') : StepsCompare c lookup (s.root done w) (s'.root done' w') := by
  cases hw with
  | mark m =>
    cases m with
    | objectOpen => exact openObject_compares h (.root hd)
    | arrayOpen => exact openArray_compares h (.root hd)
    | _ => exact .error rfl
  | _ => exact .error rfl

theorem term_compares (h : StatesCompare c lookup s s') {hole hole' : Hole} (hh : HolesCompare c lookup hole hole')
    (hw : WordsCompare c w w') : StepsCompare c lookup (s.term hole w) (s'.term hole' w') := by
  cases hw with
  | literal hn =>
    refine .ok (fill_compares h hh ?_)
    rw [Term.tree, Term.tree]
    exact c.text hn
  | raw text =>
    rw [term_raw, term_raw]
    cases readRaw text with
    | ok t => exact .ok (fill_compares h hh (c.tree_refl (Tree.distinct_tree lookup t)))
    | error r => exact .error rfl
  | env name => exact .ok (fill_compares h hh (c.tree_refl (Tree.distinct_tree lookup (.env name))))
  | mark m =>
    cases m with
    | objectOpen => exact openObject_compares h hh
    | arrayOpen => exact openArray_compares h hh
    | _ => exact .error rfl

theorem element_compares (h : StatesCompare c lookup s s') {done done' : List Element}
    (hd : ElementsCompare c lookup done done') (hw : WordsCompare c w w') :
    StepsCompare c lookup (s.element done w) (s'.element done' w') := by
  cases hw with
  | literal hn => exact .ok ⟨.name (.elements hd) (.cons hn .nil), h.outer⟩
  | raw text => exact term_compares h (.item hd) (.raw text)
  | env name => exact term_compares h (.item hd) (.env name)
  | mark m =>
    cases m with
    | arrayClose =>
      obtain ⟨-, ho⟩ := h
      cases ho with
      | nil => exact .error rfl
      | cons hh ho => exact .ok ⟨hh.fill hd.array, ho⟩
    | assign => exact term_compares h (.item hd) (.mark .assign)
    | dot => exact term_compares h (.item hd) (.mark .dot)
    | objectOpen => exact term_compares h (.item hd) (.mark .objectOpen)
    | objectClose => exact term_compares h (.item hd) (.mark .objectClose)
    | arrayOpen => exact term_compares h (.item hd) (.mark .arrayOpen)

/-- The very first word may open a root; no other word of a flat expression stands where a name should. -/
theorem field_flat {place : Place} (done : List Field) {w : Word} (hw : ∀ text, w ≠ .literal text) :
    field ⟨place, []⟩ done w = if done.isEmpty then root ⟨place, []⟩ [] w else unexpected w := by
  cases w with
  | literal text => exact absurd rfl (hw text)
  | mark m => cases m <;> rfl
  | _ => rfl

/-- In an object, only a closing brace stands where a name should. -/
theorem field_object {place : Place} {hole : Hole} {outer : List Hole} (done : List Field) {w : Word}
    (hw : ∀ text, w ≠ .literal text) (hc : w ≠ .mark .objectClose) :
    field ⟨place, hole :: outer⟩ done w = expected (.mark .objectClose) w := by
  cases w with
  | literal text => exact absurd rfl (hw text)
  | mark m =>
    cases m with
    | objectClose => exact absurd rfl hc
    | _ => rfl
  | _ => rfl

theorem field_compares (h : StatesCompare c lookup s s') {done done' : List Field}
    (hd : FieldsCompare c lookup done done') (hw : WordsCompare c w w') :
    StepsCompare c lookup (s.field done w) (s'.field done' w') := by
  rcases hw.literal_or_eq with ⟨text, text', rfl, rfl, hn⟩ | ⟨rfl, hlit⟩
  · exact .ok ⟨.name (.fields hd) (.cons hn .nil), h.outer⟩
  · obtain ⟨hp, ho⟩ := h
    cases ho with
    | nil =>
      rw [field_flat done hlit, field_flat done' hlit, hd.isEmpty]
      split
      · exact root_compares ⟨hp, .nil⟩ .nil (.refl w)
      · exact .error rfl
    | cons hh ho =>
      by_cases hc : w = .mark .objectClose
      · subst hc
        exact .ok ⟨hh.fill hd.tree, ho⟩
      · rw [field_object done hlit hc, field_object done' hlit hc]
        exact .error rfl

/-- A lone name in an array was an element; any other name waits for an equals sign or a dot. -/
theorem afterName_of_not_isFieldMark (owner : Owner) (path : Path) {w : Word} (hw : isFieldMark w = false) :
    s.afterName owner path w =
      match owner, path.tail with
      | .elements done, [] => s.element ((none, .text path.head) :: done) w
      | _, _ => unexpected w := by
  cases w with
  | mark m =>
    cases m with
    | assign => cases hw
    | dot => cases hw
    | _ => rfl
  | _ => rfl

theorem afterName_compares (h : StatesCompare c lookup s s') {owner owner' : Owner} {path path' : Path}
    (ho : OwnersCompare c lookup owner owner') (hp : PathsCompare c path path') (hw : WordsCompare c w w') :
    StepsCompare c lookup (s.afterName owner path w) (s'.afterName owner' path' w') := by
  cases hm : isFieldMark w with
  | true =>
    cases hw with
    | mark m =>
      cases m with
      | assign => exact .ok ⟨.value ho hp, h.outer⟩
      | dot => exact descend_compares h ⟨.dot ho hp, h.outer⟩
      | _ => cases hm
    | _ => cases hm
  | false =>
    rw [afterName_of_not_isFieldMark _ _ hm, afterName_of_not_isFieldMark _ _ (hw.isFieldMark ▸ hm)]
    obtain ⟨name, tail⟩ := path
    obtain ⟨name', tail'⟩ := path'
    obtain ⟨hn, ht⟩ := List.forall₂_cons.mp hp
    cases ho with
    | fields hd => exact unexpected_compares hw
    | elements hd =>
      cases ht with
      | nil =>
        refine element_compares h (.cons ?_ hd) hw
        rw [elementTree, elementTree, Term.tree, Term.tree]
        exact c.text hn
      | cons => exact unexpected_compares hw

theorem afterDot_compares (h : StatesCompare c lookup s s') {owner owner' : Owner} {path path' : Path}
    (ho : OwnersCompare c lookup owner owner') (hp : PathsCompare c path path') (hw : WordsCompare c w w') :
    StepsCompare c lookup (s.afterDot owner path w) (s'.afterDot owner' path' w') := by
  cases hw with
  | literal hn => exact .ok ⟨.name ho (hp.snoc hn), h.outer⟩
  | _ => exact .error rfl

/-- One word that compares, in states that compare. -/
theorem step_compares (h : StatesCompare c lookup s s') (hw : WordsCompare c w w') :
    StepsCompare c lookup (s.step w) (s'.step w') := by
  obtain ⟨hp, hs⟩ := h
  cases hp with
  | roots hd => exact root_compares ⟨.roots hd, hs⟩ hd hw
  | fields hd => exact field_compares ⟨.fields hd, hs⟩ hd hw
  | elements hd => exact element_compares ⟨.elements hd, hs⟩ hd hw
  | name ho hp => exact afterName_compares ⟨.name ho hp, hs⟩ ho hp hw
  | dot ho hp => exact afterDot_compares ⟨.dot ho hp, hs⟩ ho hp hw
  | value ho hp => exact term_compares ⟨.value ho hp, hs⟩ (.named ho hp) hw

/-! ## Many words -/

theorem feed_compares {ws ws' : List Word} (hws : List.Forall₂ (WordsCompare c) ws ws')
    (h : StatesCompare c lookup s s') : StepsCompare c lookup (s.feed ws) (s'.feed ws') := by
  induction hws generalizing s s' with
  | nil => exact .ok h
  | cons hw _ ih =>
    rw [feed_cons, feed_cons]
    exact (step_compares h hw).bind fun _ _ h => ih h

/-- States that compare lack the same, or are complete with trees that compare. -/
theorem finish_compares (h : StatesCompare c lookup s s') :
    SameOutcome Eq (fun e e' => List.Forall₂ c.tree (e.forest lookup) (e'.forest lookup)) s.finish s'.finish := by
  obtain ⟨hp, hs⟩ := h
  cases hp with
  | roots hd =>
    refine .ok ?_
    rw [Expression.forest, Expression.forest, List.forall₂_map_left_iff, List.forall₂_map_right_iff]
    exact List.forall₂_reverse_iff.mpr hd
  | fields hd =>
    cases hs with
    | nil => exact .ok (.cons hd.tree .nil)
    | cons => exact .error rfl
  | elements hd => exact .error rfl
  | @name owner owner' path path' ho hp =>
    obtain ⟨name, tail⟩ := path
    obtain ⟨name', tail'⟩ := path'
    obtain ⟨-, ht⟩ := List.forall₂_cons.mp hp
    cases ho with
    | fields => exact .error rfl
    | elements =>
      cases ht with
      | nil => exact .error rfl
      | cons => exact .error rfl
  | dot ho hp => exact .error rfl
  | value ho hp => exact .error rfl

theorem after?_compares_of_states {ws ws' : List Word} (hws : List.Forall₂ (WordsCompare c) ws ws')
    (h : StatesCompare c lookup s s') :
    Option.Rel (List.Forall₂ c.tree) ((s.after? ws).map (·.forest lookup)) ((s'.after? ws').map (·.forest lookup)) := by
  have hfeed := feed_compares hws h
  rw [after?, after?]
  generalize s.feed ws = x at hfeed
  generalize s'.feed ws' = x' at hfeed
  cases hfeed with
  | error => exact .none
  | @ok t t' ht =>
    show Option.Rel _ (t.finish.toOption.map _) (t'.finish.toOption.map _)
    have hfinish := finish_compares ht
    generalize t.finish = y at hfinish
    generalize t'.finish = y' at hfinish
    cases hfinish with
    | error => exact .none
    | ok he => exact .some he

/-- Where two ways of writing something lead to states that compare, the trees compare whatever comes
    behind. -/
theorem after?_compares {E : Refusal → Refusal → Prop} {us vs : List Word}
    (h : SameOutcome E (StatesCompare c lookup) (s.feed us) (s'.feed vs)) (ws : List Word) :
    Option.Rel (List.Forall₂ c.tree) ((s.after? (us ++ ws)).map (·.forest lookup))
      ((s'.after? (vs ++ ws)).map (·.forest lookup)) := by
  generalize hu : s.feed us = x at h
  generalize hv : s'.feed vs = x' at h
  cases h with
  | error =>
    rw [after?_append_of_refused hu, after?_append_of_refused hv]
    exact .none
  | ok h =>
    rw [after?_append hu, after?_append hv]
    exact after?_compares_of_states (List.forall₂_same.mpr fun w _ => .refl w) h

end State

/-! ## The same trees -/

section

variable (lookup)

/-- Refused both times, or states that have built the same trees. -/
abbrev SameResult : Except Refusal State → Except Refusal State → Prop :=
  SameOutcome (fun _ _ => True) (StatesCompare .same lookup)

end

/-- Where two ways of writing something lead to the same trees, they do so whatever comes behind. -/
theorem State.forest_after?_append {s s' : State} {us vs : List Word}
    (h : SameResult lookup (s.feed us) (s'.feed vs)) (ws : List Word) :
    (s.after? (us ++ ws)).map (·.forest lookup) = (s'.after? (vs ++ ws)).map (·.forest lookup) :=
  Comparison.eq_of_same (after?_compares h ws)

end Parser

end ObjectExpr
