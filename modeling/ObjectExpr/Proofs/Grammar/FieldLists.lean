/-
  ObjectExpr.Proofs.Grammar.FieldLists — fields of a flat expression or of an object that are written in
  another way, with any fields before and after them. Whether the new fields are accepted where the old ones
  are depends on their raw literals and on how deep they go; what becomes of the trees, on what they write
  into the object that is there (`FieldsAgree`). What stands around them does not matter (`forest?_of_fields`).

  A field list is a flat expression, or stands behind a brace that opens an object, in whatever
  (`BeforeField`). An object at a path can be written field by field, with the path before each name
  (`grouped_or_spread`).
  Fields at paths of which none is a prefix of the other can change places, and the trees keep all but the
  order of fields (`swapped_fields`).
-/

import ObjectExpr.Proofs.Grammar.Comparison
import ObjectExpr.Proofs.Grammar.Spelling
import ObjectExpr.Proofs.Tree.Reordering

namespace ObjectExpr

open Grammar (Rhs Value Resolves fieldWords fieldDepth readFields feed_fields)
open ObjectExpr.Parser

/-! ## Fields at paths -/

namespace Grammar

/-- A right-hand side behind further names of a path. -/
def Rhs.under : List String → Rhs → Rhs
  | [], r => r
  | name :: names, r => .dot name (r.under names)

/-- The field that a path makes with what stands behind it. -/
def fieldAt (path : Path) (r : Rhs) : String × Rhs := (path.head, r.under path.tail)

/-- The fields of an object, each with the path of the object before its name. -/
def spreadFields (path : Path) (gs : List (String × Rhs)) : List (String × Rhs) :=
  gs.map fun g => fieldAt path (.dot g.1 g.2)

theorem Rhs.words_under (names : List String) (r : Rhs) :
    (r.under names).words = names.flatMap (fun name => [.mark .dot, .literal name]) ++ r.words := by
  induction names with
  | nil => rfl
  | cons name names ih => simp [Rhs.under, Rhs.words, ih]

theorem words_fieldAt (path : Path) (r : Rhs) : fieldWords [fieldAt path r] = path.words ++ r.words := by
  simp [fieldWords, fieldAt, Rhs.words_under, Path.words]

@[simp] theorem Rhs.depth_under (names : List String) (r : Rhs) : (r.under names).depth = names.length + r.depth := by
  induction names with
  | nil => exact (Nat.zero_add _).symm
  | cons name names ih => rw [Rhs.under, Rhs.depth, ih, List.length_cons, Nat.add_right_comm]

theorem Rhs.tree_under (lookup : String → Option String) (names : List String) (r : Rhs) :
    (r.under names).tree lookup = Tree.nest names (r.tree lookup) := by
  induction names with
  | nil => rfl
  | cons name names ih => rw [Rhs.under, Rhs.tree, ih, Tree.nest]

@[simp] theorem resolves_path (path : Path) : Resolves path.words := by
  simp [Resolves, Path.words]

theorem fieldWords_cons (f : String × Rhs) (fs : List (String × Rhs)) :
    fieldWords (f :: fs) = fieldWords [f] ++ fieldWords fs := by
  simp [fieldWords]

theorem fieldDepth_cons (f : String × Rhs) (fs : List (String × Rhs)) :
    fieldDepth (f :: fs) = max f.2.depth (fieldDepth fs) := rfl

theorem ofField_fieldAt (lookup : String → Option String) (path : Path) (r : Rhs) :
    Tree.ofField (fieldAt path r).1 ((fieldAt path r).2.tree lookup) = Tree.nest path.names (r.tree lookup) := by
  rw [fieldAt, Rhs.tree_under]
  rfl

theorem fieldTrees_eq_map (lookup : String → Option String) (fs : List (String × Rhs)) :
    fieldTrees lookup fs = fs.map fun f => (f.1, f.2.tree lookup) := by
  induction fs with
  | nil => rfl
  | cons f fs ih => rw [fieldTrees, ih, List.map_cons]

theorem names_fieldTrees (lookup : String → Option String) (fs : List (String × Rhs)) :
    Fields.names (fieldTrees lookup fs) = Fields.names fs := by
  rw [fieldTrees_eq_map, Fields.names, List.map_map]
  rfl

/-- Fields are merged into an object one after another. -/
theorem object_insertAll_fieldTrees (lookup : String → Option String) (hs : List (String × Tree))
    (fs : List (String × Rhs)) :
    Tree.object (Tree.insertAll hs (fieldTrees lookup fs)) =
      fs.foldl (fun t f => t.merge (.ofField f.1 (f.2.tree lookup))) (.object hs) := by
  rw [Tree.object_insertAll, fieldTrees_eq_map, List.foldl_map]

theorem isEmpty_of_readFields {level : Nat} {fs : List (String × Rhs)} {gs : List Field}
    (h : readFields level fs = .ok gs) : gs.isEmpty = fs.isEmpty := by
  cases fs with
  | nil => cases h; rfl
  | cons f fs =>
    obtain ⟨q, -, h⟩ := bind_eq_ok_iff.mp h
    obtain ⟨gs, -, rfl⟩ := map_eq_ok_iff.mp h
    rfl

end Grammar

open Grammar (fieldAt spreadFields fieldWords_cons fieldDepth_cons words_fieldAt resolves_append ofField_fieldAt
  object_insertAll_fieldTrees)

/-! ## In any field list -/

/-- The words before a field: the fields before it in a flat expression, or in an object behind anything. -/
inductive BeforeField : List Word → Prop
  | flat (fs : List (String × Rhs)) : BeforeField (fieldWords fs)
  | object (outside : List Word) (fs : List (String × Rhs)) :
      BeforeField (outside ++ .mark .objectOpen :: fieldWords fs)

theorem place_of_objectOpen {s s' : State} {w : Word} (h : Step s w s') (hw : w = .mark .objectOpen) :
    s'.place = .fields [] := by
  induction h with
  | openObject => rfl
  | leaf _ _ _ hl => subst hw; cases hl
  | item _ _ hl => subst hw; cases hl
  | settle _ ih => exact ih hw
  | _ => cases hw

theorem place_of_feed_fields {s s' : State} {done : List Field} {fs : List (String × Rhs)} (hp : s.place = .fields done)
    (h : s.feed (fieldWords fs) = .ok s') : ∃ done', s'.place = .fields done' := by
  obtain ⟨place, outer⟩ := s
  obtain rfl : place = .fields done := hp
  rw [feed_fields] at h
  obtain ⟨gs, -, rfl⟩ := map_eq_ok_iff.mp h
  exact ⟨_, rfl⟩

/-- The next word starts a field, or stands behind the last one. -/
theorem BeforeField.place {before : List Word} (hb : BeforeField before) {s : State}
    (h : State.start.feed before = .ok s) : ∃ done, s.place = .fields done := by
  cases hb with
  | flat fs => exact place_of_feed_fields rfl h
  | object outside fs =>
    rw [State.feed_append] at h
    obtain ⟨s₁, -, h⟩ := bind_eq_ok_iff.mp h
    obtain ⟨s₂, hstep, h⟩ := bind_eq_ok_iff.mp h
    exact place_of_feed_fields (place_of_objectOpen (State.step_of_step hstep) rfl) h

variable {c : Comparison} {lookup : String → Option String} {fs fs' : List (String × Rhs)}

/-- The same fields in another way: the raw literals of both stand for something, or of neither; both go as
    deep; and they have the same effect on an object, as far as `c` compares. -/
structure FieldsAgree (c : Comparison) (lookup : String → Option String) (fs fs' : List (String × Rhs)) : Prop where
  isEmpty : fs.isEmpty = fs'.isEmpty
  resolves : Resolves (fieldWords fs) ↔ Resolves (fieldWords fs')
  depth : fieldDepth fs = fieldDepth fs'
  tree {hs : List (String × Tree)} : (Tree.object hs).Distinct →
    (Tree.object (Tree.insertAll hs (Grammar.fieldTrees lookup fs))).Distinct →
    (Tree.object (Tree.insertAll hs (Grammar.fieldTrees lookup fs'))).Distinct →
    c.tree (.object (Tree.insertAll hs (Grammar.fieldTrees lookup fs)))
      (.object (Tree.insertAll hs (Grammar.fieldTrees lookup fs')))

theorem tree_object_fields {level : Nat} {gs : List Field} (hg : readFields level fs = .ok gs) (done : List Field) :
    (Term.object (done ++ gs)).tree lookup =
      .object (Tree.insertAll (Tree.insertAll [] (fieldTrees lookup done)) (Grammar.fieldTrees lookup fs)) := by
  rw [tree_object_append, Grammar.trees_of_fields fs hg]

namespace FieldsAgree

theorem accepted_iff (h : FieldsAgree c lookup fs fs') {level : Nat} (hl : level ≤ maxDepth) :
    Grammar.Accepted (readFields level fs) ↔ Grammar.Accepted (readFields level fs') := by
  rw [Grammar.accepted_fields fs hl, Grammar.accepted_fields fs' hl, h.resolves, h.depth]

theorem compare (h : FieldsAgree c lookup fs fs') {level : Nat} {gs gs' : List Field}
    (hg : readFields level fs = .ok gs) (hg' : readFields level fs' = .ok gs') (done : List Field) :
    FieldsCompare c lookup (gs.reverse ++ done) (gs'.reverse ++ done) := by
  have hempty : gs = [] ↔ gs' = [] := by
    rw [← List.isEmpty_iff, ← List.isEmpty_iff, Grammar.isEmpty_of_readFields hg, Grammar.isEmpty_of_readFields hg',
      h.isEmpty]
  have hdone := Tree.distinct_tree lookup (.object done.reverse)
  have hd := Tree.distinct_tree lookup (.object (done.reverse ++ gs))
  have hd' := Tree.distinct_tree lookup (.object (done.reverse ++ gs'))
  rw [tree_object_fields hg] at hd
  rw [tree_object_fields hg'] at hd'
  rw [Term.tree] at hdone
  constructor
  · refine Bool.eq_iff_iff.mpr ?_
    simp [hempty]
  · rw [List.reverse_append, List.reverse_append, List.reverse_reverse, List.reverse_reverse, tree_object_fields hg,
      tree_object_fields hg']
    exact h.tree hdone hd hd'

theorem feed (h : FieldsAgree c lookup fs fs') (done : List Field) {outer : List Hole} (hl : levels outer ≤ maxDepth) :
    SameOutcome (fun _ _ => True) (StatesCompare c lookup) (State.feed ⟨.fields done, outer⟩ (fieldWords fs))
      (State.feed ⟨.fields done, outer⟩ (fieldWords fs')) := by
  rw [feed_fields, feed_fields]
  have hiff := h.accepted_iff hl
  cases hg : readFields (levels outer) fs with
  | ok gs =>
    obtain ⟨gs', hg'⟩ := hiff.mp ⟨gs, hg⟩
    rw [hg']
    exact .ok ⟨.fields (h.compare hg hg' done), HolesCompare.refl_all outer⟩
  | error r =>
    cases hg' : readFields (levels outer) fs' with
    | ok gs' =>
      obtain ⟨gs, hok⟩ := hiff.mpr ⟨gs', hg'⟩
      rw [hg] at hok
      cases hok
    | error r' => exact .error trivial

end FieldsAgree

/-- Fields that agree can stand for each other wherever a field can stand. -/
theorem forest?_of_fields (h : FieldsAgree c lookup fs fs') {before : List Word} (hb : BeforeField before)
    (after : List Word) :
    Option.Rel (List.Forall₂ c.tree) (forest? lookup (before ++ fieldWords fs ++ after))
      (forest? lookup (before ++ fieldWords fs' ++ after)) := by
  simp only [forest?, expression?, List.append_assoc]
  cases hs : State.start.feed before with
  | error r =>
    rw [State.after?_append_of_refused hs, State.after?_append_of_refused hs]
    exact .none
  | ok s =>
    rw [State.after?_append hs, State.after?_append hs]
    have hle := State.depth_le_of_feed hs
    obtain ⟨place, outer⟩ := s
    obtain ⟨done, rfl⟩ := hb.place hs
    rw [State.depth_eq, Place.dots, Nat.zero_add] at hle
    exact State.after?_compares (h.feed done hle) after

/-! ## An object at a path -/

theorem resolves_spread (path : Path) (gs : List (String × Rhs)) :
    Resolves (fieldWords (spreadFields path gs)) ↔ Resolves (fieldWords gs) := by
  induction gs with
  | nil => rfl
  | cons g gs ih =>
    rw [spreadFields, List.map_cons, fieldWords_cons, words_fieldAt, resolves_append]
    rw [spreadFields] at ih
    rw [ih, fieldWords_cons g gs]
    simp [Rhs.words, fieldWords]

theorem depth_spread (path : Path) {gs : List (String × Rhs)} (hne : gs ≠ []) :
    fieldDepth (spreadFields path gs) = path.tail.length + (fieldDepth gs + 1) := by
  induction gs with
  | nil => exact absurd rfl hne
  | cons g gs ih =>
    rw [spreadFields, List.map_cons, fieldDepth_cons, fieldDepth_cons]
    simp only [fieldAt, Rhs.depth_under, Rhs.depth]
    cases gs with
    | nil => simp [fieldDepth]
    | cons g' gs =>
      have ih := ih (by simp)
      simp only [spreadFields, fieldAt] at ih
      rw [ih]
      omega

theorem fieldsAgree_spread (lookup : String → Option String) (path : Path) {gs : List (String × Rhs)} (hne : gs ≠ [])
    (hd : (Fields.names gs).Nodup) :
    FieldsAgree .same lookup [fieldAt path (.assign (.object gs))] (spreadFields path gs) where
  isEmpty := by
    cases gs with
    | nil => exact absurd rfl hne
    | cons g gs => rfl
  resolves := by
    rw [words_fieldAt, resolves_append, resolves_spread]
    simp [Rhs.words, Value.words]
  depth := by
    rw [depth_spread path hne, fieldDepth_cons, fieldAt]
    simp [Rhs.depth, Value.depth, fieldDepth]
  tree := by
    intro hs _ _ _
    have hne' : Grammar.fieldTrees lookup gs ≠ [] := by
      rw [Grammar.fieldTrees_eq_map]
      simpa using hne
    have hd' : (Fields.names (Grammar.fieldTrees lookup gs)).Nodup := by rwa [Grammar.names_fieldTrees]
    have hmerge := Tree.merge_nest_object hne' hd' (.object hs) path.names
    rw [Grammar.fieldTrees_eq_map, List.foldl_map, ← Grammar.fieldTrees_eq_map] at hmerge
    change Tree.object _ = Tree.object _
    rw [object_insertAll_fieldTrees, object_insertAll_fieldTrees, spreadFields, List.foldl_map,
      List.foldl_cons, List.foldl_nil]
    simp only [ofField_fieldAt, Rhs.tree, Value.tree, Tree.insertAll_empty hd', hmerge]

/-- An object with distinct names and at least one can be written at its path at once or name by name, in any
    field list. -/
theorem grouped_or_spread (lookup : String → Option String) {before : List Word} (hb : BeforeField before) (path : Path)
    {gs : List (String × Rhs)} (hne : gs ≠ []) (hd : (Fields.names gs).Nodup) (after : List Word) :
    let grouped := before ++ fieldWords [fieldAt path (.assign (.object gs))] ++ after
    let spread := before ++ fieldWords (spreadFields path gs) ++ after
    forest? lookup grouped = forest? lookup spread ∧
      ∀ (input input' : String) (tokens tokens' : List Token), Lexes input tokens → tokens.map Token.word = grouped →
        Lexes input' tokens' → tokens'.map Token.word = spread → ∀ forest,
          (parseForest lookup input = .ok forest ↔ parseForest lookup input' = .ok forest) := by
  intro grouped spread
  have heq : forest? lookup grouped = forest? lookup spread :=
    Comparison.eq_of_same (forest?_of_fields (fieldsAgree_spread lookup path hne hd) hb after)
  refine ⟨heq, fun input input' tokens tokens' hl hw hl' hw' forest => ?_⟩
  rw [parseForest_eq_ok_iff_forest? hl, parseForest_eq_ok_iff_forest? hl', hw, hw', heq]

/-- An object that takes the place of a text, and then the fields of this object one by one. -/
theorem grouped_or_spread_over_text :
    let lookup : String → Option String := fun _ => none
    let first : List (String × Rhs) := [("a", .assign (.literal "x"))]
    let gs : List (String × Rhs) := [("b", .assign (.literal "y")), ("c", .dot "d" (.assign (.literal "z")))]
    let root := Tree.ofField "a" (.object [("b", .scalar (.string "y")), ("c", .ofField "d" (.scalar (.string "z")))])
    BeforeField (fieldWords first) ∧ gs ≠ [] ∧ (Fields.names gs).Nodup ∧
      parseForest lookup "a=x a=\x7bb=y c.d=z\x7d" = .ok [root] ∧
      parseForest lookup "a=x a.b=y a.c.d=z" = .ok [root] := by
  intro lookup first gs root
  have hb : BeforeField (fieldWords first) := .flat first
  have hne : gs ≠ [] := by simp [gs]
  have hd : (Fields.names gs).Nodup := by simp [gs]
  have hgrouped : Lexes "a=x a=\x7bb=y c.d=z\x7d" [⟨.bare ['a'], 0⟩, ⟨.mark .assign, 1⟩, ⟨.bare ['x'], 2⟩,
      ⟨.bare ['a'], 4⟩, ⟨.mark .assign, 5⟩, ⟨.mark .objectOpen, 6⟩, ⟨.bare ['b'], 7⟩, ⟨.mark .assign, 8⟩,
      ⟨.bare ['y'], 9⟩, ⟨.bare ['c'], 11⟩, ⟨.mark .dot, 12⟩, ⟨.bare ['d'], 13⟩, ⟨.mark .assign, 14⟩, ⟨.bare ['z'], 15⟩,
      ⟨.mark .objectClose, 16⟩] :=
    ⟨17, by decide +kernel⟩
  have hspread : Lexes "a=x a.b=y a.c.d=z" [⟨.bare ['a'], 0⟩, ⟨.mark .assign, 1⟩, ⟨.bare ['x'], 2⟩, ⟨.bare ['a'], 4⟩,
      ⟨.mark .dot, 5⟩, ⟨.bare ['b'], 6⟩, ⟨.mark .assign, 7⟩, ⟨.bare ['y'], 8⟩, ⟨.bare ['a'], 10⟩, ⟨.mark .dot, 11⟩,
      ⟨.bare ['c'], 12⟩, ⟨.mark .dot, 13⟩, ⟨.bare ['d'], 14⟩, ⟨.mark .assign, 15⟩, ⟨.bare ['z'], 16⟩] :=
    ⟨17, by decide +kernel⟩
  have hparse : parseForest lookup "a=x a=\x7bb=y c.d=z\x7d" = .ok [root] :=
    (parseForest_eq_ok_iff_forest? hgrouped).mpr rfl
  have hiff := (grouped_or_spread lookup hb (.single "a") hne hd []).2 _ _ _ _ hgrouped rfl hspread rfl [root]
  exact ⟨hb, hne, hd, hparse, hiff.mp hparse⟩

/-! ## Fields that change places -/

/-- Trees with distinct names compare if they differ in the order of fields only. -/
def Comparison.reordered : Comparison where
  name := Eq
  tree t u := t.Distinct ∧ u.Distinct ∧ Tree.Reordered Eq t u
  name_refl _ := rfl
  tree_refl h := ⟨h, h, .refl (fun _ => rfl) _⟩
  text h := ⟨.scalar _, .scalar _, .scalar (congrArg _ h)⟩
  insert := by
    rintro fs fs' n _ t t' ⟨df, df', hf⟩ rfl ⟨dt, dt', ht⟩
    exact ⟨df.insert n dt, df'.insert n dt', hf.insert df df' n ht dt dt'⟩
  array := by
    intro xs xs' h
    obtain ⟨dx, h⟩ := (List.forall₂_and_left xs xs').mp h
    obtain ⟨dx', h⟩ := (List.forall₂_and_left xs' xs).mp h.flip
    exact ⟨.array dx, .array dx', Tree.reordered_array_iff.mpr h.flip⟩

section

variable {p q : Path} {v w : Value}

theorem object_insertAll_pair (hs : List (String × Tree)) (p q : Path) (v w : Value) :
    Tree.object (Tree.insertAll hs (Grammar.fieldTrees lookup [fieldAt p (.assign v), fieldAt q (.assign w)])) =
      ((Tree.object hs).merge (.nest p.names (v.tree lookup))).merge (.nest q.names (w.tree lookup)) := by
  rw [object_insertAll_fieldTrees, List.foldl_cons, List.foldl_cons, List.foldl_nil, ofField_fieldAt, ofField_fieldAt,
    Rhs.tree, Rhs.tree]

theorem fieldsAgree_swap (lookup : String → Option String) (h : ¬p.names <+: q.names) (h' : ¬q.names <+: p.names)
    (v w : Value) :
    FieldsAgree .reordered lookup [fieldAt p (.assign v), fieldAt q (.assign w)]
      [fieldAt q (.assign w), fieldAt p (.assign v)] where
  isEmpty := rfl
  resolves := by
    rw [fieldWords_cons _ [fieldAt q _], fieldWords_cons _ [fieldAt p _],
      resolves_append, resolves_append, and_comm]
  depth := by
    simp only [fieldDepth_cons]
    rw [max_left_comm]
  tree := by
    intro hs hd hfirst hsecond
    refine ⟨hfirst, hsecond, ?_⟩
    rw [object_insertAll_pair, object_insertAll_pair]
    exact Tree.reordered_merge_nest_comm (fun _ => rfl) h h' _ _ hd

end

/-- Two fields that follow one another, at paths of which none is a prefix of the other, can change places in
    any field list: nothing changes but the order of fields in objects. -/
theorem swapped_fields (lookup : String → Option String) {before : List Word} (hb : BeforeField before) {p q : Path}
    (h : ¬p.names <+: q.names) (h' : ¬q.names <+: p.names) (v w : Value) (after : List Word) :
    let first := before ++ fieldWords [fieldAt p (.assign v), fieldAt q (.assign w)] ++ after
    let second := before ++ fieldWords [fieldAt q (.assign w), fieldAt p (.assign v)] ++ after
    Option.Rel (List.Forall₂ (Tree.Reordered Eq)) (forest? lookup first) (forest? lookup second) ∧
      ∀ (input input' : String) (tokens tokens' : List Token), Lexes input tokens → tokens.map Token.word = first →
        Lexes input' tokens' → tokens'.map Token.word = second →
          SameOutcome (fun _ _ => True) (List.Forall₂ (Tree.Reordered Eq)) (parseForest lookup input)
            (parseForest lookup input') := by
  intro first second
  have hrel' : Option.Rel (List.Forall₂ (Tree.Reordered Eq)) (forest? lookup first) (forest? lookup second) := by
    have hrel := forest?_of_fields (fieldsAgree_swap lookup h h' v w) hb after
    change Option.Rel _ (forest? lookup first) (forest? lookup second) at hrel
    generalize forest? lookup first = x at hrel ⊢
    generalize forest? lookup second = x' at hrel ⊢
    cases hrel with
    | none => exact .none
    | some hf => exact .some (hf.imp fun _ _ ht => ht.2.2)
  refine ⟨hrel', fun input input' tokens tokens' hl hw hl' hw' => .of_toOption ?_⟩
  rwa [toOption_parseForest hl, toOption_parseForest hl', hw, hw']

/-- Two fields of one object. -/
theorem swapped_fields_of_one_object :
    let lookup : String → Option String := fun _ => none
    let p : Path := ⟨"a", ["b"]⟩
    let q : Path := ⟨"a", ["c"]⟩
    let x := Tree.scalar (.string "x")
    let root := Tree.ofField "a" (.object [("b", x), ("c", .array [])])
    let root' := Tree.ofField "a" (.object [("c", .array []), ("b", x)])
    BeforeField [] ∧ ¬p.names <+: q.names ∧ ¬q.names <+: p.names ∧ parseForest lookup "a.b=x a.c=[]" = .ok [root] ∧
      parseForest lookup "a.c=[] a.b=x" = .ok [root'] ∧ Tree.Reordered Eq root root' := by
  intro lookup p q x root root'
  have hb : BeforeField [] := .flat []
  have h : ¬p.names <+: q.names := by decide
  have h' : ¬q.names <+: p.names := by decide
  have hfirst : Lexes "a.b=x a.c=[]" [⟨.bare ['a'], 0⟩, ⟨.mark .dot, 1⟩, ⟨.bare ['b'], 2⟩, ⟨.mark .assign, 3⟩,
      ⟨.bare ['x'], 4⟩, ⟨.bare ['a'], 6⟩, ⟨.mark .dot, 7⟩, ⟨.bare ['c'], 8⟩, ⟨.mark .assign, 9⟩, ⟨.mark .arrayOpen, 10⟩,
      ⟨.mark .arrayClose, 11⟩] :=
    ⟨12, by decide +kernel⟩
  have hsecond : Lexes "a.c=[] a.b=x" [⟨.bare ['a'], 0⟩, ⟨.mark .dot, 1⟩, ⟨.bare ['c'], 2⟩, ⟨.mark .assign, 3⟩,
      ⟨.mark .arrayOpen, 4⟩, ⟨.mark .arrayClose, 5⟩, ⟨.bare ['a'], 7⟩, ⟨.mark .dot, 8⟩, ⟨.bare ['b'], 9⟩,
      ⟨.mark .assign, 10⟩, ⟨.bare ['x'], 11⟩] :=
    ⟨12, by decide +kernel⟩
  have hparse : parseForest lookup "a.b=x a.c=[]" = .ok [root] := (parseForest_eq_ok_iff_forest? hfirst).mpr rfl
  have hparse' : parseForest lookup "a.c=[] a.b=x" = .ok [root'] := (parseForest_eq_ok_iff_forest? hsecond).mpr rfl
  have hsame := (swapped_fields lookup hb h h' (.literal "x") (.array []) []).2 _ _ _ _ hfirst rfl hsecond rfl
  rw [hparse, hparse'] at hsame
  cases hsame with
  | ok hf => exact ⟨hb, h, h', hparse, hparse', (List.forall₂_cons.mp hf).1⟩

end ObjectExpr
