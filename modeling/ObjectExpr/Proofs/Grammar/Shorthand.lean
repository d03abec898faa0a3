/-
  ObjectExpr.Proofs.Grammar.Shorthand — two short ways to write an object that has one field: a dot in a
  path, and a field as the element of an array.

  A dot and the name behind it stand for braces, anywhere and any number of times, and nothing that is
  accepted or built changes (`dots_are_braces`); a dot takes one level, as the braces do, so the limit of
  levels does not tell them apart. All dots of an expression can be written as braces (`unfolds_start`).

  A field in an array takes no level for the object that it is, and braces around it take one
  (`braced_element_iff`). So the two ways to write it differ just where that level is one too many, as in
  an array inside as many arrays as may be open (`field_in_deepest_array`).
-/

import Mathlib.Logic.Relation
import ObjectExpr.Proofs.Grammar.Comparison

namespace ObjectExpr

open Grammar (Rhs Value Root Start fieldWords elementWords rootWords readFields)
open Grammar (isFieldMark Settles feed_rhs feed_object feed_fields)
open ObjectExpr.Parser
open Relation (ReflTransGen)

/-! ## Dots -/

/-- What a dot with a name and a right-hand side stands for. -/
def Grammar.Rhs.braced (name : String) (r : Rhs) : Rhs := .assign (.object [(name, r)])

/-- One dotted right-hand side is written with braces, wherever it stands. -/
inductive Unfolds : List Word → List Word → Prop
  | mk (before : List Word) (name : String) (r : Rhs) (after : List Word) :
      Unfolds (before ++ (Rhs.dot name r).words ++ after) (before ++ (Rhs.braced name r).words ++ after)

variable {lookup : String → Option String}

theorem tree_object_single (path : Path) (t : Term) :
    (Term.object [(path, t)]).tree lookup = Tree.nest path.names (t.tree lookup) := by
  rw [Term.tree]
  rfl

/-- After a name, a dot comes to the same as braces. -/
theorem feed_dot_braced (owner : Owner) (path : Path) (outer : List Hole) (name : String) (r : Rhs) :
    SameResult lookup (State.feed ⟨.name owner path, outer⟩ (Rhs.dot name r).words)
      (State.feed ⟨.name owner path, outer⟩ (Rhs.braced name r).words) := by
  rw [feed_rhs, feed_rhs, Rhs.braced, Rhs.read, Rhs.read, Value.read, readFields, readFields]
  by_cases hl : path.tail.length + levels outer < maxDepth
  · simp only [Grammar.deeper, if_pos hl]
    cases r.read (path.tail.length + levels outer + 1) with
    | error e => exact .error trivial
    | ok q =>
      refine .ok ⟨(OwnersCompare.refl owner).add rfl ?_, HolesCompare.refl_all outer⟩
      change Tree.nest _ _ = Tree.nest _ _
      rw [Tree.nest_append, Tree.nest_append, tree_object_single]
      rfl
  · simp only [Grammar.deeper, if_neg hl]
    exact .error trivial

/-- An equals sign and a dot stand behind a name only. -/
theorem exists_refusal_of_isFieldMark {s : State} (hs : ∀ owner path, s.place ≠ .name owner path) {w : Word}
    (hw : isFieldMark w = true) : ∃ r, s.step w = .error r := by
  obtain ⟨m, rfl, hm⟩ : ∃ m, w = .mark m ∧ (m = .assign ∨ m = .dot) := by
    cases w with
    | mark m =>
      cases m with
      | assign => exact ⟨_, rfl, .inl rfl⟩
      | dot => exact ⟨_, rfl, .inr rfl⟩
      | _ => cases hw
    | _ => cases hw
  obtain ⟨place, outer⟩ := s
  cases place with
  | fields done =>
    show ∃ r, State.field _ done (.mark m) = .error r
    cases outer with
    | nil =>
      rw [State.field_flat done (by simp)]
      split
      · rcases hm with rfl | rfl <;> exact ⟨_, rfl⟩
      · exact ⟨_, rfl⟩
    | cons hole outer => rcases hm with rfl | rfl <;> exact ⟨_, rfl⟩
  | name owner path => exact absurd rfl (hs owner path)
  | _ => rcases hm with rfl | rfl <;> exact ⟨_, rfl⟩

theorem feed_unfold (s : State) (name : String) (r : Rhs) :
    SameResult lookup (s.feed (Rhs.dot name r).words) (s.feed (Rhs.braced name r).words) := by
  by_cases hs : ∃ owner path, s.place = .name owner path
  · obtain ⟨place, outer⟩ := s
    obtain ⟨owner, path, rfl⟩ := hs
    exact feed_dot_braced owner path outer name r
  · have hs : ∀ owner path, s.place ≠ .name owner path := fun owner path h => hs ⟨owner, path, h⟩
    obtain ⟨q, hq⟩ := exists_refusal_of_isFieldMark (w := .mark .dot) hs rfl
    obtain ⟨q', hq'⟩ := exists_refusal_of_isFieldMark (w := .mark .assign) hs rfl
    rw [Rhs.words, Rhs.braced, Rhs.words, State.feed_cons, State.feed_cons, hq, hq']
    exact .error trivial

theorem forest?_of_unfolds {ws ws' : List Word} (h : Unfolds ws ws') : forest? lookup ws' = forest? lookup ws := by
  obtain ⟨before, name, r, after⟩ := h
  simp only [forest?, expression?, List.append_assoc]
  cases hs : State.start.feed before with
  | error q => rw [State.after?_append_of_refused hs, State.after?_append_of_refused hs]
  | ok s =>
    rw [State.after?_append hs, State.after?_append hs]
    exact (State.forest_after?_append (feed_unfold s name r) after).symm

theorem forest?_of_unfolds_all {ws ws' : List Word} (h : ReflTransGen Unfolds ws ws') :
    forest? lookup ws' = forest? lookup ws := by
  induction h with
  | refl => rfl
  | tail _ hu ih => rw [forest?_of_unfolds hu, ih]

/-! ## No dots left -/

namespace Grammar

mutual

/-- Braces for all dots. -/
def Rhs.unfold : Rhs → Rhs
  | .assign v => .assign v.unfold
  | .dot name r => .braced name r.unfold

def Value.unfold : Value → Value
  | .object fields => .object (unfoldFields fields)
  | .array elements => .array (unfoldElements elements)
  | v => v

def unfoldFields : List (String × Rhs) → List (String × Rhs)
  | [] => []
  | (name, r) :: fields => (name, r.unfold) :: unfoldFields fields

def Element.unfold : Element → Element
  | .value v => .value v.unfold
  | .field name r => .field name r.unfold

def unfoldElements : List Element → List Element
  | [] => []
  | e :: elements => e.unfold :: unfoldElements elements

end

def Root.unfold : Root → Root
  | object fields => .object (unfoldFields fields)
  | array elements => .array (unfoldElements elements)

def Start.unfold : Start → Start
  | brackets first rest => .brackets first.unfold (rest.map Root.unfold)
  | fields fs => .fields (unfoldFields fs)

theorem Root.value_unfold (r : Root) : r.unfold.value = r.value.unfold := by
  cases r <;> simp [Root.unfold, Root.value, Value.unfold]

mutual

theorem dot_notMem_rhs (r : Rhs) : Word.mark .dot ∉ r.unfold.words := by
  match r with
  | .assign v => simp [Rhs.unfold, Rhs.words, dot_notMem_value v]
  | .dot name r => simp [Rhs.unfold, Rhs.braced, Rhs.words, Value.words, fieldWords, dot_notMem_rhs r]

theorem dot_notMem_value (v : Value) : Word.mark .dot ∉ v.unfold.words := by
  match v with
  | .literal text => simp [Value.unfold, Value.words]
  | .raw text => simp [Value.unfold, Value.words]
  | .env name => simp [Value.unfold, Value.words]
  | .object fs => simp [Value.unfold, Value.words, dot_notMem_fields fs]
  | .array es => simp [Value.unfold, Value.words, dot_notMem_elements es]

theorem dot_notMem_fields (fs : List (String × Rhs)) : Word.mark .dot ∉ fieldWords (unfoldFields fs) := by
  match fs with
  | [] => simp [unfoldFields, fieldWords]
  | (name, r) :: fs => simp [unfoldFields, fieldWords, dot_notMem_rhs r, dot_notMem_fields fs]

theorem dot_notMem_element (e : Element) : Word.mark .dot ∉ e.unfold.words := by
  match e with
  | .value v => simp [Element.unfold, Element.words, dot_notMem_value v]
  | .field name r => simp [Element.unfold, Element.words, dot_notMem_rhs r]

theorem dot_notMem_elements (es : List Element) : Word.mark .dot ∉ elementWords (unfoldElements es) := by
  match es with
  | [] => simp [unfoldElements, elementWords]
  | e :: es => simp [unfoldElements, elementWords, dot_notMem_element e, dot_notMem_elements es]

end

theorem dot_notMem_start (d : Start) : Word.mark .dot ∉ d.unfold.words := by
  cases d with
  | fields fs => exact dot_notMem_fields fs
  | brackets first rest =>
    simp only [Start.unfold, Start.words, rootWords, List.mem_flatMap, not_exists, not_and]
    intro r hr
    obtain ⟨q, -, rfl⟩ := List.mem_map.mp (show r ∈ (first :: rest).map Root.unfold from hr)
    rw [Root.value_unfold]
    exact dot_notMem_value q.value

end Grammar

theorem Unfolds.within {ws ws' : List Word} (h : Unfolds ws ws') (before after : List Word) :
    Unfolds (before ++ ws ++ after) (before ++ ws' ++ after) := by
  obtain ⟨b, name, r, a⟩ := h
  simpa only [List.append_assoc] using Unfolds.mk (before ++ b) name r (a ++ after)

section

variable {us us' vs vs' : List Word}

theorem unfolds_within (h : ReflTransGen Unfolds us us') (before after : List Word) :
    ReflTransGen Unfolds (before ++ us ++ after) (before ++ us' ++ after) :=
  h.lift (fun ws => before ++ ws ++ after) fun _ _ hu => hu.within before after

theorem unfolds_append (hu : ReflTransGen Unfolds us us') (hv : ReflTransGen Unfolds vs vs') :
    ReflTransGen Unfolds (us ++ vs) (us' ++ vs') := by
  have hleft := unfolds_within hu [] vs
  have hright := unfolds_within hv us' []
  simp only [List.nil_append, List.append_nil] at hleft hright
  exact hleft.trans hright

theorem unfolds_cons (w : Word) (hu : ReflTransGen Unfolds us us') : ReflTransGen Unfolds (w :: us) (w :: us') := by
  have hw : ReflTransGen Unfolds [w] [w] := .refl
  exact unfolds_append hw hu

end

mutual

theorem unfolds_rhs (r : Rhs) : ReflTransGen Unfolds r.words r.unfold.words := by
  match r with
  | .assign v =>
    simp only [Rhs.unfold, Rhs.words]
    exact unfolds_cons _ (unfolds_value v)
  | .dot name r =>
    -- the dot first, then what is behind its name, which is now the only field of an object
    have hdot : Unfolds (Rhs.dot name r).words (Rhs.braced name r).words := by
      simpa using Unfolds.mk [] name r []
    refine .head hdot ?_
    simp only [Rhs.unfold, Rhs.braced, Rhs.words, Value.words, fieldWords, List.append_nil]
    exact unfolds_cons _ (unfolds_cons _ (unfolds_append (unfolds_cons _ (unfolds_rhs r)) .refl))

theorem unfolds_value (v : Value) : ReflTransGen Unfolds v.words v.unfold.words := by
  match v with
  | .literal text => exact .refl
  | .raw text => exact .refl
  | .env name => exact .refl
  | .object fs =>
    simp only [Value.unfold, Value.words]
    exact unfolds_cons _ (unfolds_append (unfolds_fields fs) .refl)
  | .array es =>
    simp only [Value.unfold, Value.words]
    exact unfolds_cons _ (unfolds_append (unfolds_elements es) .refl)

theorem unfolds_fields (fs : List (String × Rhs)) :
    ReflTransGen Unfolds (fieldWords fs) (fieldWords (Grammar.unfoldFields fs)) := by
  match fs with
  | [] => exact .refl
  | (name, r) :: fs =>
    simp only [Grammar.unfoldFields, fieldWords]
    exact unfolds_cons _ (unfolds_append (unfolds_rhs r) (unfolds_fields fs))

theorem unfolds_element (e : Grammar.Element) : ReflTransGen Unfolds e.words e.unfold.words := by
  match e with
  | .value v =>
    simp only [Grammar.Element.unfold, Grammar.Element.words]
    exact unfolds_value v
  | .field name r =>
    simp only [Grammar.Element.unfold, Grammar.Element.words]
    exact unfolds_cons _ (unfolds_rhs r)

theorem unfolds_elements (es : List Grammar.Element) :
    ReflTransGen Unfolds (elementWords es) (elementWords (Grammar.unfoldElements es)) := by
  match es with
  | [] => exact .refl
  | e :: es =>
    simp only [Grammar.unfoldElements, elementWords]
    exact unfolds_append (unfolds_element e) (unfolds_elements es)

end

theorem unfolds_roots (rs : List Root) : ReflTransGen Unfolds (rootWords rs) (rootWords (rs.map Root.unfold)) := by
  induction rs with
  | nil => exact .refl
  | cons r rs ih =>
    rw [List.map_cons, Grammar.rootWords_cons, Grammar.rootWords_cons, Root.value_unfold]
    exact unfolds_append (unfolds_value r.value) ih

theorem unfolds_start (d : Start) : ReflTransGen Unfolds d.words d.unfold.words := by
  cases d with
  | brackets first rest => exact unfolds_roots (first :: rest)
  | fields fs => exact unfolds_fields fs

/-- Dots can be written as braces, in any tokens and any number of times, and the same is accepted and
    built; and no dot of an expression has to stay. -/
theorem dots_are_braces (lookup : String → Option String) :
    (∀ (tokens tokens' : List Token) (stop stop' : Nat),
      ReflTransGen Unfolds (tokens.map Token.word) (tokens'.map Token.word) → ∀ forest,
        (forestOfTokens lookup stop tokens = .ok forest ↔ forestOfTokens lookup stop' tokens' = .ok forest)) ∧
    (∀ (input input' : String) (tokens tokens' : List Token), Lexes input tokens → Lexes input' tokens' →
      ReflTransGen Unfolds (tokens.map Token.word) (tokens'.map Token.word) → ∀ forest,
        (parseForest lookup input = .ok forest ↔ parseForest lookup input' = .ok forest)) ∧
    (∀ d : Start, ReflTransGen Unfolds d.words d.unfold.words ∧ Word.mark .dot ∉ d.unfold.words) := by
  refine ⟨fun tokens tokens' stop stop' h forest => ?_, fun input input' tokens tokens' hl hl' h forest => ?_,
    fun d => ⟨unfolds_start d, Grammar.dot_notMem_start d⟩⟩
  · rw [forestOfTokens_eq_ok_iff, forestOfTokens_eq_ok_iff, forest?_of_unfolds_all h]
  · rw [parseForest_eq_ok_iff_forest? hl, parseForest_eq_ok_iff_forest? hl', forest?_of_unfolds_all h]

/-- A path of three names and the braces that it stands for. -/
theorem dots_are_braces_in_path :
    let lookup : String → Option String := fun _ => none
    let root := Tree.ofField "a" (.ofField "b" (.ofField "c" (.scalar (.string "v"))))
    parseForest lookup "a.b.c=v" = .ok [root] ∧ parseForest lookup "a=\x7bb=\x7bc=v\x7d\x7d" = .ok [root] := by
  intro lookup root
  have hdots : Lexes "a.b.c=v" [⟨.bare ['a'], 0⟩, ⟨.mark .dot, 1⟩, ⟨.bare ['b'], 2⟩, ⟨.mark .dot, 3⟩, ⟨.bare ['c'], 4⟩,
      ⟨.mark .assign, 5⟩, ⟨.bare ['v'], 6⟩] :=
    ⟨7, by decide +kernel⟩
  have hbraces : Lexes "a=\x7bb=\x7bc=v\x7d\x7d" [⟨.bare ['a'], 0⟩, ⟨.mark .assign, 1⟩, ⟨.mark .objectOpen, 2⟩,
      ⟨.bare ['b'], 3⟩, ⟨.mark .assign, 4⟩, ⟨.mark .objectOpen, 5⟩, ⟨.bare ['c'], 6⟩, ⟨.mark .assign, 7⟩, ⟨.bare ['v'], 8⟩,
      ⟨.mark .objectClose, 9⟩, ⟨.mark .objectClose, 10⟩] :=
    ⟨11, by decide +kernel⟩
  have hparse : parseForest lookup "a.b.c=v" = .ok [root] := (parseForest_eq_ok_iff_forest? hdots).mpr rfl
  -- the words of the two texts are those of one derivation before and after
  have hunfold := ((dots_are_braces lookup).2.2 (.fields [("a", .dot "b" (.dot "c" (.assign (.literal "v"))))])).1
  exact ⟨hparse, ((dots_are_braces lookup).2.1 _ _ _ _ hdots hbraces hunfold [root]).mp hparse⟩

/-! ## Fields in arrays -/

/-- The next word starts an element of an array; a lone name before it is an element by itself. -/
def Parser.State.AtElement (s : State) : Prop :=
  (∃ done, s.place = .elements done) ∨ ∃ done name, s.place = .name (.elements done) (.single name)

/-- A field in an array as the object that it stands for. -/
def Grammar.Element.braced (name : String) (r : Rhs) : Grammar.Element := .value (.object [(name, r)])

section

variable {s : State} {outer : List Hole} {done : List Element}

theorem Parser.State.AtElement.exists_settles (h : s.AtElement) :
    ∃ done, Settles s ⟨.elements done, s.outer⟩ ∧ s.depth = levels s.outer := by
  obtain ⟨place, outer⟩ := s
  rw [State.depth_eq]
  rcases h with ⟨done, rfl⟩ | ⟨done, name, rfl⟩
  · exact ⟨done, fun _ _ => rfl, Nat.zero_add _⟩
  · exact ⟨_, Grammar.settles_name done name outer, Nat.zero_add _⟩

theorem feed_element_field (hs : Settles s ⟨.elements done, outer⟩) (name : String) (r : Rhs) :
    s.feed (Grammar.Element.field name r).words =
      (fun q => ⟨.elements ((some ⟨name, q.1⟩, q.2) :: done), outer⟩) <$> r.read (levels outer) := by
  rw [Grammar.Element.words, State.feed_cons, hs _ rfl]
  show State.feed ⟨.name (.elements done) (.single name), outer⟩ r.words = _
  rw [feed_rhs]
  simp [Path.single, Owner.add]

theorem feed_element_braced (hs : Settles s ⟨.elements done, outer⟩) (name : String) (r : Rhs) :
    s.feed (Grammar.Element.braced name r).words =
      (fun t => ⟨.elements ((none, t) :: done), outer⟩) <$> (Value.object [(name, r)]).read (levels outer) := by
  have hf := feed_object (feed_fields [(name, r)]) (.of_settles hs (Grammar.awaits_element done outer))
  simpa [Grammar.Element.braced, Grammar.Element.words, Hole.dots, Hole.fill] using hf

theorem accepted_braced {level : Nat} (hl : level ≤ maxDepth) (name : String) (r : Rhs) :
    Grammar.Accepted ((Value.object [(name, r)]).read level) ↔ Grammar.Resolves r.words ∧ level + r.depth < maxDepth := by
  rw [Grammar.accepted_value _ hl]
  simp [Value.words, fieldWords, Value.depth, Grammar.fieldDepth, Nat.add_assoc, Nat.lt_iff_add_one_le]

/-- Where the limit leaves a level for the braces, a field in an array comes to the same with and without. -/
theorem sameResult_element_braced (hs : Settles s ⟨.elements done, outer⟩) {name : String} {r : Rhs}
    (hl : levels outer + r.depth < maxDepth) :
    SameResult lookup (s.feed (Grammar.Element.field name r).words) (s.feed (Grammar.Element.braced name r).words) := by
  have hle : levels outer ≤ maxDepth := by omega
  rw [feed_element_field hs, feed_element_braced hs]
  by_cases hr : Grammar.Resolves r.words
  · obtain ⟨q, hq⟩ := (Grammar.accepted_rhs r hle).mpr ⟨hr, by omega⟩
    obtain ⟨t, ht⟩ := (accepted_braced hle name r).mpr ⟨hr, hl⟩
    rw [hq, ht]
    have htree : Tree.nest (name :: q.1) (q.2.tree lookup) = t.tree lookup := by
      rw [Tree.nest, Grammar.tree_of_rhs r hq, Grammar.tree_of_value _ ht, Value.tree]
      rfl
    exact .ok ⟨.elements (.cons htree (.refl done)), HolesCompare.refl_all outer⟩
  · have hq : ¬Grammar.Accepted (r.read (levels outer)) := fun h => hr ((Grammar.accepted_rhs r hle).mp h).1
    have ht : ¬Grammar.Accepted ((Value.object [(name, r)]).read (levels outer)) := fun h =>
      hr ((accepted_braced hle name r).mp h).1
    cases hx : r.read (levels outer) with
    | ok q => exact absurd ⟨q, hx⟩ hq
    | error e =>
      cases hy : (Value.object [(name, r)]).read (levels outer) with
      | ok t => exact absurd ⟨t, hy⟩ ht
      | error e' => exact .error trivial

end

/-- A field in an array can be written with braces around it just if that leaves it within the limit of
    levels, and then the same is built. -/
theorem braced_element_iff (lookup : String → Option String) {before : List Word} {s : State}
    (hs : State.start.feed before = .ok s) (ha : s.AtElement) (name : String) (r : Rhs) (after : List Word)
    (forest : Forest) :
    forest? lookup (before ++ (Grammar.Element.braced name r).words ++ after) = some forest ↔
      forest? lookup (before ++ (Grammar.Element.field name r).words ++ after) = some forest ∧
        s.depth + r.depth < maxDepth := by
  obtain ⟨done, hset, hdepth⟩ := ha.exists_settles
  have hle := State.depth_le_of_feed hs
  rw [hdepth] at hle ⊢
  simp only [forest?, expression?, List.append_assoc, State.after?_append hs]
  by_cases hl : levels s.outer + r.depth < maxDepth
  · rw [State.forest_after?_append (sameResult_element_braced hset hl) after]
    exact (and_iff_left hl).symm
  · have hna : ¬Grammar.Accepted ((Value.object [(name, r)]).read (levels s.outer)) := fun h =>
      hl ((accepted_braced hle name r).mp h).2
    cases hx : (Value.object [(name, r)]).read (levels s.outer) with
    | ok t => exact absurd ⟨t, hx⟩ hna
    | error e =>
      have hf : s.feed (Grammar.Element.braced name r).words = .error e := by
        rw [feed_element_braced hset, hx]
        rfl
      rw [State.after?_append_of_refused hf]
      simp [hl]

/-- In one array, a text in braces is a leaf of the object that the braces make. -/
theorem braced_element_in_array :
    let before : List Word := [.mark .arrayOpen]
    let after : List Word := [.mark .arrayClose]
    let r := Rhs.assign (.literal "1")
    let s : State := ⟨.elements [], [.root []]⟩
    State.start.feed before = .ok s ∧ s.AtElement ∧ s.depth + r.depth < maxDepth ∧
      forest? (fun _ => none) (before ++ (Grammar.Element.braced "x" r).words ++ after) =
        some [.array [.ofField "x" (.scalar (.string "1"))]] := by
  intro before after r s
  have hs : State.start.feed before = .ok s := rfl
  have ha : s.AtElement := .inl ⟨[], rfl⟩
  have hd : s.depth + r.depth < maxDepth := by decide
  exact ⟨hs, ha, hd, (braced_element_iff _ hs ha "x" r after _).mpr ⟨rfl, hd⟩⟩

/-- In an array inside as many arrays as may be open, a field is accepted, and is not with braces around it. -/
theorem field_in_deepest_array :
    let opened := List.replicate maxDepth (Word.mark .arrayOpen)
    let closed := List.replicate maxDepth (Word.mark .arrayClose)
    let r := Rhs.assign (.literal "1")
    (forest? (fun _ => none) (opened ++ (Grammar.Element.field "x" r).words ++ closed)).isSome = true ∧
      (forest? (fun _ => none) (opened ++ (Grammar.Element.braced "x" r).words ++ closed)).isSome = false := by
  decide +kernel

end ObjectExpr
