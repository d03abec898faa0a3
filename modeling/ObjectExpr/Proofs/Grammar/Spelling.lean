/-
  ObjectExpr.Proofs.Grammar.Spelling — whatever the parser has read is a piece of a derivation.

  A term is spelled by the words of its derivation (`Term.derivation`), and a state of the parser by the
  words of its parts with the open brackets between them (`State.words`). A step adds the word that it
  takes, at the end (`State.words_step`), so a state spells all that was read before it. Roots stand at
  the top only and are brackets (`State.Sound`), so a state that may end spells the words of a
  derivation from `start` (`exists_start_of_finish`).
-/

import Mathlib.Data.List.Basic
import ObjectExpr.Proofs.Grammar.Reading

namespace ObjectExpr

open Grammar (Rhs Value Root Start)

/-! ## Terms as derivations -/

/-- The right-hand side that the further names of a path and a value make. -/
def Grammar.Rhs.ofNames (v : Value) : List String → Rhs
  | [] => .assign v
  | name :: names => .dot name (ofNames v names)

mutual

def Term.derivation : Term → Value
  | .text s => .literal s
  | .typed t => .raw t.text
  | .env name => .env name
  | .object fields => .object (fieldDerivations fields)
  | .array elements => .array (elementDerivations elements)

def fieldDerivations : List (Path × Term) → List (String × Rhs)
  | [] => []
  | (path, t) :: fields => (path.head, Rhs.ofNames t.derivation path.tail) :: fieldDerivations fields

def elementDerivations : List (Option Path × Term) → List Grammar.Element
  | [] => []
  | (none, t) :: elements => .value t.derivation :: elementDerivations elements
  | (some path, t) :: elements => .field path.head (Rhs.ofNames t.derivation path.tail) :: elementDerivations elements

end

def Term.words (t : Term) : List Word := t.derivation.words

def Path.words (path : Path) : List Word := .literal path.head :: path.tail.flatMap fun name => [.mark .dot, .literal name]

def fieldsWords (fields : List Field) : List Word := Grammar.fieldWords (fieldDerivations fields)

def elementsWords (elements : List Element) : List Word := Grammar.elementWords (elementDerivations elements)

theorem Term.words_object (fields : List Field) :
    (Term.object fields).words = .mark .objectOpen :: (fieldsWords fields ++ [.mark .objectClose]) := by
  simp only [words, derivation, Value.words, fieldsWords]

theorem Term.words_array (elements : List Element) :
    (Term.array elements).words = .mark .arrayOpen :: (elementsWords elements ++ [.mark .arrayClose]) := by
  simp only [words, derivation, Value.words, elementsWords]

theorem words_ofNames (v : Value) (names : List String) :
    (Rhs.ofNames v names).words = names.flatMap (fun name => [.mark .dot, .literal name]) ++ .mark .assign :: v.words := by
  induction names with
  | nil => rfl
  | cons name names ih => simp [Rhs.ofNames, Rhs.words, ih]

theorem Path.words_snoc (path : Path) (name : String) :
    (path.snoc name).words = path.words ++ [.mark .dot, .literal name] := by
  simp [words, snoc]

theorem fieldsWords_snoc (fields : List Field) (path : Path) (t : Term) :
    fieldsWords (fields ++ [(path, t)]) = fieldsWords fields ++ path.words ++ .mark .assign :: t.words := by
  induction fields with
  | nil => simp [fieldsWords, fieldDerivations, Grammar.fieldWords, words_ofNames, Path.words, Term.words]
  | cons f fields ih =>
    obtain ⟨p, u⟩ := f
    simp only [fieldsWords, List.cons_append, fieldDerivations, Grammar.fieldWords] at ih ⊢
    simp [ih]

theorem elementDerivations_cons (d : Element) (elements : List Element) :
    elementDerivations (d :: elements) = elementDerivations [d] ++ elementDerivations elements := by
  obtain ⟨_ | path, t⟩ := d <;> simp [elementDerivations]

theorem elementsWords_append (ds elements : List Element) :
    elementsWords (ds ++ elements) = elementsWords ds ++ elementsWords elements := by
  induction ds with
  | nil => rfl
  | cons d ds ih =>
    simp only [elementsWords] at ih ⊢
    rw [List.cons_append, elementDerivations_cons, Grammar.elementWords_append, ih, elementDerivations_cons d ds,
      Grammar.elementWords_append, List.append_assoc]

theorem elementsWords_item (t : Term) : elementsWords [(none, t)] = t.words := by
  simp [elementsWords, elementDerivations, Grammar.elementWords, Grammar.Element.words, Term.words]

theorem elementsWords_field (path : Path) (t : Term) :
    elementsWords [(some path, t)] = path.words ++ .mark .assign :: t.words := by
  simp [elementsWords, elementDerivations, Grammar.elementWords, Grammar.Element.words, words_ofNames, Path.words,
    Term.words]

/-! ## What is read off a derivation spells it -/

namespace Grammar

theorem derivation_of_readRaw {text : String} {t : Term} (h : readRaw text = .ok t) : t.derivation = .raw text := by
  obtain ⟨s, hs, rfl⟩ := readRaw_eq_ok_iff.mp h
  rfl

mutual

theorem derivation_of_rhs (r : Rhs) {level : Nat} {q : List String × Term} (h : r.read level = .ok q) :
    Rhs.ofNames q.2.derivation q.1 = r := by
  match r with
  | .assign v =>
    obtain ⟨t, ht, rfl⟩ := map_eq_ok_iff.mp h
    simp only [Rhs.ofNames, derivation_of_value v ht]
  | .dot name r =>
    obtain ⟨p, hp, rfl⟩ := map_eq_ok_iff.mp (deeper_eq_ok_iff.mp h).2
    simp only [Rhs.ofNames, derivation_of_rhs r hp]

theorem derivation_of_value (v : Value) {level : Nat} {t : Term} (h : v.read level = .ok t) : t.derivation = v := by
  match v with
  | .literal text => cases h; rfl
  | .raw text => exact derivation_of_readRaw h
  | .env name => cases h; rfl
  | .object fs =>
    obtain ⟨gs, hg, rfl⟩ := map_eq_ok_iff.mp (deeper_eq_ok_iff.mp h).2
    simp only [Term.derivation, derivations_of_fields fs hg]
  | .array es =>
    obtain ⟨ds, hd, rfl⟩ := map_eq_ok_iff.mp (deeper_eq_ok_iff.mp h).2
    simp only [Term.derivation, derivations_of_elements es hd]

theorem derivations_of_fields (fs : List (String × Rhs)) {level : Nat} {gs : List (Path × Term)}
    (h : readFields level fs = .ok gs) : fieldDerivations gs = fs := by
  match fs with
  | [] => cases h; rfl
  | (name, r) :: fs =>
    obtain ⟨q, hq, h⟩ := bind_eq_ok_iff.mp h
    obtain ⟨gs, hg, rfl⟩ := map_eq_ok_iff.mp h
    simp only [fieldDerivations, derivation_of_rhs r hq, derivations_of_fields fs hg]

theorem derivation_of_element (e : Element) {level : Nat} {d : Option Path × Term} (h : e.read level = .ok d) :
    elementDerivations [d] = [e] := by
  match e with
  | .value v =>
    obtain ⟨t, ht, rfl⟩ := map_eq_ok_iff.mp h
    simp only [elementDerivations, derivation_of_value v ht]
  | .field name r =>
    obtain ⟨q, hq, rfl⟩ := map_eq_ok_iff.mp h
    simp only [elementDerivations, derivation_of_rhs r hq]

theorem derivations_of_elements (es : List Element) {level : Nat} {ds : List (Option Path × Term)}
    (h : readElements level es = .ok ds) : elementDerivations ds = es := by
  match es with
  | [] => cases h; rfl
  | e :: es =>
    obtain ⟨d, hd, h⟩ := bind_eq_ok_iff.mp h
    obtain ⟨ds, he, rfl⟩ := map_eq_ok_iff.mp h
    rw [elementDerivations_cons, derivation_of_element e hd, derivations_of_elements es he]
    rfl

end

theorem derivations_of_roots (rs : List Root) {ts : List Term} (h : readRoots rs = .ok ts) :
    ts.map Term.derivation = rs.map Root.value := by
  induction rs generalizing ts with
  | nil => cases h; rfl
  | cons r rs ih =>
    obtain ⟨t, ht, h⟩ := bind_eq_ok_iff.mp h
    obtain ⟨ts, hts, rfl⟩ := map_eq_ok_iff.mp h
    rw [List.map_cons, List.map_cons, ih hts, derivation_of_value r.value ht]

theorem value_injective : Function.Injective Root.value := by
  intro q r h
  cases q <;> cases r <;> cases h <;> rfl

/-- Values that are all objects and arrays are those of roots. -/
theorem exists_roots {α : Type} {f : α → Value} {xs : List α} (h : ∀ x ∈ xs, ∃ r : Root, r.value = f x) :
    ∃ roots : List Root, roots.map Root.value = xs.map f := by
  induction xs with
  | nil => exact ⟨[], rfl⟩
  | cons x xs ih =>
    obtain ⟨⟨r, hr⟩, hx⟩ := List.forall_mem_cons.mp h
    obtain ⟨roots, hroots⟩ := ih hx
    exact ⟨r :: roots, by rw [List.map_cons, List.map_cons, hr, hroots]⟩

/-- An expression is read off one derivation only. -/
theorem read_inj {d d' : Start} {e : Expression} (h : d.read = .ok e) (h' : d'.read = .ok e) : d = d' := by
  cases d with
  | brackets first rest =>
    obtain ⟨ts, hts, rfl⟩ := map_eq_ok_iff.mp h
    cases d' with
    | brackets first' rest' =>
      obtain ⟨us, hus, he⟩ := map_eq_ok_iff.mp h'
      obtain rfl := Expression.bracketed.inj he
      have := (derivations_of_roots _ hts).symm.trans (derivations_of_roots _ hus)
      obtain ⟨rfl, rfl⟩ := List.cons.inj (value_injective.list_map this)
      rfl
    | fields fs' =>
      obtain ⟨gs, -, he⟩ := map_eq_ok_iff.mp h'
      cases he
  | fields fs =>
    obtain ⟨gs, hg, rfl⟩ := map_eq_ok_iff.mp h
    cases d' with
    | brackets first' rest' =>
      obtain ⟨ts, -, he⟩ := map_eq_ok_iff.mp h'
      cases he
    | fields fs' =>
      obtain ⟨gs', hg', he⟩ := map_eq_ok_iff.mp h'
      obtain rfl := Expression.flat.inj he
      rw [← derivations_of_fields fs hg, ← derivations_of_fields fs' hg']

end Grammar

namespace Parser

/-! ## What a state has read -/

def Owner.words : Owner → List Word
  | fields done => fieldsWords done.reverse
  | elements done => elementsWords done.reverse

def Owner.bracket : Owner → Mark
  | fields _ => .objectOpen
  | elements _ => .arrayOpen

def Hole.words : Hole → List Word
  | root done => done.reverse.flatMap Term.words
  | item done => (Owner.elements done).words
  | named owner path => owner.words ++ path.words ++ [.mark .assign]

/-- The bracket that a hole stands in, if there is one. -/
def Hole.bracket : Hole → Mark
  | root _ => .objectOpen
  | item _ => .arrayOpen
  | named owner _ => owner.bracket

def Place.words : Place → List Word
  | roots done => (Hole.root done).words
  | fields done => (Owner.fields done).words
  | elements done => (Owner.elements done).words
  | name owner path => owner.words ++ path.words
  | dot owner path => owner.words ++ path.words ++ [.mark .dot]
  | value owner path => (Hole.named owner path).words

def Place.bracket : Place → Mark
  | roots _ | fields _ => .objectOpen
  | elements _ => .arrayOpen
  | name owner _ | dot owner _ | value owner _ => owner.bracket

/-- All words before a place that stands in the bracket `m`, unless nothing is around it. -/
def wordsBefore (m : Mark) : List Hole → List Word
  | [] => []
  | hole :: outer => wordsBefore hole.bracket outer ++ hole.words ++ [.mark m]

def State.words (s : State) : List Word := wordsBefore s.place.bracket s.outer ++ s.place.words

@[simp] theorem Owner.words_add (owner : Owner) (path : Path) (t : Term) :
    (owner.add path t).words = owner.words ++ path.words ++ .mark .assign :: t.words := by
  cases owner with
  | fields done => simp [add, Place.words, words, fieldsWords_snoc]
  | elements done => simp [add, Place.words, words, elementsWords_append, elementsWords_field]

@[simp] theorem Owner.bracket_add (owner : Owner) (path : Path) (t : Term) :
    (owner.add path t).bracket = owner.bracket := by
  cases owner <;> rfl

@[simp] theorem Hole.words_fill (hole : Hole) (t : Term) : (hole.fill t).words = hole.words ++ t.words := by
  cases hole with
  | root done => simp [fill, Place.words, words]
  | item done => simp [fill, Place.words, words, Owner.words, elementsWords_append, elementsWords_item]
  | named owner path => simp [fill, words]

@[simp] theorem Hole.bracket_fill (hole : Hole) (t : Term) : (hole.fill t).bracket = hole.bracket := by
  cases hole with
  | named owner path => exact owner.bracket_add path t
  | _ => rfl

/-! ## What a step can do -/

/-- The terms that one word makes. -/
inductive Leaf : Word → Term → Prop
  | text (s : String) : Leaf (.literal s) (.text s)
  | typed (t : Typed) : Leaf (.raw t.text) (.typed t)
  | env (name : String) : Leaf (.env name) (.env name)

/-- A bracket that is opened at a place is the term for a hole. -/
inductive Opens : Place → Hole → List Hole → Prop
  | value (owner : Owner) (path : Path) (outer : List Hole) : Opens (.value owner path) (.named owner path) outer
  | element (done : List Element) (outer : List Hole) : Opens (.elements done) (.item done) outer
  | root (done : List Term) (outer : List Hole) : Opens (.roots done) (.root done) outer
  | start : Opens (.fields []) (.root []) []

inductive Step : State → Word → State → Prop
  | fieldName (done : List Field) (name : String) (outer : List Hole) :
      Step ⟨.fields done, outer⟩ (.literal name) ⟨.name (.fields done) (.single name), outer⟩
  | elementName (done : List Element) (name : String) (outer : List Hole) :
      Step ⟨.elements done, outer⟩ (.literal name) ⟨.name (.elements done) (.single name), outer⟩
  | assign (owner : Owner) (path : Path) (outer : List Hole) :
      Step ⟨.name owner path, outer⟩ (.mark .assign) ⟨.value owner path, outer⟩
  | dot (owner : Owner) (path : Path) (outer : List Hole) : path.tail.length + levels outer < maxDepth →
      Step ⟨.name owner path, outer⟩ (.mark .dot) ⟨.dot owner path, outer⟩
  | segment (owner : Owner) (path : Path) (name : String) (outer : List Hole) :
      Step ⟨.dot owner path, outer⟩ (.literal name) ⟨.name owner (path.snoc name), outer⟩
  | leaf {w : Word} {t : Term} (owner : Owner) (path : Path) (outer : List Hole) : Leaf w t →
      Step ⟨.value owner path, outer⟩ w ⟨owner.add path t, outer⟩
  | item {w : Word} {t : Term} (done : List Element) (outer : List Hole) : Leaf w t →
      Step ⟨.elements done, outer⟩ w ⟨.elements ((none, t) :: done), outer⟩
  | openObject {place : Place} {hole : Hole} {outer : List Hole} : Opens place hole outer →
      place.dots + levels outer < maxDepth → Step ⟨place, outer⟩ (.mark .objectOpen) ⟨.fields [], hole :: outer⟩
  | openArray {place : Place} {hole : Hole} {outer : List Hole} : Opens place hole outer →
      place.dots + levels outer < maxDepth → Step ⟨place, outer⟩ (.mark .arrayOpen) ⟨.elements [], hole :: outer⟩
  | closeObject (done : List Field) (hole : Hole) (outer : List Hole) :
      Step ⟨.fields done, hole :: outer⟩ (.mark .objectClose) ⟨hole.fill (.object done.reverse), outer⟩
  | closeArray (done : List Element) (hole : Hole) (outer : List Hole) :
      Step ⟨.elements done, hole :: outer⟩ (.mark .arrayClose) ⟨hole.fill (.array done.reverse), outer⟩
  /-- A lone name in an array was an element. -/
  | settle {done : List Element} {name : String} {outer : List Hole} {w : Word} {s : State} :
      Step ⟨.elements ((none, .text name) :: done), outer⟩ w s →
      Step ⟨.name (.elements done) (.single name), outer⟩ w s

theorem leaf_of_ofText {text : String} {t : Typed} (h : Typed.ofText text = .ok t) : Leaf (.raw text) (.typed t) := by
  unfold Typed.ofText at h
  split at h
  · next s hs => cases h; exact .typed ⟨text, s, hs⟩
  · cases h

namespace State

theorem descend_eq_ok_iff {place : Place} {outer : List Hole} {inner s' : State} :
    descend ⟨place, outer⟩ inner = .ok s' ↔ place.dots + levels outer < maxDepth ∧ inner = s' := by
  rw [descend, depth_eq]
  split <;> simp [refuse, *]

variable {place : Place} {outer : List Hole} {s' : State} {w : Word}

theorem step_of_openObject {hole : Hole} (ho : Opens place hole outer) (h : openObject ⟨place, outer⟩ hole = .ok s') :
    Step ⟨place, outer⟩ (.mark .objectOpen) s' := by
  obtain ⟨hd, rfl⟩ := descend_eq_ok_iff.mp h
  exact .openObject ho hd

theorem step_of_openArray {hole : Hole} (ho : Opens place hole outer) (h : openArray ⟨place, outer⟩ hole = .ok s') :
    Step ⟨place, outer⟩ (.mark .arrayOpen) s' := by
  obtain ⟨hd, rfl⟩ := descend_eq_ok_iff.mp h
  exact .openArray ho hd

theorem step_of_root {done : List Term} (ho : Opens place (.root done) outer) (h : root ⟨place, outer⟩ done w = .ok s') :
    Step ⟨place, outer⟩ w s' := by
  unfold root at h
  split at h
  · exact step_of_openObject ho h
  · exact step_of_openArray ho h
  · cases h

theorem step_of_term {hole : Hole} (ho : Opens place hole outer)
    (hl : ∀ t, Leaf w t → Step ⟨place, outer⟩ w ⟨hole.fill t, outer⟩) (h : term ⟨place, outer⟩ hole w = .ok s') :
    Step ⟨place, outer⟩ w s' := by
  unfold term at h
  split at h
  · cases h; exact hl _ (.text _)
  · split at h
    · next t ht => cases h; exact hl _ (leaf_of_ofText ht)
    · cases h
  · cases h; exact hl _ (.env _)
  · exact step_of_openObject ho h
  · exact step_of_openArray ho h
  · cases h

theorem step_of_element {done : List Element} (h : element ⟨.elements done, outer⟩ done w = .ok s') :
    Step ⟨.elements done, outer⟩ w s' := by
  unfold element at h
  split at h
  · cases h; exact .elementName _ _ _
  · split at h
    · next hole rest ho =>
      obtain rfl : outer = hole :: rest := ho
      cases h; exact .closeArray _ _ _
    · cases h
  · exact step_of_term (.element done outer) (fun t ht => .item done outer ht) h

theorem step_of_field {done : List Field} (h : field ⟨.fields done, outer⟩ done w = .ok s') :
    Step ⟨.fields done, outer⟩ w s' := by
  unfold field at h
  split at h
  · cases h; exact .fieldName _ _ _
  · next hole rest ho =>
    obtain rfl : outer = hole :: rest := ho
    cases h; exact .closeObject _ _ _
  · cases h
  · next ho =>
    obtain rfl : outer = [] := ho
    split at h
    · next hd =>
      obtain rfl : done = [] := by simpa using hd
      exact step_of_root .start h
    · cases h

theorem step_of_afterName {owner : Owner} {path : Path} (h : afterName ⟨.name owner path, outer⟩ owner path w = .ok s') :
    Step ⟨.name owner path, outer⟩ w s' := by
  unfold afterName at h
  split at h
  · cases h; exact .assign _ _ _
  · obtain ⟨hd, rfl⟩ := descend_eq_ok_iff.mp h
    exact .dot _ _ _ hd
  · split at h
    · next done ht =>
      obtain ⟨name, tail⟩ := path
      obtain rfl : tail = [] := ht
      exact .settle (step_of_element h)
    · cases h

theorem step_of_afterDot {owner : Owner} {path : Path} (h : afterDot ⟨.dot owner path, outer⟩ owner path w = .ok s') :
    Step ⟨.dot owner path, outer⟩ w s' := by
  unfold afterDot at h
  split at h
  · cases h; exact .segment _ _ _ _
  · cases h

theorem step_of_step {s : State} (h : s.step w = .ok s') : Step s w s' := by
  obtain ⟨place, outer⟩ := s
  cases place with
  | roots done => exact step_of_root (.root done outer) h
  | fields done => exact step_of_field h
  | elements done => exact step_of_element h
  | name owner path => exact step_of_afterName h
  | dot owner path => exact step_of_afterDot h
  | value owner path => exact step_of_term (.value owner path outer) (fun t ht => .leaf owner path outer ht) h

/-- What every step keeps holds after any words. -/
theorem feed_preserves {motive : State → Prop} (hstep : ∀ {s s' : State} {w : Word}, Step s w s' → motive s → motive s')
    {s s' : State} {ws : List Word} (h : s.feed ws = .ok s') (hs : motive s) : motive s' := by
  induction ws generalizing s with
  | nil => cases h; exact hs
  | cons w ws ih =>
    obtain ⟨t, ht, h⟩ := bind_eq_ok_iff.mp h
    exact ih h (hstep (step_of_step ht) hs)

end State

/-! ## A step adds its word -/

theorem Leaf.words {w : Word} {t : Term} (h : Leaf w t) : t.words = [w] := by
  cases h <;> rfl

theorem Opens.words {place : Place} {hole : Hole} {outer : List Hole} (h : Opens place hole outer) :
    State.words ⟨place, outer⟩ = wordsBefore hole.bracket outer ++ hole.words := by
  cases h <;> rfl

namespace State

@[simp] theorem words_fill (hole : Hole) (t : Term) (outer : List Hole) :
    words ⟨hole.fill t, outer⟩ = wordsBefore hole.bracket outer ++ hole.words ++ t.words := by
  simp [words]

/-- A step puts its word at the end of what was read. -/
theorem words_step {s s' : State} {w : Word} (h : Step s w s') : s'.words = s.words ++ [w] := by
  induction h with
  | fieldName done name outer => simp [words, Place.words, Place.bracket, Owner.bracket, Path.words, Path.single]
  | elementName done name outer => simp [words, Place.words, Place.bracket, Owner.bracket, Path.words, Path.single]
  | assign owner path outer => simp [words, Place.words, Place.bracket, Hole.words]
  | dot owner path outer => simp [words, Place.words, Place.bracket]
  | segment owner path name outer => simp [words, Place.words, Place.bracket, Path.words_snoc]
  | leaf owner path outer ht =>
    rw [(Opens.value owner path outer).words, ← ht.words]
    exact words_fill (.named owner path) _ outer
  | item done outer ht =>
    rw [(Opens.element done outer).words, ← ht.words]
    exact words_fill (.item done) _ outer
  | openObject ho => rw [ho.words]; exact List.append_nil _
  | openArray ho => rw [ho.words]; exact List.append_nil _
  | closeObject done hole outer =>
    rw [words_fill, Term.words_object]
    simp [words, wordsBefore, Place.words, Place.bracket, Owner.words]
  | closeArray done hole outer =>
    rw [words_fill, Term.words_array]
    simp [words, wordsBefore, Place.words, Place.bracket, Owner.words]
  | settle hs ih =>
    rw [ih]
    simp [words, Place.words, Place.bracket, Owner.bracket, Owner.words, Path.words, Path.single, elementsWords_append,
      elementsWords_item, Term.words, Term.derivation, Value.words]

theorem words_feed {s s' : State} {ws : List Word} (h : s.feed ws = .ok s') : s'.words = s.words ++ ws := by
  induction ws generalizing s with
  | nil => cases h; simp
  | cons w ws ih =>
    obtain ⟨t, ht, h⟩ := bind_eq_ok_iff.mp h
    rw [ih h, words_step (step_of_step ht), List.append_assoc]
    rfl

/-! ## Where roots stand -/

end State

/-- The term is an object or an array. -/
def IsBracket (t : Term) : Prop := ∃ r : Root, r.value = t.derivation

theorem isBracket_object (fields : List Field) : IsBracket (.object fields) :=
  ⟨.object (fieldDerivations fields), by rw [Term.derivation]; rfl⟩

theorem isBracket_array (elements : List Element) : IsBracket (.array elements) :=
  ⟨.array (elementDerivations elements), by rw [Term.derivation]; rfl⟩

/-- Nothing is around a root, and the roots before it are brackets. -/
def Rooted : List Hole → Prop
  | [] => True
  | .root done :: outer => outer = [] ∧ ∀ t ∈ done, IsBracket t
  | _ :: outer => Rooted outer

/-- Roots stand at the top; there is one at least, and all are brackets. -/
def State.Sound (s : State) : Prop :=
  Rooted s.outer ∧ ∀ done, s.place = .roots done → s.outer = [] ∧ done ≠ [] ∧ ∀ t ∈ done, IsBracket t

theorem Rooted.tail {hole : Hole} {outer : List Hole} (h : Rooted (hole :: outer)) : Rooted outer := by
  cases hole with
  | root done => obtain ⟨rfl, -⟩ := h; trivial
  | item done => exact h
  | named owner path => exact h

theorem Rooted.fill {hole : Hole} {outer : List Hole} (h : Rooted (hole :: outer)) {t : Term} (ht : IsBracket t) :
    State.Sound ⟨hole.fill t, outer⟩ := by
  refine ⟨h.tail, fun done hd => ?_⟩
  cases hole with
  | root terms =>
    obtain rfl := Place.roots.inj hd
    exact ⟨h.1, List.cons_ne_nil _ _, List.forall_mem_cons.mpr ⟨ht, h.2⟩⟩
  | item done => cases hd
  | named owner path => cases owner <;> cases hd

theorem Opens.rooted {place : Place} {hole : Hole} {outer : List Hole} (h : Opens place hole outer)
    (hs : State.Sound ⟨place, outer⟩) : Rooted (hole :: outer) := by
  cases h with
  | value => exact hs.1
  | element => exact hs.1
  | root done outer =>
    obtain ⟨ho, -, hb⟩ := hs.2 done rfl
    exact ⟨ho, hb⟩
  | start => exact ⟨rfl, by simp⟩

namespace State

theorem sound_start : start.Sound := ⟨trivial, fun _ h => nomatch h⟩

theorem sound_step {s s' : State} {w : Word} (h : Step s w s') (hs : s.Sound) : s'.Sound := by
  induction h with
  | leaf owner path outer ht => exact ⟨hs.1, fun _ h => by cases owner <;> cases h⟩
  | openObject ho => exact ⟨ho.rooted hs, fun _ h => nomatch h⟩
  | openArray ho => exact ⟨ho.rooted hs, fun _ h => nomatch h⟩
  | closeObject done hole outer => exact Rooted.fill hs.1 (isBracket_object _)
  | closeArray done hole outer => exact Rooted.fill hs.1 (isBracket_array _)
  | settle _ ih => exact ih ⟨hs.1, fun _ h => nomatch h⟩
  | _ => exact ⟨hs.1, fun _ h => nomatch h⟩

theorem sound_feed {s s' : State} {ws : List Word} (h : s.feed ws = .ok s') (hs : s.Sound) : s'.Sound :=
  feed_preserves sound_step h hs

/-! ## The end -/

/-- A state that may end has read the words of a derivation. -/
theorem exists_start_of_finish {s : State} {e : Expression} (hs : s.Sound) (h : s.finish = .ok e) :
    ∃ d : Start, d.words = s.words := by
  obtain ⟨place, outer⟩ := s
  cases place with
  | roots done =>
    obtain ⟨ho, hne, hb⟩ := hs.2 done rfl
    obtain rfl : outer = [] := ho
    have hd : ∀ t ∈ done.reverse, IsBracket t := fun t ht => hb t (List.mem_reverse.mp ht)
    obtain ⟨roots, hroots⟩ := Grammar.exists_roots hd
    have hw : Grammar.rootWords roots = done.reverse.flatMap Term.words := by
      have := congrArg (List.flatMap Value.words) hroots
      rwa [List.flatMap_map, List.flatMap_map] at this
    cases roots with
    | nil => simp at hroots; exact absurd hroots hne
    | cons first rest => exact ⟨.brackets first rest, hw⟩
  | fields done =>
    cases outer with
    | nil => exact ⟨.fields (fieldDerivations done.reverse), rfl⟩
    | cons hole outer => cases h
  | elements done => cases h
  | name owner path =>
    obtain ⟨name, tail⟩ := path
    cases owner with
    | fields done => cases h
    | elements done => cases tail <;> cases h
  | dot owner path => cases h
  | value owner path => cases h

end State

end Parser

end ObjectExpr
