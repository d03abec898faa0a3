/-
  ObjectExpr.Proofs.Grammar.Reading — what the parser makes of the words of a derivation.

  `Start.read` goes down a derivation as a recursive descent would, with the number of levels that are
  open, and refuses what lies too deep and the raw literals that stand for nothing. The parser takes a
  word at a time and keeps its levels in its state; on the words of a derivation it comes to the same
  result, refusals included (`feed_start`). What `read` accepts is what `depth` and `Resolves` say
  (`accepted_start`), and what it builds has the meaning of the derivation (`forest_of_start`).
-/

import ObjectExpr.Expression.Build
import ObjectExpr.Proofs.Grammar.Derivation

namespace ObjectExpr

section

variable {ε α β : Type} {x : Except ε α} {b : β}

theorem map_eq_ok_iff {f : α → β} : f <$> x = .ok b ↔ ∃ a, x = .ok a ∧ f a = b := by
  cases x <;> simp [Functor.map, Except.map]

theorem bind_eq_ok_iff {f : α → Except ε β} : x >>= f = .ok b ↔ ∃ a, x = .ok a ∧ f a = .ok b := by
  cases x <;> simp [bind, Except.bind]

end

namespace Parser

/-- The levels that the brackets around a place have open. -/
def levels (outer : List Hole) : Nat := outer.foldr (fun hole n => hole.dots + 1 + n) 0

@[simp] theorem levels_nil : levels [] = 0 := rfl

@[simp] theorem levels_cons (hole : Hole) (outer : List Hole) :
    levels (hole :: outer) = hole.dots + 1 + levels outer := rfl

namespace State

theorem depth_eq (place : Place) (outer : List Hole) : depth ⟨place, outer⟩ = place.dots + levels outer := by
  show outer.foldr _ place.dots = _
  induction outer with
  | nil => rfl
  | cons hole outer ih => rw [List.foldr_cons, ih, levels_cons]; omega

/-! ## Many words -/

def feed (s : State) (ws : List Word) : Except Refusal State := ws.foldlM step s

@[simp] theorem feed_nil (s : State) : s.feed [] = .ok s := rfl

theorem feed_cons (s : State) (w : Word) (ws : List Word) : s.feed (w :: ws) = s.step w >>= fun s => s.feed ws := rfl

theorem feed_append (s : State) (vs ws : List Word) : s.feed (vs ++ ws) = s.feed vs >>= fun s => s.feed ws :=
  List.foldlM_append

theorem feed_singleton (s : State) (w : Word) : s.feed [w] = s.step w := by
  rw [feed_cons]
  cases s.step w <;> rfl

end State

end Parser

namespace Grammar

open ObjectExpr.Parser

/-! ## Down a derivation -/

def deeper {α : Type} (level : Nat) (inner : Except Refusal α) : Except Refusal α :=
  if level < maxDepth then inner else refuse .tooDeep

def readRaw (text : String) : Except Refusal Term :=
  match Typed.ofText text with
  | .ok t => .ok (.typed t)
  | .error e => refuse (.invalidRaw e)

mutual

/-- The further names of a field and its term. -/
def Rhs.read (level : Nat) : Rhs → Except Refusal (List String × Term)
  | .assign v => (fun t => ([], t)) <$> v.read level
  | .dot name r => deeper level ((fun q => (name :: q.1, q.2)) <$> r.read (level + 1))

def Value.read (level : Nat) : Value → Except Refusal Term
  | .literal text => .ok (.text text)
  | .raw text => readRaw text
  | .env name => .ok (.env name)
  | .object fs => deeper level (Term.object <$> readFields (level + 1) fs)
  | .array es => deeper level (Term.array <$> readElements (level + 1) es)

def readFields (level : Nat) : List (String × Rhs) → Except Refusal (List (Path × Term))
  | [] => .ok []
  | (name, r) :: fs =>
    r.read level >>= fun q => (fun fields => (⟨name, q.1⟩, q.2) :: fields) <$> readFields level fs

def Element.read (level : Nat) : Element → Except Refusal (Option Path × Term)
  | .value v => (fun t => (none, t)) <$> v.read level
  | .field name r => (fun q => (some ⟨name, q.1⟩, q.2)) <$> r.read level

def readElements (level : Nat) : List Element → Except Refusal (List (Option Path × Term))
  | [] => .ok []
  | e :: es => e.read level >>= fun d => (fun elements => d :: elements) <$> readElements level es

end

def readRoots : List Root → Except Refusal (List Term)
  | [] => .ok []
  | r :: rs => r.value.read 0 >>= fun t => (fun terms => t :: terms) <$> readRoots rs

def Start.read : Start → Except Refusal Expression
  | brackets first rest => Expression.bracketed <$> readRoots (first :: rest)
  | fields fs => Expression.flat <$> readFields 0 fs

/-! ## The parser comes to the same -/

/-- An opening bracket goes one level down, to a term for `hole`. -/
structure Awaits (s : State) (hole : Hole) (outer : List Hole) : Prop where
  object : s.step (.mark .objectOpen) = deeper (hole.dots + levels outer) (.ok ⟨.fields [], hole :: outer⟩)
  array : s.step (.mark .arrayOpen) = deeper (hole.dots + levels outer) (.ok ⟨.elements [], hole :: outer⟩)

theorem awaits_value (owner : Owner) (path : Path) (outer : List Hole) :
    Awaits ⟨.value owner path, outer⟩ (.named owner path) outer := by
  constructor
  · show State.descend _ _ = _
    rw [State.descend, State.depth_eq]; rfl
  · show State.descend _ _ = _
    rw [State.descend, State.depth_eq]; rfl

theorem awaits_element (done : List (Option Path × Term)) (outer : List Hole) :
    Awaits ⟨.elements done, outer⟩ (.item done) outer := by
  constructor
  · show State.descend _ _ = _
    rw [State.descend, State.depth_eq]; rfl
  · show State.descend _ _ = _
    rw [State.descend, State.depth_eq]; rfl

theorem awaits_root (done : List Term) : Awaits ⟨.roots done, []⟩ (.root done) [] := ⟨rfl, rfl⟩

/-- The words that make a name before them the name of a field. -/
def isFieldMark : Word → Bool
  | .mark .assign | .mark .dot => true
  | _ => false

/-- After a lone name in an array the parser is where it would be after an element, except for what
    goes on with the name. -/
def Settles (s t : State) : Prop := ∀ w, isFieldMark w = false → s.step w = t.step w

theorem settles_name (done : List (Option Path × Term)) (name : String) (outer : List Hole) :
    Settles ⟨.name (.elements done) (.single name), outer⟩ ⟨.elements ((none, .text name) :: done), outer⟩ := by
  intro w hw
  cases w with
  | mark m => cases m <;> first | rfl | cases hw
  | _ => rfl

/-- Results that agree on refusals, and that settle where they are states. -/
inductive SettlesAs : Except Refusal State → Except Refusal State → Prop
  | refused (r : Refusal) : SettlesAs (.error r) (.error r)
  | settled {s t : State} : Settles s t → SettlesAs (.ok s) (.ok t)

theorem SettlesAs.of_eq {x y : Except Refusal State} (h : x = y) : SettlesAs x y := by
  subst h
  cases x with
  | error r => exact .refused r
  | ok s => exact .settled fun _ _ => rfl

theorem Awaits.of_settles {s t : State} {hole : Hole} {outer : List Hole} (h : Settles s t) (ht : Awaits t hole outer) :
    Awaits s hole outer :=
  ⟨(h _ rfl).trans ht.object, (h _ rfl).trans ht.array⟩

/-- What it means that fields are read as `readFields` says. -/
def FeedFields (fs : List (String × Rhs)) : Prop :=
  ∀ done outer, State.feed ⟨.fields done, outer⟩ (fieldWords fs) =
    (fun gs => ⟨.fields (gs.reverse ++ done), outer⟩) <$> readFields (levels outer) fs

def FeedElement (e : Element) : Prop :=
  ∀ s done outer, Settles s ⟨.elements done, outer⟩ →
    SettlesAs (s.feed e.words) ((fun d => ⟨.elements (d :: done), outer⟩) <$> e.read (levels outer))

def FeedElements (es : List Element) : Prop :=
  ∀ s done hole outer, Settles s ⟨.elements done, hole :: outer⟩ →
    s.feed (elementWords es ++ [.mark .arrayClose]) =
      (fun ds => ⟨hole.fill (.array (done.reverse ++ ds)), outer⟩) <$> readElements (levels (hole :: outer)) es

theorem feed_object {fs : List (String × Rhs)} (hf : FeedFields fs) {s : State} {hole : Hole} {outer : List Hole}
    (h : Awaits s hole outer) :
    s.feed (Value.object fs).words =
      (fun t => ⟨hole.fill t, outer⟩) <$> (Value.object fs).read (hole.dots + levels outer) := by
  simp only [Value.words, Value.read, State.feed_cons, h.object, deeper]
  split
  · show State.feed ⟨.fields [], hole :: outer⟩ _ = _
    rw [State.feed_append, hf, levels_cons, Nat.add_right_comm]
    cases readFields (hole.dots + levels outer + 1) fs with
    | error e => rfl
    | ok gs =>
      show Except.ok (State.mk (hole.fill (.object (gs.reverse ++ []).reverse)) outer) = .ok ⟨hole.fill (.object gs), outer⟩
      simp
  · rfl

theorem feed_array {es : List Element} (he : FeedElements es) {s : State} {hole : Hole} {outer : List Hole}
    (h : Awaits s hole outer) :
    s.feed (Value.array es).words =
      (fun t => ⟨hole.fill t, outer⟩) <$> (Value.array es).read (hole.dots + levels outer) := by
  simp only [Value.words, Value.read, State.feed_cons, h.array, deeper]
  split
  · show State.feed ⟨.elements [], hole :: outer⟩ _ = _
    rw [he _ [] hole outer (fun _ _ => rfl), levels_cons, Nat.add_right_comm]
    cases readElements (hole.dots + levels outer + 1) es <;> rfl
  · rfl

theorem term_raw (s : State) (hole : Hole) (text : String) :
    s.term hole (.raw text) = (fun t => ⟨hole.fill t, s.outer⟩) <$> readRaw text := by
  simp only [State.term, readRaw]
  cases Typed.ofText text <;> rfl

mutual

theorem feed_rhs (r : Rhs) (owner : Owner) (path : Path) (outer : List Hole) :
    State.feed ⟨.name owner path, outer⟩ r.words =
      (fun q => ⟨owner.add ⟨path.head, path.tail ++ q.1⟩ q.2, outer⟩) <$> r.read (path.tail.length + levels outer) := by
  match r with
  | .assign v =>
    show State.feed ⟨.value owner path, outer⟩ v.words = _
    rw [feed_value, Rhs.read]
    cases v.read (path.tail.length + levels outer) with
    | error e => rfl
    | ok t => simp [Functor.map, Except.map]
  | .dot name r =>
    have hs : State.step ⟨.name owner path, outer⟩ (.mark .dot) =
        deeper (path.tail.length + levels outer) (.ok ⟨.dot owner path, outer⟩) := by
      show State.descend _ _ = _
      rw [State.descend, State.depth_eq]; rfl
    simp only [Rhs.words, Rhs.read, State.feed_cons, hs, deeper]
    split
    · show State.feed ⟨.name owner (path.snoc name), outer⟩ r.words = _
      rw [feed_rhs]
      have hl : (path.snoc name).tail.length + levels outer = path.tail.length + levels outer + 1 := by
        simp [Path.snoc]; omega
      rw [hl]
      cases r.read (path.tail.length + levels outer + 1) with
      | error e => rfl
      | ok q => simp [Functor.map, Except.map, Path.snoc]
    · rfl

theorem feed_value (v : Value) (owner : Owner) (path : Path) (outer : List Hole) :
    State.feed ⟨.value owner path, outer⟩ v.words =
      (fun t => ⟨owner.add path t, outer⟩) <$> v.read (path.tail.length + levels outer) := by
  match v with
  | .literal text => rfl
  | .raw text => exact (State.feed_singleton _ _).trans (term_raw _ (.named owner path) text)
  | .env name => rfl
  | .object fs => exact feed_object (feed_fields fs) (awaits_value owner path outer)
  | .array es => exact feed_array (feed_elements es) (awaits_value owner path outer)

theorem feed_fields (fs : List (String × Rhs)) : FeedFields fs := by
  intro done outer
  match fs with
  | [] => rfl
  | (name, r) :: fs =>
    show State.feed ⟨.name (.fields done) (.single name), outer⟩ (r.words ++ fieldWords fs) = _
    rw [State.feed_append, feed_rhs, readFields]
    simp only [Path.single, List.length_nil, Nat.zero_add]
    cases r.read (levels outer) with
    | error e => rfl
    | ok q =>
      show State.feed ⟨.fields ((⟨name, q.1⟩, q.2) :: done), outer⟩ (fieldWords fs) = _
      rw [feed_fields fs]
      cases readFields (levels outer) fs <;> simp [Functor.map, Except.map, bind, Except.bind]

theorem feed_element (e : Element) : FeedElement e := by
  intro s done outer hs
  have hw : ∀ w, isFieldMark w = false → s.feed [w] = State.step ⟨.elements done, outer⟩ w := by
    intro w hw
    rw [State.feed_singleton, hs w hw]
  match e with
  | .value (.literal text) =>
    -- only a name so far: the word behind it tells that it was a value
    show SettlesAs (s.feed [.literal text]) _
    rw [hw _ rfl]
    exact .settled (settles_name done text outer)
  | .value (.raw text) =>
    refine .of_eq ((hw _ rfl).trans ((term_raw _ (.item done) text).trans ?_))
    simp [Element.read, Value.read, Hole.fill]
  | .value (.env name) => exact .of_eq (hw _ rfl)
  | .value (.object fs) =>
    refine .of_eq ((feed_object (feed_fields fs) (.of_settles hs (awaits_element done outer))).trans ?_)
    simp [Element.read, Hole.dots, Hole.fill]
  | .value (.array es) =>
    refine .of_eq ((feed_array (feed_elements es) (.of_settles hs (awaits_element done outer))).trans ?_)
    simp [Element.read, Hole.dots, Hole.fill]
  | .field name r =>
    refine .of_eq ?_
    rw [Element.words, State.feed_cons, hs _ rfl]
    show State.feed ⟨.name (.elements done) (.single name), outer⟩ r.words = _
    rw [feed_rhs, Element.read]
    simp [Path.single, Owner.add]

theorem feed_elements (es : List Element) : FeedElements es := by
  intro s done hole outer hs
  match es with
  | [] =>
    show s.feed [.mark .arrayClose] = _
    rw [State.feed_singleton, hs _ rfl, readElements]
    show Except.ok (State.mk (hole.fill (.array done.reverse)) outer) = .ok ⟨hole.fill (.array (done.reverse ++ [])), outer⟩
    rw [List.append_nil]
  | e :: es =>
    rw [elementWords, List.append_assoc, State.feed_append, readElements]
    have he := feed_element e s done (hole :: outer) hs
    cases hr : e.read (levels (hole :: outer)) with
    | error r =>
      rw [hr] at he
      cases hx : s.feed e.words with
      | error q => rw [hx] at he; cases he; rfl
      | ok s' => rw [hx] at he; cases he
    | ok d =>
      rw [hr] at he
      cases hx : s.feed e.words with
      | error q => rw [hx] at he; cases he
      | ok s' =>
        rw [hx] at he
        cases he with
        | settled hs' =>
          show s'.feed _ = _
          rw [feed_elements es s' (d :: done) hole outer hs']
          simp [bind, Except.bind]

end

theorem feed_root (r : Root) {s : State} {done : List Term} (h : Awaits s (.root done) []) :
    s.feed r.value.words = (fun t => ⟨.roots (t :: done), []⟩) <$> r.value.read 0 := by
  cases r with
  | object fs => exact feed_object (feed_fields fs) h
  | array es => exact feed_array (feed_elements es) h

theorem feed_roots (rs : List Root) (done : List Term) :
    State.feed ⟨.roots done, []⟩ (rootWords rs) = (fun ts => ⟨.roots (ts.reverse ++ done), []⟩) <$> readRoots rs := by
  induction rs generalizing done with
  | nil => rfl
  | cons r rs ih =>
    rw [rootWords_cons, State.feed_append, feed_root r (awaits_root done), readRoots]
    cases r.value.read 0 with
    | error e => rfl
    | ok t =>
      show State.feed ⟨.roots (t :: done), []⟩ (rootWords rs) = _
      rw [ih]
      simp [bind, Except.bind]

end Grammar

/-- The state in which nothing of an expression is left to read. -/
def Expression.state : Expression → Parser.State
  | flat fields => ⟨.fields fields.reverse, []⟩
  | bracketed roots => ⟨.roots roots.reverse, []⟩

@[simp] theorem Expression.finish_state (e : Expression) : e.state.finish = .ok e := by
  cases e <;> simp [state, Parser.State.finish]

namespace Grammar

open ObjectExpr.Parser

/-- The parser reads the words of a derivation as a descent into the derivation would. -/
theorem feed_start (d : Start) : State.start.feed d.words = Expression.state <$> d.read := by
  cases d with
  | fields fs =>
    show State.feed ⟨.fields [], []⟩ (fieldWords fs) = _
    rw [feed_fields fs, Start.read]
    simp [Expression.state]
  | brackets first rest =>
    have h : Awaits State.start (.root []) [] := ⟨rfl, rfl⟩
    rw [Start.words, rootWords_cons, State.feed_append, feed_root first h, Start.read, readRoots]
    cases first.value.read 0 with
    | error e => rfl
    | ok t =>
      show State.feed ⟨.roots [t], []⟩ (rootWords rest) = _
      rw [feed_roots]
      cases readRoots rest <;> simp [bind, Except.bind, Functor.map, Except.map, Expression.state]

/-! ## What is read -/

theorem deeper_eq_ok_iff {α : Type} {level : Nat} {x : Except Refusal α} {a : α} :
    deeper level x = .ok a ↔ level < maxDepth ∧ x = .ok a := by
  unfold deeper
  split
  · simp [*]
  · simp [*, refuse]

theorem readRaw_eq_ok_iff {text : String} {t : Term} :
    readRaw text = .ok t ↔ ∃ s, ∃ h : Scalar.ofRaw text = .ok s, t = .typed ⟨text, s, h⟩ := by
  unfold readRaw Typed.ofText
  constructor
  · intro h
    split at h
    · next u hu =>
      split at hu
      · next s hs => cases hu; cases h; exact ⟨s, hs, rfl⟩
      · cases hu
    · cases h
  · rintro ⟨s, hs, rfl⟩
    split
    · next u hu =>
      split at hu
      · next r hr => cases hu; obtain rfl := Except.ok.inj (hs.symm.trans hr); rfl
      · cases hu
    · next e he =>
      split at he
      · cases he
      · next hr => cases hs.symm.trans hr

/-- Something is read, and nothing is refused. -/
def Accepted {α : Type} (x : Except Refusal α) : Prop := ∃ a, x = .ok a

section

variable {α β γ : Type} {x : Except Refusal α} {y : Except Refusal β}

@[simp] theorem accepted_ok (a : α) : Accepted (.ok a : Except Refusal α) := ⟨a, rfl⟩

@[simp] theorem accepted_map {f : α → β} : Accepted (f <$> x) ↔ Accepted x := by
  cases x <;> simp [Accepted, Functor.map, Except.map]

@[simp] theorem accepted_bind_map {f : α → β → γ} : Accepted (x >>= fun a => f a <$> y) ↔ Accepted x ∧ Accepted y := by
  cases x <;> cases y <;> simp [Accepted, Functor.map, Except.map, bind, Except.bind]

@[simp] theorem accepted_deeper {level : Nat} : Accepted (deeper level x) ↔ level < maxDepth ∧ Accepted x := by
  simp [Accepted, deeper_eq_ok_iff]

@[simp] theorem accepted_readRaw {text : String} : Accepted (readRaw text) ↔ ∃ s, Scalar.ofRaw text = .ok s := by
  constructor
  · rintro ⟨t, ht⟩
    obtain ⟨s, hs, -⟩ := readRaw_eq_ok_iff.mp ht
    exact ⟨s, hs⟩
  · rintro ⟨s, hs⟩
    exact ⟨_, readRaw_eq_ok_iff.mpr ⟨s, hs, rfl⟩⟩

end

/-- One level down, what is within the limit stays within it. -/
theorem descends {level depth : Nat} {p q : Prop}
    (ih : level < maxDepth → (p ↔ q ∧ level + 1 + depth ≤ maxDepth)) :
    level < maxDepth ∧ p ↔ q ∧ level + (depth + 1) ≤ maxDepth := by
  constructor
  · rintro ⟨hl, hp⟩
    obtain ⟨hq, hd⟩ := (ih hl).mp hp
    exact ⟨hq, by omega⟩
  · rintro ⟨hq, hd⟩
    have hl : level < maxDepth := by omega
    exact ⟨hl, (ih hl).mpr ⟨hq, by omega⟩⟩

mutual

theorem accepted_rhs (r : Rhs) {level : Nat} (hl : level ≤ maxDepth) :
    Accepted (r.read level) ↔ Resolves r.words ∧ level + r.depth ≤ maxDepth := by
  match r with
  | .assign v => simp [Rhs.read, Rhs.words, Rhs.depth, accepted_value v hl]
  | .dot name r =>
    simp only [Rhs.read, accepted_deeper, accepted_map]
    refine (descends fun h => accepted_rhs r h).trans ?_
    simp [Rhs.words, Rhs.depth]

theorem accepted_value (v : Value) {level : Nat} (hl : level ≤ maxDepth) :
    Accepted (v.read level) ↔ Resolves v.words ∧ level + v.depth ≤ maxDepth := by
  match v with
  | .literal text => simpa [Value.read, Value.words, Value.depth] using hl
  | .raw text => simp [Value.read, Value.words, Value.depth, hl]
  | .env name => simpa [Value.read, Value.words, Value.depth] using hl
  | .object fs =>
    simp only [Value.read, accepted_deeper, accepted_map]
    refine (descends fun h => accepted_fields fs h).trans ?_
    simp [Value.words, Value.depth]
  | .array es =>
    simp only [Value.read, accepted_deeper, accepted_map]
    refine (descends fun h => accepted_elements es h).trans ?_
    simp [Value.words, Value.depth]

theorem accepted_fields (fs : List (String × Rhs)) {level : Nat} (hl : level ≤ maxDepth) :
    Accepted (readFields level fs) ↔ Resolves (fieldWords fs) ∧ level + fieldDepth fs ≤ maxDepth := by
  match fs with
  | [] => simpa [readFields, fieldWords, fieldDepth] using hl
  | (name, r) :: fs =>
    simp only [readFields, accepted_bind_map, accepted_rhs r hl, accepted_fields fs hl, fieldWords, fieldDepth,
      resolves_cons, resolves_append]
    grind

theorem accepted_element (e : Element) {level : Nat} (hl : level ≤ maxDepth) :
    Accepted (e.read level) ↔ Resolves e.words ∧ level + e.depth ≤ maxDepth := by
  match e with
  | .value v => simp [Element.read, Element.words, Element.depth, accepted_value v hl]
  | .field name r => simp [Element.read, Element.words, Element.depth, accepted_rhs r hl]

theorem accepted_elements (es : List Element) {level : Nat} (hl : level ≤ maxDepth) :
    Accepted (readElements level es) ↔ Resolves (elementWords es) ∧ level + elementDepth es ≤ maxDepth := by
  match es with
  | [] => simpa [readElements, elementWords, elementDepth] using hl
  | e :: es =>
    simp only [readElements, accepted_bind_map, accepted_element e hl, accepted_elements es hl, elementWords,
      elementDepth, resolves_append]
    grind

end

theorem accepted_roots (rs : List Root) : Accepted (readRoots rs) ↔ Resolves (rootWords rs) ∧ rootDepth rs ≤ maxDepth := by
  induction rs with
  | nil => simp [readRoots, rootWords, rootDepth]
  | cons r rs ih =>
    rw [readRoots, accepted_bind_map, accepted_value r.value (Nat.zero_le _), ih, rootWords_cons, resolves_append]
    simp only [rootDepth, List.foldr_cons]
    grind

/-- A derivation is read if its raw literals stand for something and it goes no deeper than the limit. -/
theorem accepted_start (d : Start) : Accepted d.read ↔ Resolves d.words ∧ d.depth ≤ maxDepth := by
  cases d with
  | brackets first rest => exact accepted_map.trans (accepted_roots (first :: rest))
  | fields fs => simpa [Start.read, Start.words, Start.depth] using accepted_fields fs (Nat.zero_le _)

/-! ## What is built -/

section

variable {lookup : String → Option String}

theorem tree_of_readRaw {text : String} {t : Term} (h : readRaw text = .ok t) : t.tree lookup = rawTree text := by
  obtain ⟨s, hs, rfl⟩ := readRaw_eq_ok_iff.mp h
  simp [Term.tree, rawTree, hs]

mutual

theorem tree_of_rhs (r : Rhs) {level : Nat} {q : List String × Term} (h : r.read level = .ok q) :
    Tree.nest q.1 (q.2.tree lookup) = r.tree lookup := by
  match r with
  | .assign v =>
    obtain ⟨t, ht, rfl⟩ := map_eq_ok_iff.mp h
    exact tree_of_value v ht
  | .dot name r =>
    obtain ⟨p, hp, rfl⟩ := map_eq_ok_iff.mp (deeper_eq_ok_iff.mp h).2
    simp only [Tree.nest, Rhs.tree, tree_of_rhs r hp]

theorem tree_of_value (v : Value) {level : Nat} {t : Term} (h : v.read level = .ok t) :
    t.tree lookup = v.tree lookup := by
  match v with
  | .literal text => cases h; rfl
  | .raw text => exact tree_of_readRaw h
  | .env name => cases h; rfl
  | .object fs =>
    obtain ⟨gs, hg, rfl⟩ := map_eq_ok_iff.mp (deeper_eq_ok_iff.mp h).2
    simp only [Term.tree, Value.tree, trees_of_fields fs hg]
  | .array es =>
    obtain ⟨ds, hd, rfl⟩ := map_eq_ok_iff.mp (deeper_eq_ok_iff.mp h).2
    simp only [Term.tree, Value.tree, trees_of_elements es hd]

theorem trees_of_fields (fs : List (String × Rhs)) {level : Nat} {gs : List (Path × Term)}
    (h : readFields level fs = .ok gs) : ObjectExpr.fieldTrees lookup gs = fieldTrees lookup fs := by
  match fs with
  | [] => cases h; rfl
  | (name, r) :: fs =>
    obtain ⟨q, hq, h⟩ := bind_eq_ok_iff.mp h
    obtain ⟨gs, hg, rfl⟩ := map_eq_ok_iff.mp h
    simp only [ObjectExpr.fieldTrees, fieldTrees, tree_of_rhs r hq, trees_of_fields fs hg]

theorem tree_of_element (e : Element) {level : Nat} {d : Option Path × Term} (h : e.read level = .ok d) :
    ObjectExpr.elementTrees lookup [d] = [e.tree lookup] := by
  match e with
  | .value v =>
    obtain ⟨t, ht, rfl⟩ := map_eq_ok_iff.mp h
    simp only [ObjectExpr.elementTrees, Element.tree, tree_of_value v ht]
  | .field name r =>
    obtain ⟨q, hq, rfl⟩ := map_eq_ok_iff.mp h
    simp only [ObjectExpr.elementTrees, Element.tree, Path.names, Tree.nest, tree_of_rhs r hq]

theorem trees_of_elements (es : List Element) {level : Nat} {ds : List (Option Path × Term)}
    (h : readElements level es = .ok ds) : ObjectExpr.elementTrees lookup ds = elementTrees lookup es := by
  match es with
  | [] => cases h; rfl
  | e :: es =>
    obtain ⟨d, hd, h⟩ := bind_eq_ok_iff.mp h
    obtain ⟨ds, he, rfl⟩ := map_eq_ok_iff.mp h
    rw [elementTrees_cons, tree_of_element e hd, trees_of_elements es he, elementTrees]
    rfl

end

theorem trees_of_roots (rs : List Root) {ts : List Term} (h : readRoots rs = .ok ts) :
    ts.map (fun t => t.tree lookup) = rs.map fun r => r.value.tree lookup := by
  induction rs generalizing ts with
  | nil => cases h; rfl
  | cons r rs ih =>
    obtain ⟨t, ht, h⟩ := bind_eq_ok_iff.mp h
    obtain ⟨ts, hts, rfl⟩ := map_eq_ok_iff.mp h
    rw [List.map_cons, List.map_cons, ih hts, tree_of_value r.value ht]

/-- What is read off a derivation has its meaning. -/
theorem forest_of_start (d : Start) {e : Expression} (h : d.read = .ok e) : e.forest lookup = d.forest lookup := by
  cases d with
  | brackets first rest =>
    obtain ⟨ts, hts, rfl⟩ := map_eq_ok_iff.mp h
    exact trees_of_roots (first :: rest) hts
  | fields fs =>
    obtain ⟨gs, hg, rfl⟩ := map_eq_ok_iff.mp h
    simp only [Expression.forest, Term.tree, Start.forest, trees_of_fields fs hg]

end

end Grammar

end ObjectExpr
