/-
  ObjectExpr.Proofs.Variables — what the values of variables can do to the trees of an expression. They
  fill leaves: with the words of a derivation fixed, two environments give trees of one shape, and a leaf
  that differs is the value of a variable that the words name (`Grammar.sameElements_forest`). Values are
  looked up when the words have been read, so which texts are expressions, and which fault the others have,
  does not depend on any of them (`environment_fills_leaves`).
-/

import ObjectExpr.Proofs.Grammar.Acceptance
import ObjectExpr.Proofs.Tree.Shape

namespace ObjectExpr

open ObjectExpr.Tree (SameShape SameFields SameElements)

/-- The names after `^` in a text. -/
def variableNames (input : String) : List String :=
  ((Cursor.ofString input).read.1.filter (·.kind = .env)).map Token.text

theorem mem_variableNames_iff {input name : String} :
    name ∈ variableNames input ↔ .env name ∈ (Cursor.ofString input).read.1.map Token.word := by
  simp only [variableNames, List.mem_map, List.mem_filter, decide_eq_true_eq]
  constructor
  · intro h
    obtain ⟨t, ⟨ht, hk⟩, rfl⟩ := h
    refine ⟨t, ht, ?_⟩
    rw [Token.kind] at hk
    rw [Token.text]
    cases hw : t.word with
    | env name => rfl
    | _ => rw [hw] at hk; cases hk
  · intro h
    obtain ⟨t, ht, hw⟩ := h
    exact ⟨t, ⟨ht, by rw [Token.kind, hw]; rfl⟩, by rw [Token.text, hw]; rfl⟩

/-- Leaves of two environments in one place: the same leaf, or what one variable stands for in each. -/
def SameLeaf (lookup₁ lookup₂ : String → Option String) (names : List String) (s₁ s₂ : Scalar) : Prop :=
  s₁ = s₂ ∨ ∃ name ∈ names, s₁ = Scalar.ofVariable lookup₁ name ∧ s₂ = Scalar.ofVariable lookup₂ name

theorem SameLeaf.eq {lookup₁ lookup₂ : String → Option String} {names : List String} {s₁ s₂ : Scalar}
    (h : SameLeaf lookup₁ lookup₂ names s₁ s₂) (heq : ∀ name ∈ names, lookup₁ name = lookup₂ name) : s₁ = s₂ := by
  rcases h with h | ⟨name, hn, h₁, h₂⟩
  · exact h
  · rw [h₁, h₂, Scalar.ofVariable, Scalar.ofVariable, heq name hn]

namespace Grammar

/-- The variables among the words have these names. -/
def VariablesIn (names : List String) (ws : List Word) : Prop := ∀ name, .env name ∈ ws → name ∈ names

section

variable {names : List String} {lookup₁ lookup₂ : String → Option String}

theorem variablesIn_append_iff {vs ws : List Word} :
    VariablesIn names (vs ++ ws) ↔ VariablesIn names vs ∧ VariablesIn names ws := by
  simp only [VariablesIn, List.mem_append, or_imp, forall_and]

theorem VariablesIn.tail {w : Word} {ws : List Word} (h : VariablesIn names (w :: ws)) : VariablesIn names ws :=
  fun name hn => h name (List.mem_cons_of_mem w hn)

theorem sameShape_rawTree (text : String) :
    SameShape (SameLeaf lookup₁ lookup₂ names) (rawTree text) (rawTree text) := by
  unfold rawTree
  split
  · exact .scalar (.inl rfl)
  · exact .scalar (.inl rfl)

mutual

theorem sameShape_rhs (r : Rhs) (h : VariablesIn names r.words) :
    SameShape (SameLeaf lookup₁ lookup₂ names) (r.tree lookup₁) (r.tree lookup₂) := by
  match r with
  | .assign v =>
    rw [Rhs.words] at h
    rw [Rhs.tree, Rhs.tree]
    exact sameShape_value v h.tail
  | .dot name r =>
    rw [Rhs.words] at h
    rw [Rhs.tree, Rhs.tree]
    exact (sameShape_rhs r h.tail.tail).ofField name

theorem sameShape_value (v : Value) (h : VariablesIn names v.words) :
    SameShape (SameLeaf lookup₁ lookup₂ names) (v.tree lookup₁) (v.tree lookup₂) := by
  match v with
  | .literal text =>
    rw [Value.tree, Value.tree]
    exact .scalar (.inl rfl)
  | .raw text =>
    rw [Value.tree, Value.tree]
    exact sameShape_rawTree text
  | .env name =>
    rw [Value.words] at h
    rw [Value.tree, Value.tree]
    exact .scalar (.inr ⟨name, h name List.mem_cons_self, rfl, rfl⟩)
  | .object fs =>
    rw [Value.words] at h
    rw [Value.tree, Value.tree]
    exact .object ((sameFields_fields fs (variablesIn_append_iff.mp h.tail).1).insertAll .nil)
  | .array es =>
    rw [Value.words] at h
    rw [Value.tree, Value.tree]
    exact .array (sameElements_elements es (variablesIn_append_iff.mp h.tail).1)

theorem sameFields_fields (fs : List (String × Rhs)) (h : VariablesIn names (fieldWords fs)) :
    SameFields (SameLeaf lookup₁ lookup₂ names) (fieldTrees lookup₁ fs) (fieldTrees lookup₂ fs) := by
  match fs with
  | [] =>
    rw [fieldTrees, fieldTrees]
    exact .nil
  | (name, r) :: fs =>
    rw [fieldWords] at h
    obtain ⟨hr, hfs⟩ := variablesIn_append_iff.mp h.tail
    rw [fieldTrees, fieldTrees]
    exact .cons name (sameShape_rhs r hr) (sameFields_fields fs hfs)

theorem sameShape_element (e : Element) (h : VariablesIn names e.words) :
    SameShape (SameLeaf lookup₁ lookup₂ names) (e.tree lookup₁) (e.tree lookup₂) := by
  match e with
  | .value v =>
    rw [Element.words] at h
    rw [Element.tree, Element.tree]
    exact sameShape_value v h
  | .field name r =>
    rw [Element.words] at h
    rw [Element.tree, Element.tree]
    exact (sameShape_rhs r h.tail).ofField name

theorem sameElements_elements (es : List Element) (h : VariablesIn names (elementWords es)) :
    SameElements (SameLeaf lookup₁ lookup₂ names) (elementTrees lookup₁ es) (elementTrees lookup₂ es) := by
  match es with
  | [] =>
    rw [elementTrees, elementTrees]
    exact .nil
  | e :: es =>
    rw [elementWords] at h
    obtain ⟨he, hes⟩ := variablesIn_append_iff.mp h
    rw [elementTrees, elementTrees]
    exact .cons (sameShape_element e he) (sameElements_elements es hes)

end

theorem sameElements_roots (rs : List Root) (h : VariablesIn names (rootWords rs)) :
    SameElements (SameLeaf lookup₁ lookup₂ names) (rs.map fun r => r.value.tree lookup₁)
      (rs.map fun r => r.value.tree lookup₂) := by
  induction rs with
  | nil => exact .nil
  | cons r rs ih =>
    rw [rootWords_cons] at h
    obtain ⟨hr, hrs⟩ := variablesIn_append_iff.mp h
    exact .cons (sameShape_value r.value hr) (ih hrs)

/-- The trees that a derivation means in two environments differ in the leaves of its variables only. -/
theorem sameElements_forest (d : Start) (h : VariablesIn names d.words) :
    SameElements (SameLeaf lookup₁ lookup₂ names) (d.forest lookup₁) (d.forest lookup₂) := by
  cases d with
  | brackets first rest => exact sameElements_roots (first :: rest) h
  | fields fs => exact .cons (.object ((sameFields_fields fs h).insertAll .nil)) .nil

end

end Grammar

theorem sameElements_of_parse (lookup₁ lookup₂ : String → Option String) {input : String} {e : Expression}
    (h : Expression.parse input = .ok e) :
    SameElements (SameLeaf lookup₁ lookup₂ (variableNames input)) (e.forest lookup₁) (e.forest lookup₂) := by
  obtain ⟨tokens, ⟨stop, hl⟩, d, hw, hr⟩ := parse_eq_ok_iff.mp h
  have hnames : Grammar.VariablesIn (variableNames input) d.words := by
    intro name hn
    rw [mem_variableNames_iff, hl, ← hw]
    exact hn
  rw [Grammar.forest_of_start d hr, Grammar.forest_of_start d hr]
  exact Grammar.sameElements_forest d hnames

/-- Two environments accept the same texts, and refuse the others for the same fault. The trees have one
    shape and differ at most in leaves that a variable of the text has filled; they are the same if the
    environments agree on the variables of the text. -/
theorem environment_fills_leaves (input : String) (lookup₁ lookup₂ : String → Option String) :
    (∀ err, parseForest lookup₁ input = .error err ↔ parseForest lookup₂ input = .error err) ∧
    (∀ forest₁, parseForest lookup₁ input = .ok forest₁ → ∃ forest₂, parseForest lookup₂ input = .ok forest₂ ∧
      SameElements (SameLeaf lookup₁ lookup₂ (variableNames input)) forest₁ forest₂) ∧
    ((∀ name ∈ variableNames input, lookup₁ name = lookup₂ name) →
      parseForest lookup₁ input = parseForest lookup₂ input) := by
  unfold parseForest
  cases hp : Expression.parse input with
  | error err => exact ⟨fun _ => Iff.rfl, nofun, fun _ => rfl⟩
  | ok e =>
    have hshape := sameElements_of_parse lookup₁ lookup₂ hp
    refine ⟨fun err => ⟨nofun, nofun⟩, ?_, ?_⟩
    · intro forest₁ h₁
      obtain rfl := Except.ok.inj h₁
      exact ⟨e.forest lookup₂, rfl, hshape⟩
    · intro hagree
      have heq : e.forest lookup₁ = e.forest lookup₂ := hshape.eq fun _ _ hs => hs.eq hagree
      exact congrArg Except.ok heq

/-- A value that reads like an object and a stray bracket is one string, in one leaf. -/
theorem environment_fills_leaves_with_marks :
    let unset : String → Option String := fun _ => none
    let marks : String → Option String := fun _ => some "\x7bb=1\x7d ]"
    variableNames "a=^X" = ["X"] ∧ parseForest marks "a=^X" = .ok [.ofField "a" (.scalar (.string "\x7bb=1\x7d ]"))] ∧
      ∃ forest, parseForest marks "a=^X" = .ok forest ∧
        SameElements (SameLeaf unset marks (variableNames "a=^X")) [.ofField "a" (.scalar (.string ""))] forest := by
  intro unset marks
  have hunset : parseForest unset "a=^X" = .ok [.ofField "a" (.scalar (.string ""))] := by with_unfolding_all rfl
  refine ⟨by decide +kernel, by with_unfolding_all rfl, ?_⟩
  exact (environment_fills_leaves "a=^X" unset marks).2.1 _ hunset

end ObjectExpr
