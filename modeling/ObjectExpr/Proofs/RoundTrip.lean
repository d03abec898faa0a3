/-
  ObjectExpr.Proofs.RoundTrip — trees written as text and read back. In its canonical text, names and
  strings stand between quotes, all other leaves behind a `:`, and one blank between each two tokens.
  A float is written with any text that stands for it; `Written` is a tree with a choice of these.

  The tokens of the text are the lexemes that were written, whatever the strings hold (`whole_lexemes`),
  their words derive from the grammar without a dot and without a field in an array (`words_value`), and
  this derivation means the tree again if no object has a name twice (`tree_value`). So a tree without
  a quote in its strings and names, and within the limit of levels, is what its text is read as
  (`parseForest_canonicalText`).
-/

import ObjectExpr.Proofs.Grammar.Words
import ObjectExpr.Proofs.Lexer.RawText
import ObjectExpr.Proofs.Lexer.Spaced
import ObjectExpr.Proofs.Tree.Height

namespace ObjectExpr

open Grammar (Resolves Rhs Root Start)

namespace Tree

/-- No string and no name in the tree has a quote. -/
inductive Quotable : Tree → Prop
  | scalar {s : Scalar} (h : ∀ text, s = .string text → '"' ∉ text.toList) : Quotable (.scalar s)
  | object {fs : List (String × Tree)} (hn : ∀ f ∈ fs, '"' ∉ f.1.toList) (hf : ∀ f ∈ fs, f.2.Quotable) :
      Quotable (.object fs)
  | array {xs : List Tree} (hx : ∀ x ∈ xs, x.Quotable) : Quotable (.array xs)

theorem quotable_scalar_iff {s : Scalar} : (Tree.scalar s).Quotable ↔ ∀ text, s = .string text → '"' ∉ text.toList :=
  ⟨fun | .scalar h => h, .scalar⟩

theorem quotable_object_iff {fs : List (String × Tree)} :
    (Tree.object fs).Quotable ↔ (∀ f ∈ fs, '"' ∉ f.1.toList) ∧ ∀ f ∈ fs, f.2.Quotable :=
  ⟨fun | .object hn hf => ⟨hn, hf⟩, fun h => .object h.1 h.2⟩

theorem quotable_array_iff {xs : List Tree} : (Tree.array xs).Quotable ↔ ∀ x ∈ xs, x.Quotable :=
  ⟨fun | .array hx => hx, .array⟩

end Tree

/-! ## Trees as they are written -/

/-- A leaf that is written behind a `:`. -/
inductive Unquoted
  | null
  | boolean (b : Bool)
  | integer (n : Int64)
  | float (x : Number.Binary64) (text : String) (h : Scalar.ofRaw text = .ok (.float x))

namespace Unquoted

def scalar : Unquoted → Scalar
  | null => .null
  | boolean b => .boolean b
  | integer n => .integer n
  | float x _ _ => .float x

def text : Unquoted → String
  | null => "null"
  | boolean true => "true"
  | boolean false => "false"
  | integer n => String.ofList (Number.integerText n.toInt)
  | float _ text _ => text

theorem ofRaw_text (u : Unquoted) : Scalar.ofRaw u.text = .ok u.scalar := by
  cases u with
  | null => rfl
  | boolean b => cases b <;> rfl
  | integer n => exact Scalar.ofRaw_integerText n
  | float x text h => exact h

end Unquoted

/-- A tree as it is written: one constructor for each way to write it. -/
inductive Written
  | unquoted (u : Unquoted)
  | string (s : String)
  | object (fields : List (String × Written))
  | array (elements : List Written)

namespace Written

mutual

def tree : Written → Tree
  | unquoted u => .scalar u.scalar
  | string s => .scalar (.string s)
  | object fs => .object (fieldTrees fs)
  | array ws => .array (elementTrees ws)

def fieldTrees : List (String × Written) → List (String × Tree)
  | [] => []
  | (name, w) :: fs => (name, w.tree) :: fieldTrees fs

def elementTrees : List Written → List Tree
  | [] => []
  | w :: ws => w.tree :: elementTrees ws

end

mutual

def lexemes : Written → List Lexeme
  | unquoted u => [.raw u.text.toList]
  | string s => [.quoted s.toList]
  | object fs => .mark .objectOpen :: (fieldLexemes fs ++ [.mark .objectClose])
  | array ws => .mark .arrayOpen :: (elementLexemes ws ++ [.mark .arrayClose])

def fieldLexemes : List (String × Written) → List Lexeme
  | [] => []
  | (name, w) :: fs => .quoted name.toList :: .mark .assign :: (w.lexemes ++ fieldLexemes fs)

def elementLexemes : List Written → List Lexeme
  | [] => []
  | w :: ws => w.lexemes ++ elementLexemes ws

end

end Written

/-- The text of trees one after another. -/
def canonicalText (roots : List Written) : String := String.ofList (spaced (roots.flatMap Written.lexemes))

/-! ## The tokens -/

namespace Written

mutual

/-- Between quotes anything but a quote is read as it is. -/
theorem whole_lexemes (w : Written) (h : w.tree.Quotable) : ∀ l ∈ w.lexemes, l.Whole := by
  match w, h with
  | unquoted u, _ =>
    rw [lexemes, List.forall_mem_singleton]
    exact Lexeme.whole_raw (Scalar.inRaw_of_ofRaw u.ofRaw_text)
  | string s, .scalar hs =>
    rw [lexemes, List.forall_mem_singleton]
    exact Lexeme.whole_quoted (hs s rfl)
  | object fs, .object hn hf =>
    rw [lexemes, List.forall_mem_cons, List.forall_mem_append, List.forall_mem_singleton]
    exact ⟨Lexeme.whole_mark _, whole_fieldLexemes fs hn hf, Lexeme.whole_mark _⟩
  | array ws, .array hx =>
    rw [lexemes, List.forall_mem_cons, List.forall_mem_append, List.forall_mem_singleton]
    exact ⟨Lexeme.whole_mark _, whole_elementLexemes ws hx, Lexeme.whole_mark _⟩

theorem whole_fieldLexemes (fs : List (String × Written)) (hn : ∀ f ∈ fieldTrees fs, '"' ∉ f.1.toList)
    (hf : ∀ f ∈ fieldTrees fs, f.2.Quotable) : ∀ l ∈ fieldLexemes fs, l.Whole := by
  match fs with
  | [] => exact fun _ hl => nomatch hl
  | (name, w) :: fs =>
    rw [fieldTrees, List.forall_mem_cons] at hn hf
    rw [fieldLexemes, List.forall_mem_cons, List.forall_mem_cons, List.forall_mem_append]
    exact ⟨Lexeme.whole_quoted hn.1, Lexeme.whole_mark _, whole_lexemes w hf.1, whole_fieldLexemes fs hn.2 hf.2⟩

theorem whole_elementLexemes (ws : List Written) (hx : ∀ x ∈ elementTrees ws, x.Quotable) :
    ∀ l ∈ elementLexemes ws, l.Whole := by
  match ws with
  | [] => exact fun _ hl => nomatch hl
  | w :: ws =>
    rw [elementTrees, List.forall_mem_cons] at hx
    rw [elementLexemes, List.forall_mem_append]
    exact ⟨whole_lexemes w hx.1, whole_elementLexemes ws hx.2⟩

end

/-! ## The derivation -/

mutual

def value : Written → Grammar.Value
  | unquoted u => .raw u.text
  | string s => .literal s
  | object fs => .object (fieldValues fs)
  | array ws => .array (elementValues ws)

def fieldValues : List (String × Written) → List (String × Rhs)
  | [] => []
  | (name, w) :: fs => (name, .assign w.value) :: fieldValues fs

def elementValues : List Written → List Grammar.Element
  | [] => []
  | w :: ws => .value w.value :: elementValues ws

end

mutual

theorem words_value (w : Written) : w.value.words = w.lexemes.map Lexeme.word := by
  match w with
  | unquoted u => simp [value, Grammar.Value.words, lexemes, Lexeme.word]
  | string s => simp [value, Grammar.Value.words, lexemes, Lexeme.word]
  | object fs => simp [value, Grammar.Value.words, lexemes, words_fieldValues fs, Lexeme.word]
  | array ws => simp [value, Grammar.Value.words, lexemes, words_elementValues ws, Lexeme.word]

theorem words_fieldValues (fs : List (String × Written)) :
    Grammar.fieldWords (fieldValues fs) = (fieldLexemes fs).map Lexeme.word := by
  match fs with
  | [] => rfl
  | (name, w) :: fs =>
    simp [fieldValues, Grammar.fieldWords, Rhs.words, fieldLexemes, words_value w, words_fieldValues fs, Lexeme.word]

theorem words_elementValues (ws : List Written) :
    Grammar.elementWords (elementValues ws) = (elementLexemes ws).map Lexeme.word := by
  match ws with
  | [] => rfl
  | w :: ws =>
    simp [elementValues, Grammar.elementWords, Grammar.Element.words, elementLexemes, words_value w,
      words_elementValues ws]

end

mutual

theorem depth_value (w : Written) : w.value.depth = w.tree.height := by
  match w with
  | unquoted u => rfl
  | string s => rfl
  | object fs => rw [value, Grammar.Value.depth, tree, Tree.height, depth_fieldValues fs]
  | array ws => rw [value, Grammar.Value.depth, tree, Tree.height, depth_elementValues ws]

theorem depth_fieldValues (fs : List (String × Written)) :
    Grammar.fieldDepth (fieldValues fs) = Tree.fieldHeight (fieldTrees fs) := by
  match fs with
  | [] => rfl
  | (name, w) :: fs =>
    rw [fieldValues, Grammar.fieldDepth, Rhs.depth, fieldTrees, Tree.fieldHeight, depth_value w, depth_fieldValues fs]

theorem depth_elementValues (ws : List Written) :
    Grammar.elementDepth (elementValues ws) = Tree.elementHeight (elementTrees ws) := by
  match ws with
  | [] => rfl
  | w :: ws =>
    rw [elementValues, Grammar.elementDepth, Grammar.Element.depth, elementTrees, Tree.elementHeight, depth_value w,
      depth_elementValues ws]

end

mutual

theorem resolves_value (w : Written) : Resolves w.value.words := by
  match w with
  | unquoted u =>
    rw [value, Grammar.Value.words, Grammar.resolves_cons]
    refine ⟨?_, Grammar.resolves_nil⟩
    rintro text ⟨⟩
    exact ⟨u.scalar, u.ofRaw_text⟩
  | string s => simp [value, Grammar.Value.words]
  | object fs => simp [value, Grammar.Value.words, resolves_fieldValues fs]
  | array ws => simp [value, Grammar.Value.words, resolves_elementValues ws]

theorem resolves_fieldValues (fs : List (String × Written)) : Resolves (Grammar.fieldWords (fieldValues fs)) := by
  match fs with
  | [] => exact Grammar.resolves_nil
  | (name, w) :: fs => simp [fieldValues, Grammar.fieldWords, Rhs.words, resolves_value w, resolves_fieldValues fs]

theorem resolves_elementValues (ws : List Written) : Resolves (Grammar.elementWords (elementValues ws)) := by
  match ws with
  | [] => exact Grammar.resolves_nil
  | w :: ws =>
    simp [elementValues, Grammar.elementWords, Grammar.Element.words, resolves_value w, resolves_elementValues ws]

end

section

variable (lookup : String → Option String)

mutual

/-- With distinct names, no field is written into another one. -/
theorem tree_value (w : Written) (h : w.tree.Distinct) : w.value.tree lookup = w.tree := by
  match w, h with
  | unquoted u, _ => simp [value, Grammar.Value.tree, Grammar.rawTree, u.ofRaw_text, tree]
  | string s, _ => rfl
  | object fs, .object hd hf =>
    rw [value, Grammar.Value.tree, trees_fieldValues fs hf, Tree.insertAll_empty hd, tree]
  | array ws, .array hx => rw [value, Grammar.Value.tree, trees_elementValues ws hx, tree]

theorem trees_fieldValues (fs : List (String × Written)) (h : ∀ f ∈ fieldTrees fs, f.2.Distinct) :
    Grammar.fieldTrees lookup (fieldValues fs) = fieldTrees fs := by
  match fs with
  | [] => rfl
  | (name, w) :: fs =>
    rw [fieldTrees, List.forall_mem_cons] at h
    rw [fieldValues, Grammar.fieldTrees, Rhs.tree, tree_value w h.1, trees_fieldValues fs h.2, fieldTrees]

theorem trees_elementValues (ws : List Written) (h : ∀ x ∈ elementTrees ws, x.Distinct) :
    Grammar.elementTrees lookup (elementValues ws) = elementTrees ws := by
  match ws with
  | [] => rfl
  | w :: ws =>
    rw [elementTrees, List.forall_mem_cons] at h
    rw [elementValues, Grammar.elementTrees, Grammar.Element.tree, tree_value w h.1, trees_elementValues ws h.2,
      elementTrees]

end

end

theorem exists_root {w : Written} (h : ∀ s, w.tree ≠ .scalar s) : ∃ r : Root, r.value = w.value := by
  cases w with
  | unquoted u => exact absurd rfl (h _)
  | string s => exact absurd rfl (h _)
  | object fs => exact ⟨.object (fieldValues fs), rfl⟩
  | array ws => exact ⟨.array (elementValues ws), rfl⟩

/-! Of derivations that stand for the roots one by one: -/

section

variable {rs : List Root} {roots : List Written}

theorem rootWords_eq (h : rs.map Root.value = roots.map value) :
    Grammar.rootWords rs = roots.flatMap fun w => w.value.words := by
  have hw := congrArg (List.flatMap Grammar.Value.words) h
  rwa [List.flatMap_map, List.flatMap_map] at hw

theorem words_roots (h : rs.map Root.value = roots.map value) :
    Grammar.rootWords rs = (roots.flatMap lexemes).map Lexeme.word := by
  rw [rootWords_eq h, List.map_flatMap]
  exact List.flatMap_congr fun w _ => words_value w

theorem resolves_roots (h : rs.map Root.value = roots.map value) : Resolves (Grammar.rootWords rs) := by
  rw [rootWords_eq h]
  intro text ht
  obtain ⟨w, -, ht⟩ := List.mem_flatMap.mp ht
  exact resolves_value w text ht

theorem rootDepth_le (h : rs.map Root.value = roots.map value) {n : Nat} (hn : ∀ w ∈ roots, w.tree.height ≤ n) :
    Grammar.rootDepth rs ≤ n := by
  induction rs generalizing roots with
  | nil => exact Nat.zero_le n
  | cons r rs ih =>
    cases roots with
    | nil => cases h
    | cons w roots =>
      obtain ⟨hr, hrs⟩ := List.cons.inj h
      obtain ⟨hw, hroots⟩ := List.forall_mem_cons.mp hn
      rw [← depth_value w, ← hr] at hw
      exact Nat.max_le.mpr ⟨hw, ih hrs hroots⟩

theorem trees_roots (lookup : String → Option String) (h : rs.map Root.value = roots.map value)
    (hd : ∀ w ∈ roots, w.tree.Distinct) : (rs.map fun r => r.value.tree lookup) = roots.map tree := by
  have ht := congrArg (List.map fun v : Grammar.Value => v.tree lookup) h
  rw [List.map_map, List.map_map] at ht
  exact ht.trans (List.map_congr_left fun w hw => tree_value lookup w (hd w hw))

end

end Written

/-! ## Back from the text -/

theorem lexes_canonicalText {roots : List Written} (h : ∀ w ∈ roots, w.tree.Quotable) :
    ∃ tokens, Lexes (canonicalText roots) tokens ∧ tokens.map Token.lexeme = roots.flatMap Written.lexemes := by
  have hl : ∀ l ∈ roots.flatMap Written.lexemes, l.Whole := by
    intro l hl
    obtain ⟨w, hw, hl⟩ := List.mem_flatMap.mp hl
    exact w.whole_lexemes (h w hw) l hl
  obtain ⟨tokens, stop, hr, ht⟩ := Cursor.exists_read_spaced hl 0
  refine ⟨tokens, ⟨stop, ?_⟩, ht⟩
  rw [Cursor.ofString, canonicalText, String.toList_ofList, hr]

/-- Objects and arrays without two fields of a name, without a quote and within the limit of levels are
    what their canonical text is read as. -/
theorem parseForest_canonicalText (lookup : String → Option String) {roots : List Written} (hne : roots ≠ [])
    (hroot : ∀ w ∈ roots, ∀ s, w.tree ≠ .scalar s) (hd : ∀ w ∈ roots, w.tree.Distinct)
    (hh : ∀ w ∈ roots, w.tree.height ≤ maxDepth) (hq : ∀ w ∈ roots, w.tree.Quotable) :
    parseForest lookup (canonicalText roots) = .ok (roots.map Written.tree) := by
  obtain ⟨tokens, hl, ht⟩ := lexes_canonicalText hq
  obtain ⟨rs, hrs⟩ := Grammar.exists_roots fun w hw => Written.exists_root (hroot w hw)
  obtain ⟨first, rest, rfl⟩ : ∃ first rest, rs = first :: rest := by
    cases rs with
    | nil => exact absurd (List.map_eq_nil_iff.mp hrs.symm) hne
    | cons first rest => exact ⟨first, rest, rfl⟩
  have hw : (Start.brackets first rest).words = tokens.map Token.word := by
    rw [Start.words, Written.words_roots hrs, ← ht, List.map_map]
    rfl
  have hf : forest? lookup (Start.brackets first rest).words = some ((Start.brackets first rest).forest lookup) :=
    forest?_words (Written.resolves_roots hrs) (Written.rootDepth_le hrs hh)
  rw [hw, Start.forest, Written.trees_roots lookup hrs hd] at hf
  exact (parseForest_eq_ok_iff_forest? hl).mpr hf

/-- Marks, blanks and line ends within quotes, an empty name, and a float with a digit too many. -/
theorem parseForest_canonicalText_of_marks :
    let lookup : String → Option String := fun _ => some "1"
    let half : Unquoted := .float ⟨0x3FE0000000000000⟩ "0.50" (by with_unfolding_all rfl)
    let inner : Written := .array [.string "", .string "=\n.", .unquoted (.integer (-5)), .object []]
    let roots : List Written := [.object [("a.b", inner), ("", .unquoted half)], .array [.unquoted .null]]
    (∀ w ∈ roots, (∀ s, w.tree ≠ .scalar s) ∧ w.tree.Distinct ∧ w.tree.height ≤ maxDepth ∧ w.tree.Quotable) ∧
      canonicalText roots =
        "\x7b \"a.b\" = [ \"\" \"=\n.\" :-5 \x7b \x7d ] \"\" = :0.50 \x7d [ :null ]" ∧
      parseForest lookup (canonicalText roots) = .ok (roots.map Written.tree) := by
  intro lookup half inner roots
  have hs : ∀ w ∈ roots, ∀ s, w.tree ≠ .scalar s := by
    simp [roots, Written.tree]
  have hd : ∀ w ∈ roots, w.tree.Distinct := by
    simp [roots, inner, half, Written.tree, Written.fieldTrees, Written.elementTrees, Tree.distinct_object_iff,
      Tree.distinct_array_iff, Tree.Distinct.scalar]
  have hh : ∀ w ∈ roots, w.tree.height ≤ maxDepth := by decide
  have hq : ∀ w ∈ roots, w.tree.Quotable := by
    simp [roots, inner, half, Written.tree, Written.fieldTrees, Written.elementTrees, Tree.quotable_object_iff,
      Tree.quotable_array_iff, Tree.quotable_scalar_iff, Unquoted.scalar]
  refine ⟨fun w hw => ⟨hs w hw, hd w hw, hh w hw, hq w hw⟩, ?_, ?_⟩
  · decide +kernel
  · exact parseForest_canonicalText lookup (by simp [roots]) hs hd hh hq

end ObjectExpr
