/-
  ObjectExpr.Proofs.Grammar.Derivation — the derivations of the grammar of expressions over words, one
  constructor for each alternative:

      start   := (object | array)+ | field*
      object  := '{' field* '}'
      array   := '[' element* ']'
      field   := LITERAL rhs
      rhs     := '=' value | '.' LITERAL rhs
      value   := LITERAL | RAW | ENV | object | array
      element := value | field

  An element that is a lone LITERAL is a value, one that goes on with `=` or a dot is a field. A
  derivation has the words that it derives (`Start.words`), the most levels that any point of it lies
  in (`Start.depth`: one for each enclosing brace or bracket, one for each dot before it in the field
  around it) and the trees that it means (`Start.forest`). Nothing here refers to the parser.
-/

import ObjectExpr.Scalar
import ObjectExpr.Token
import ObjectExpr.Tree

namespace ObjectExpr.Grammar

mutual

/-- What stands after the name of a field. -/
inductive Rhs
  | assign (v : Value)
  | dot (name : String) (r : Rhs)

inductive Value
  | literal (text : String)
  | raw (text : String)
  | env (name : String)
  | object (fields : List (String × Rhs))
  | array (elements : List Element)

inductive Element
  | value (v : Value)
  | field (name : String) (r : Rhs)

end

/-- An object or an array that stands by itself. -/
inductive Root
  | object (fields : List (String × Rhs))
  | array (elements : List Element)

def Root.value : Root → Value
  | object fields => .object fields
  | array elements => .array elements

inductive Start
  | brackets (first : Root) (rest : List Root)
  | fields (fields : List (String × Rhs))

/-! ## The words of a derivation -/

mutual

def Rhs.words : Rhs → List Word
  | .assign v => .mark .assign :: v.words
  | .dot name r => .mark .dot :: .literal name :: r.words

def Value.words : Value → List Word
  | .literal text => [.literal text]
  | .raw text => [.raw text]
  | .env name => [.env name]
  | .object fields => .mark .objectOpen :: (fieldWords fields ++ [.mark .objectClose])
  | .array elements => .mark .arrayOpen :: (elementWords elements ++ [.mark .arrayClose])

def fieldWords : List (String × Rhs) → List Word
  | [] => []
  | (name, r) :: fields => .literal name :: (r.words ++ fieldWords fields)

def Element.words : Element → List Word
  | .value v => v.words
  | .field name r => .literal name :: r.words

def elementWords : List Element → List Word
  | [] => []
  | e :: elements => e.words ++ elementWords elements

end

def rootWords (roots : List Root) : List Word := roots.flatMap fun r => r.value.words

def Start.words : Start → List Word
  | brackets first rest => rootWords (first :: rest)
  | fields fs => fieldWords fs

@[simp] theorem elementWords_append (ds es : List Element) :
    elementWords (ds ++ es) = elementWords ds ++ elementWords es := by
  induction ds with
  | nil => rfl
  | cons d ds ih => simp [elementWords, ih]

@[simp] theorem rootWords_cons (r : Root) (rs : List Root) :
    rootWords (r :: rs) = r.value.words ++ rootWords rs := rfl

/-! ## The levels of a derivation -/

mutual

def Rhs.depth : Rhs → Nat
  | .assign v => v.depth
  | .dot _ r => r.depth + 1

def Value.depth : Value → Nat
  | .literal _ | .raw _ | .env _ => 0
  | .object fields => fieldDepth fields + 1
  | .array elements => elementDepth elements + 1

def fieldDepth : List (String × Rhs) → Nat
  | [] => 0
  | (_, r) :: fields => max r.depth (fieldDepth fields)

def Element.depth : Element → Nat
  | .value v => v.depth
  | .field _ r => r.depth

def elementDepth : List Element → Nat
  | [] => 0
  | e :: elements => max e.depth (elementDepth elements)

end

def rootDepth (roots : List Root) : Nat := roots.foldr (fun r depth => max r.value.depth depth) 0

def Start.depth : Start → Nat
  | brackets first rest => rootDepth (first :: rest)
  | fields fs => fieldDepth fs

/-! ## The meaning of a derivation -/

/-- Every raw literal stands for something. -/
def Resolves (ws : List Word) : Prop := ∀ text, Word.raw text ∈ ws → ∃ s, Scalar.ofRaw text = .ok s

/-- The leaf of a raw literal; null where it stands for nothing, which `Resolves` rules out. -/
def rawTree (text : String) : Tree :=
  match Scalar.ofRaw text with
  | .ok s => .scalar s
  | .error _ => .scalar .null

section

variable (lookup : String → Option String)

mutual

/-- Each further name of a path is an object with one field. -/
def Rhs.tree : Rhs → Tree
  | .assign v => v.tree
  | .dot name r => .ofField name r.tree

def Value.tree : Value → Tree
  | .literal text => .scalar (.string text)
  | .raw text => rawTree text
  | .env name => .scalar (Scalar.ofVariable lookup name)
  | .object fields => .object (Tree.insertAll [] (fieldTrees fields))
  | .array elements => .array (elementTrees elements)

def fieldTrees : List (String × Rhs) → List (String × Tree)
  | [] => []
  | (name, r) :: fields => (name, r.tree) :: fieldTrees fields

/-- A field is an object that holds only this field. -/
def Element.tree : Element → Tree
  | .value v => v.tree
  | .field name r => .ofField name r.tree

def elementTrees : List Element → List Tree
  | [] => []
  | e :: elements => e.tree :: elementTrees elements

end

/-- One tree for each bracketed root, or one object for all the fields. -/
def Start.forest : Start → Forest
  | brackets first rest => (first :: rest).map fun r => r.value.tree lookup
  | fields fs => [.object (Tree.insertAll [] (fieldTrees lookup fs))]

end

/-! ## Which words resolve -/

@[simp] theorem resolves_nil : Resolves [] := fun _ h => nomatch h

@[simp] theorem resolves_cons {w : Word} {ws : List Word} :
    Resolves (w :: ws) ↔ (∀ text, w = .raw text → ∃ s, Scalar.ofRaw text = .ok s) ∧ Resolves ws := by
  simp only [Resolves, List.mem_cons, or_imp, forall_and, eq_comm]

@[simp] theorem resolves_append {vs ws : List Word} : Resolves (vs ++ ws) ↔ Resolves vs ∧ Resolves ws := by
  simp only [Resolves, List.mem_append, or_imp, forall_and]

end ObjectExpr.Grammar
