/-
  ObjectExpr.Tree — what an expression builds: leaves, arrays, and objects whose fields stand in the
  order in which their names were first written.

  A field that is written again is merged (`Tree.merge`): two objects unite, field by field; in every
  other case the newcomer replaces what was there. A repeated field keeps its place.
-/

import ObjectExpr.Scalar

namespace ObjectExpr

/-! ## Fields in order -/

namespace Fields

variable {α : Type}

def names (fs : List (String × α)) : List String := fs.map (·.1)

/-- The first field of a name. -/
def get? (fs : List (String × α)) (name : String) : Option α := fs.lookup name

/-- Writes a field: `join` of what the name held before, in its place, or else `new` at the end. -/
def put (name : String) (new : α) (join : α → α) : List (String × α) → List (String × α)
  | [] => [(name, new)]
  | (n, old) :: fs => if n = name then (n, join old) :: fs else (n, old) :: put name new join fs

end Fields

inductive Tree
  | scalar (s : Scalar)
  | object (fields : List (String × Tree))
  | array (elements : List Tree)

/-- The trees of one expression, in its order. -/
abbrev Forest := List Tree

namespace Tree

/-! ## Merging -/

mutual

def merge : Tree → Tree → Tree
  | .object fs, .object gs => .object (absorb fs gs)
  | _, t => t

/-- Writes the fields of the second object into the first, one after another. -/
def absorb (fs : List (String × Tree)) : List (String × Tree) → List (String × Tree)
  | [] => fs
  | (name, t) :: gs => absorb (Fields.put name t (fun old => merge old t) fs) gs

end

/-- Writes one field of an object. -/
def insert (fs : List (String × Tree)) (name : String) (t : Tree) : List (String × Tree) :=
  Fields.put name t (fun old => merge old t) fs

/-- Writes fields one after another. -/
def insertAll (fs : List (String × Tree)) (gs : List (String × Tree)) : List (String × Tree) :=
  gs.foldl (fun fs g => insert fs g.1 g.2) fs

theorem absorb_eq_insertAll (fs gs : List (String × Tree)) : absorb fs gs = insertAll fs gs := by
  induction gs generalizing fs with
  | nil => rfl
  | cons g gs ih =>
    obtain ⟨name, t⟩ := g
    simp only [absorb, insertAll, List.foldl_cons]
    exact ih _

def ofField (name : String) (t : Tree) : Tree := .object [(name, t)]

/-- The object that one object per name of a path builds around a tree. -/
def nest : List String → Tree → Tree
  | [], t => t
  | name :: names, t => ofField name (nest names t)

/-! ## Equality -/

mutual

/-- Whether two trees are equal up to the order of fields; leaves compare as `Scalar.equal`. -/
def equal : Tree → Tree → Bool
  | .scalar a, .scalar b => a.equal b
  | .object fs, .object gs => fs.length == gs.length && covered fs gs
  | .array xs, .array ys => equalAll xs ys
  | _, _ => false

/-- Every field on the left has an equal of its name on the right. -/
def covered : List (String × Tree) → List (String × Tree) → Bool
  | [], _ => true
  | (name, t) :: fs, gs =>
    (match Fields.get? gs name with
      | some u => equal t u
      | none => false) && covered fs gs

def equalAll : List Tree → List Tree → Bool
  | [], [] => true
  | x :: xs, y :: ys => equal x y && equalAll xs ys
  | _, _ => false

end

end Tree

end ObjectExpr
