/-
  ObjectExpr.Expression.Build — the trees that an expression stands for, given the values of variables.
  Fields are written into an object from left to right; each further name of a path is an object with
  one field.
-/

import ObjectExpr.Expression.Parser
import ObjectExpr.Tree

namespace ObjectExpr

mutual

def Term.tree (lookup : String → Option String) : Term → Tree
  | .text s => .scalar (.string s)
  | .typed t => .scalar t.scalar
  | .env name => .scalar (Scalar.ofVariable lookup name)
  | .object fields => .object (Tree.insertAll [] (fieldTrees lookup fields))
  | .array elements => .array (elementTrees lookup elements)

/-- The first name of each field with what is written there. -/
def fieldTrees (lookup : String → Option String) : List (Path × Term) → List (String × Tree)
  | [] => []
  | (path, t) :: fields => (path.head, Tree.nest path.tail (t.tree lookup)) :: fieldTrees lookup fields

def elementTrees (lookup : String → Option String) : List (Option Path × Term) → List Tree
  | [] => []
  | (none, t) :: elements => t.tree lookup :: elementTrees lookup elements
  | (some path, t) :: elements => Tree.nest path.names (t.tree lookup) :: elementTrees lookup elements

end

@[simp] theorem fieldTrees_append (lookup : String → Option String) (fs gs : List (Path × Term)) :
    fieldTrees lookup (fs ++ gs) = fieldTrees lookup fs ++ fieldTrees lookup gs := by
  induction fs with
  | nil => rfl
  | cons f fs ih => obtain ⟨path, t⟩ := f; simp [fieldTrees, ih]

theorem elementTrees_cons (lookup : String → Option String) (d : Option Path × Term) (ds : List (Option Path × Term)) :
    elementTrees lookup (d :: ds) = elementTrees lookup [d] ++ elementTrees lookup ds := by
  obtain ⟨_ | path, t⟩ := d <;> simp [elementTrees]

def Expression.forest (lookup : String → Option String) : Expression → Forest
  | flat fields => [(Term.object fields).tree lookup]
  | bracketed roots => roots.map fun t => t.tree lookup

/-- The trees that a text stands for. -/
def parseForest (lookup : String → Option String) (input : String) : Except ParseError Forest :=
  (Expression.parse input).map (·.forest lookup)

theorem parseForest_eq_ok_iff_parse {lookup : String → Option String} {input : String} {forest : Forest} :
    parseForest lookup input = .ok forest ↔ ∃ e, Expression.parse input = .ok e ∧ e.forest lookup = forest := by
  unfold parseForest
  cases Expression.parse input <;> simp [Except.map]

end ObjectExpr
