/-
  ObjectExpr.Value — the values that are written out: what a tree holds, free of how it was built.
  Integers and floats stay apart. The names of an object may repeat in a value made by hand; looking
  up a name finds its first field.

  Equality (`Value.equal`) does not see the order of fields: two objects are equal if they have as many
  fields and every field of one equals the first field of its name in the other. Inside a field the
  other object asks, which only repeated names can tell. `plain` is a value as a document can hold it:
  each name once, in its first place and with its last value, and null for what is no finite number.
-/

import ObjectExpr.Tree

namespace ObjectExpr

open Number (Binary64)

/-- Fields by name: each name in its first place with its last value. -/
def Fields.collapse {α : Type} (fs : List (String × α)) : List (String × α) :=
  fs.foldl (fun acc f => Fields.put f.1 f.2 (fun _ => f.2) acc) []

inductive Value
  | null
  | boolean (b : Bool)
  | integer (n : Int64)
  | float (x : Binary64)
  | string (s : String)
  | array (elements : List Value)
  | object (fields : List (String × Value))

namespace Value

def ofScalar : Scalar → Value
  | .null => .null
  | .boolean b => .boolean b
  | .integer n => .integer n
  | .float x => .float x
  | .string s => .string s

/-! ## Looking into a value -/

def get? : Value → String → Option Value
  | .object fs, name => Fields.get? fs name
  | _, _ => none

def string? : Value → Option String
  | .string s => some s
  | _ => none

def elements? : Value → Option (List Value)
  | .array xs => some xs
  | _ => none

def names : Value → List String
  | .object fs => Fields.names fs
  | _ => []

/-! ## Equality -/

mutual

/-- Whether `a` equals `b`; with `swap`, whether `b` equals `a`. -/
def equalFrom (swap : Bool) : Value → Value → Bool
  | .null, .null => true
  | .boolean a, .boolean b => a == b
  | .integer m, .integer n => m == n
  | .float x, .float y => x.equal y
  | .string s, .string t => s == t
  | .array xs, .array ys => equalAll swap xs ys
  | .object fs, .object gs =>
    fs.length == gs.length && if swap then gs.all fun g => holds fs g.1 g.2 else covered fs gs
  | _, _ => false

/-- Every field on the left has an equal in the first field of its name on the right. -/
def covered : List (String × Value) → List (String × Value) → Bool
  | [], _ => true
  | (name, a) :: fs, gs =>
    (match Fields.get? gs name with
      | some b => equalFrom true a b
      | none => false) && covered fs gs

/-- The first field of a name equals `b`. -/
def holds : List (String × Value) → String → Value → Bool
  | [], _, _ => false
  | (n, a) :: fs, name, b => if n = name then equalFrom false a b else holds fs name b

def equalAll (swap : Bool) : List Value → List Value → Bool
  | [], [] => true
  | x :: xs, y :: ys => equalFrom swap x y && equalAll swap xs ys
  | _, _ => false

end

def equal (a b : Value) : Bool := equalFrom false a b

/-! ## As a document holds it -/

mutual

def plain : Value → Value
  | .float x => if x.isFinite then .float x else .null
  | .array xs => .array (plainAll xs)
  | .object fs => .object (Fields.collapse (plainFields fs))
  | v => v

def plainAll : List Value → List Value
  | [] => []
  | x :: xs => plain x :: plainAll xs

def plainFields : List (String × Value) → List (String × Value)
  | [] => []
  | (name, v) :: fs => (name, plain v) :: plainFields fs

end

end Value

/-! ## The value of a tree -/

mutual

def Tree.produce : Tree → Value
  | .scalar s => .ofScalar s
  | .object fs => .object (Tree.produceFields fs)
  | .array xs => .array (Tree.produceAll xs)

def Tree.produceFields : List (String × Tree) → List (String × Value)
  | [] => []
  | (name, t) :: fs => (name, t.produce) :: Tree.produceFields fs

def Tree.produceAll : List Tree → List Value
  | [] => []
  | t :: ts => t.produce :: Tree.produceAll ts

end

end ObjectExpr
