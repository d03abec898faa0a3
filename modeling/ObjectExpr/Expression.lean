/-
  ObjectExpr.Expression — an expression as it is written, before any variable is looked up:

      expression := (object | array)+ | field*
      object     := '{' field* '}'
      array      := '[' element* ']'
      field      := path '=' term
      path       := name ('.' name)*
      term       := literal | raw | variable | object | array
      element    := term | field

  A field in an array stands for an object that holds only this field.
-/

import ObjectExpr.Scalar

namespace ObjectExpr

/-- The names of a field, from the outermost in. -/
structure Path where
  head : String
  tail : List String
  deriving DecidableEq, Repr

def Path.names (p : Path) : List String := p.head :: p.tail

def Path.single (name : String) : Path := ⟨name, []⟩

def Path.snoc (p : Path) (name : String) : Path := ⟨p.head, p.tail ++ [name]⟩

@[simp] theorem Path.names_snoc (p : Path) (name : String) : (p.snoc name).names = p.names ++ [name] := rfl

inductive Term
  | text (s : String)
  | typed (t : Typed)
  | env (name : String)
  | object (fields : List (Path × Term))
  | array (elements : List (Option Path × Term))

abbrev Field := Path × Term

/-- An element without a path is a plain term. -/
abbrev Element := Option Path × Term

/-- Fields without brackets around them are one object; brackets give one root each. -/
inductive Expression
  | flat (fields : List Field)
  | bracketed (roots : List Term)

end ObjectExpr
