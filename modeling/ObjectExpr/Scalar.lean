/-
  ObjectExpr.Scalar — the leaves of a tree, and what the two kinds of typed word stand for. After `:`
  stands a keyword or a number: an integer that fits in 64 bits, else a floating-point number
  (`ofRaw`). After `^` stands the name of a variable (`ofVariable`): unset, it is the empty string; the
  names true, false and null stand for themselves; else the value is read as a number if it is one,
  and is a string if not.
-/

import ObjectExpr.Number.Binary64
import ObjectExpr.Text.Quoted

namespace ObjectExpr

open Number (Binary64)

inductive Scalar
  | null
  | boolean (b : Bool)
  | integer (n : Int64)
  | float (x : Binary64)
  | string (s : String)
  deriving DecidableEq, Repr

/-- The text after a `:` that is no keyword and no number. -/
structure InvalidRaw where
  text : String
  deriving DecidableEq, Repr

def InvalidRaw.message (e : InvalidRaw) : String :=
  "invalid raw literal " ++ String.ofList (Text.quoted e.text.toList) ++
    ": isn't any of true, false, null or a numeric"

namespace Scalar

def ofKeyword? (text : String) : Option Scalar :=
  if text = "true" then some (.boolean true)
  else if text = "false" then some (.boolean false)
  else if text = "null" then some .null
  else none

/-- The integer of 64 bits that a text spells. -/
def integer? (text : String) : Option Int64 :=
  (Number.readInteger? text.toList).bind fun n =>
    if Int64.minValue.toInt ≤ n ∧ n ≤ Int64.maxValue.toInt then some (Int64.ofInt n) else none

def ofNumber? (text : String) : Option Scalar :=
  match integer? text with
  | some n => some (.integer n)
  | none => (Binary64.read? text.toList).map .float

def ofRaw (text : String) : Except InvalidRaw Scalar :=
  match (ofKeyword? text).or (ofNumber? text) with
  | some s => .ok s
  | none => .error ⟨text⟩

/-- What the value of the variable `name` stands for. -/
def ofValue (name value : String) : Scalar :=
  (ofKeyword? name).getD ((ofNumber? value).getD (.string value))

def ofVariable (lookup : String → Option String) (name : String) : Scalar :=
  match lookup name with
  | none => .string ""
  | some value => ofValue name value

/-! ## Equality of leaves -/

/-- Equality as numbers, or else as the same leaf; an integer equals no float. -/
def equal : Scalar → Scalar → Bool
  | .float x, .float y => x.equal y
  | .null, .null => true
  | .boolean a, .boolean b => a == b
  | .integer m, .integer n => m == n
  | .string s, .string t => s == t
  | _, _ => false

end Scalar

/-- The text after a `:` with what it stands for. -/
structure Typed where
  text : String
  scalar : Scalar
  ofRaw_text : Scalar.ofRaw text = .ok scalar

def Typed.ofText (text : String) : Except InvalidRaw Typed :=
  match h : Scalar.ofRaw text with
  | .ok s => .ok ⟨text, s, h⟩
  | .error e => .error e

theorem Typed.ext_text {a b : Typed} (h : a.text = b.text) : a = b := by
  obtain ⟨t, s, hs⟩ := a
  obtain ⟨u, r, hr⟩ := b
  obtain rfl : t = u := h
  obtain rfl : s = r := Except.ok.inj (hs.symm.trans hr)
  rfl

end ObjectExpr
