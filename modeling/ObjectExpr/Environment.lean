/-
  ObjectExpr.Environment — the variables that an expression can name. An environment is a list of
  entries, each a name, an equals sign and a value. A variable is looked up by the first entry that
  begins with its name and an equals sign; so a name that itself has an equals sign in it is found
  where the value of another variable begins with the rest of it: `A=B` where `A` is `B=c`. Neither the
  empty name is found nor one with a NUL, which no entry has in it (`lookup_nulFree`). Only a value
  that is text counts: one that is not UTF-8 is as good as unset.
-/

import ObjectExpr.Text.Utf8

namespace ObjectExpr

namespace Environment

def equalsSign : UInt8 := 0x3D

def entryOf (name : String) (value : List UInt8) : List UInt8 := Text.encode name.toList ++ equalsSign :: value

/-- What follows a name and an equals sign in an entry. -/
def valueIn? (name : String) (entry : List UInt8) : Option (List UInt8) :=
  if (entryOf name []).isPrefixOf entry then some (entry.drop (entryOf name []).length) else none

def isNulFree (bytes : List UInt8) : Bool := bytes.all (· != 0)

/-- Whether a variable can be given this name. -/
def isName (name : String) : Bool := !name.isEmpty && !name.toList.contains '='

end Environment

structure Environment where
  entries : List (List UInt8)
  nulFree : entries.all Environment.isNulFree = true
  deriving DecidableEq, Repr

namespace Environment

def empty : Environment := ⟨[], rfl⟩

def ofEntries (entries : List (List UInt8)) : Environment := ⟨entries.filter isNulFree, by simp⟩

/-- The environment of some variables, by name. -/
def ofBytes (values : List (String × List UInt8)) : Environment :=
  ofEntries (values.map fun (name, value) => entryOf name value)

def lookup (env : Environment) (name : String) : Option String :=
  if name.isEmpty then none
  else (env.entries.findSome? (valueIn? name)).bind fun value => (Text.decode? value).map String.ofList

/-- Sets a variable that is not set, and leaves one that is. Nothing comes of it if no variable can
    have that name and value. -/
def add? (env : Environment) (name value : String) : Option Environment :=
  if (env.lookup name).isSome then some env
  else if h : isName name = true ∧ isNulFree (entryOf name (Text.encode value.toList)) = true then
    some ⟨entryOf name (Text.encode value.toList) :: env.entries, by
      rw [List.all_cons, h.2, env.nulFree, Bool.and_true]⟩
  else none

/-! ## What a look-up finds -/

theorem entryOf_eq (name : String) (value : List UInt8) : entryOf name value = entryOf name [] ++ value := by
  simp [entryOf]

theorem valueIn?_eq_some_iff {name : String} {entry value : List UInt8} :
    valueIn? name entry = some value ↔ entry = entryOf name value := by
  unfold valueIn?
  rw [entryOf_eq name value]
  split
  · next h =>
    obtain ⟨rest, rfl⟩ := List.isPrefixOf_iff_prefix.mp h
    simp
  · next h =>
    refine ⟨(nomatch ·), fun he => absurd ?_ h⟩
    exact List.isPrefixOf_iff_prefix.mpr ⟨value, he.symm⟩

theorem equalsSign_notMem_encode {cs : List Char} (h : '=' ∉ cs) : equalsSign ∉ Text.encode cs := by
  intro hb
  obtain ⟨c, hc, hn⟩ := Text.exists_toNat_of_mem_encode hb (by decide)
  have : c = '=' := Char.toNat_inj.mp hn
  exact h (this ▸ hc)

/-- What stands before the first separator is given by the whole. -/
theorem eq_of_append_cons_eq {α : Type} {s : α} {as bs us vs : List α} (ha : s ∉ as) (hb : s ∉ bs)
    (h : as ++ s :: us = bs ++ s :: vs) : as = bs ∧ us = vs := by
  induction as generalizing bs with
  | nil =>
    cases bs with
    | nil => simpa using h
    | cons b bs =>
      simp only [List.nil_append, List.cons_append, List.cons.injEq] at h
      simp [h.1] at hb
  | cons a as ih =>
    cases bs with
    | nil =>
      simp only [List.nil_append, List.cons_append, List.cons.injEq] at h
      simp [h.1] at ha
    | cons b bs =>
      simp only [List.cons_append, List.cons.injEq] at h
      simp only [List.mem_cons, not_or] at ha hb
      obtain ⟨rfl, rfl⟩ := ih ha.2 hb.2 h.2
      exact ⟨by rw [h.1], rfl⟩

theorem entryOf_inj {name other : String} (hn : '=' ∉ name.toList) (ho : '=' ∉ other.toList)
    {value rest : List UInt8} (h : entryOf name value = entryOf other rest) : name = other ∧ value = rest := by
  obtain ⟨he, hv⟩ := eq_of_append_cons_eq (equalsSign_notMem_encode hn) (equalsSign_notMem_encode ho) h
  have := congrArg Text.decode? he
  simp only [Text.decode?_encode, Option.some.injEq] at this
  exact ⟨String.toList_inj.mp this, hv⟩

/-- A look-up by a name without an equals sign finds the entry of that name and no other. -/
theorem valueIn?_entryOf {name other : String} (hn : '=' ∉ name.toList) (ho : '=' ∉ other.toList)
    (value : List UInt8) : valueIn? other (entryOf name value) = if other = name then some value else none := by
  split
  · next h => rw [h]; exact valueIn?_eq_some_iff.mpr rfl
  · next h =>
    refine Option.eq_none_iff_forall_ne_some.mpr fun rest hr => h ?_
    exact (entryOf_inj hn ho (valueIn?_eq_some_iff.mp hr)).1.symm

/-- Nothing that is found has a NUL in its name or its value. -/
theorem lookup_nulFree {env : Environment} {name value : String} (h : env.lookup name = some value) :
    '\x00' ∉ name.toList ∧ '\x00' ∉ value.toList := by
  unfold lookup at h
  split at h
  · cases h
  obtain ⟨bytes, hb, hd⟩ := Option.bind_eq_some_iff.mp h
  obtain ⟨cs, hc, rfl⟩ := Option.map_eq_some_iff.mp hd
  obtain ⟨entry, he, hv⟩ := List.exists_of_findSome?_eq_some hb
  have hf := List.all_eq_true.mp env.nulFree entry he
  rw [valueIn?_eq_some_iff.mp hv, Text.eq_encode_of_decode? hc] at hf
  have hz : (0 : UInt8) ∉ entryOf name (Text.encode cs) := fun hm => by
    simpa using List.all_eq_true.mp hf _ hm
  simp only [entryOf, List.mem_append, List.mem_cons, not_or] at hz
  exact ⟨fun hn => hz.1 (Text.zero_mem_encode hn), fun hn => hz.2.2 (Text.zero_mem_encode (by simpa using hn))⟩

/-- Setting a variable shows only where it was not set; and of the names without an equals sign, only
    under its own. -/
theorem lookup_of_add? {env env' : Environment} {name value other : String}
    (h : env.add? name value = some env') (ho : '=' ∉ other.toList) :
    env'.lookup other = (env.lookup other).or (if other = name then some value else none) := by
  simp only [add?] at h
  split at h
  · next hs =>
    obtain rfl := Option.some.inj h
    split
    · next he => subst he; obtain ⟨v, hv⟩ := Option.isSome_iff_exists.mp hs; simp [hv]
    · simp
  · next hs =>
    simp only [Option.not_isSome_iff_eq_none] at hs
    split at h
    · next hv =>
      obtain rfl := Option.some.inj h
      simp only [isName, Bool.and_eq_true, Bool.not_eq_true', List.contains_eq_mem, decide_eq_false_iff_not] at hv
      by_cases he : other = name
      · subst he
        rw [hs]
        simp [lookup, hv.1.1, valueIn?_entryOf ho ho, Text.decode?_encode]
      · simp [lookup, valueIn?_entryOf hv.1.2 ho, he]
    · cases h

end Environment

end ObjectExpr
