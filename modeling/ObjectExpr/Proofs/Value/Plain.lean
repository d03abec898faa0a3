/-
  ObjectExpr.Proofs.Value.Plain — values in which no object has a name twice (`Value.Distinct`). Such a
  value is a document as it stands: every field is there once already, in its place, and only floats that
  are no finite number turn to null (`plain_eq_finite`). The trees that expressions build have such values
  (`Tree.Distinct.produce`).
-/

import ObjectExpr.Proofs.Tree.Paths
import ObjectExpr.Value

namespace ObjectExpr

namespace Value

/-- No object in the value has two fields of one name. -/
inductive Distinct : Value → Prop
  | null : Distinct .null
  | boolean (b : Bool) : Distinct (.boolean b)
  | integer (n : Int64) : Distinct (.integer n)
  | float (x : Number.Binary64) : Distinct (.float x)
  | string (s : String) : Distinct (.string s)
  | array {vs : List Value} : (∀ v ∈ vs, Distinct v) → Distinct (.array vs)
  | object {fs : List (String × Value)} : (Fields.names fs).Nodup → (∀ f ∈ fs, Distinct f.2) → Distinct (.object fs)

theorem distinct_array_iff {vs : List Value} : (array vs).Distinct ↔ ∀ v ∈ vs, v.Distinct :=
  ⟨fun | .array hv => hv, .array⟩

theorem distinct_object_iff {fs : List (String × Value)} :
    (object fs).Distinct ↔ (Fields.names fs).Nodup ∧ ∀ f ∈ fs, f.2.Distinct :=
  ⟨fun | .object hd hf => ⟨hd, hf⟩, fun h => .object h.1 h.2⟩

theorem Distinct.ofScalar (s : Scalar) : (Value.ofScalar s).Distinct := by
  cases s with
  | null => exact .null
  | boolean b => exact .boolean b
  | integer n => exact .integer n
  | float x => exact .float x
  | string s => exact .string s

mutual

/-- The same value with null for every float that is no finite number. -/
def finite : Value → Value
  | .float x => if x.isFinite then .float x else .null
  | .array vs => .array (finiteAll vs)
  | .object fs => .object (finiteFields fs)
  | v => v

def finiteAll : List Value → List Value
  | [] => []
  | v :: vs => finite v :: finiteAll vs

def finiteFields : List (String × Value) → List (String × Value)
  | [] => []
  | (name, v) :: fs => (name, finite v) :: finiteFields fs

end

theorem names_finiteFields (fs : List (String × Value)) : Fields.names (finiteFields fs) = Fields.names fs := by
  induction fs with
  | nil => rfl
  | cons f fs ih =>
    obtain ⟨name, v⟩ := f
    rw [finiteFields, Fields.names_cons, Fields.names_cons, ih]

end Value

/-! ## Fields with distinct names -/

theorem Fields.put_of_notMem {α : Type} {fs : List (String × α)} {name : String} (h : name ∉ Fields.names fs) (new : α)
    (join : α → α) : Fields.put name new join fs = fs ++ [(name, new)] := by
  induction fs with
  | nil => rfl
  | cons f fs ih =>
    obtain ⟨n, old⟩ := f
    rw [Fields.names_cons, List.mem_cons, not_or] at h
    rw [Fields.put, if_neg (Ne.symm h.1), ih h.2, List.cons_append]

/-- Writing fields of distinct names one after another puts them side by side. -/
theorem Fields.foldl_put_of_nodup {α : Type} (fs : List (String × α)) {gs : List (String × α)}
    (h : (Fields.names (fs ++ gs)).Nodup) :
    gs.foldl (fun acc f => Fields.put f.1 f.2 (fun _ => f.2) acc) fs = fs ++ gs := by
  induction gs generalizing fs with
  | nil => rw [List.append_nil]; rfl
  | cons g gs ih =>
    obtain ⟨name, v⟩ := g
    have hsplit : fs ++ (name, v) :: gs = fs ++ [(name, v)] ++ gs := by simp
    have hn : name ∉ Fields.names fs := by
      intro hm
      rw [Fields.names, List.map_append, List.nodup_append] at h
      exact h.2.2 name hm name (by simp) rfl
    rw [List.foldl_cons, Fields.put_of_notMem hn, ih _ (hsplit ▸ h), hsplit]

theorem Fields.collapse_of_nodup {α : Type} {fs : List (String × α)} (h : (Fields.names fs).Nodup) :
    Fields.collapse fs = fs :=
  Fields.foldl_put_of_nodup [] h

namespace Value

mutual

/-- No field is lost on the way to a document. -/
theorem plain_eq_finite (v : Value) (h : v.Distinct) : v.plain = v.finite := by
  match v with
  | .null => rfl
  | .boolean b => rfl
  | .integer n => rfl
  | .float x => rfl
  | .string s => rfl
  | .array vs => rw [plain, finite, plainAll_eq vs (distinct_array_iff.mp h)]
  | .object fs =>
    obtain ⟨hd, hf⟩ := distinct_object_iff.mp h
    rw [plain, finite, plainFields_eq fs hf, Fields.collapse_of_nodup ((names_finiteFields fs).symm ▸ hd)]

theorem plainAll_eq (vs : List Value) (h : ∀ v ∈ vs, v.Distinct) : plainAll vs = finiteAll vs := by
  match vs with
  | [] => rfl
  | v :: vs =>
    obtain ⟨hv, hvs⟩ := List.forall_mem_cons.mp h
    rw [plainAll, finiteAll, plain_eq_finite v hv, plainAll_eq vs hvs]

theorem plainFields_eq (fs : List (String × Value)) (h : ∀ f ∈ fs, f.2.Distinct) :
    plainFields fs = finiteFields fs := by
  match fs with
  | [] => rfl
  | (name, v) :: fs =>
    obtain ⟨hv, hfs⟩ := List.forall_mem_cons.mp h
    rw [plainFields, finiteFields, plain_eq_finite v hv, plainFields_eq fs hfs]

end

end Value

/-! ## The values of trees -/

namespace Tree

theorem produceAll_eq_map (ts : List Tree) : produceAll ts = ts.map produce := by
  induction ts with
  | nil => rfl
  | cons t ts ih => rw [produceAll, ih, List.map_cons]

theorem produceFields_eq_map (fs : List (String × Tree)) : produceFields fs = fs.map fun f => (f.1, f.2.produce) := by
  induction fs with
  | nil => rfl
  | cons f fs ih =>
    obtain ⟨name, t⟩ := f
    rw [produceFields, ih, List.map_cons]

theorem names_produceFields (fs : List (String × Tree)) : Fields.names (produceFields fs) = Fields.names fs := by
  rw [produceFields_eq_map, Fields.names_map]

theorem Distinct.produce {t : Tree} (h : t.Distinct) : t.produce.Distinct := by
  induction h with
  | scalar s => exact .ofScalar s
  | object hd _ ih =>
    rw [Tree.produce]
    refine .object ((names_produceFields _).symm ▸ hd) ?_
    rw [produceFields_eq_map, List.forall_mem_map]
    exact ih
  | array _ ih =>
    rw [Tree.produce, produceAll_eq_map]
    refine .array ?_
    rw [List.forall_mem_map]
    exact ih

end Tree

end ObjectExpr
