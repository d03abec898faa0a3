/-
  ObjectExpr.Proofs.Value.Equality — equality of values sees all but the order of fields. `Reordered` says what
  that is: in every object of the second value the fields can be put in an order in which both values have the
  same names, and at the leaves the same text, the same truth value or the same number; an integer is never
  the same as a float.

  `Value.equal` compares lengths and then looks the fields of one object up in the other, which asks back in
  its turn (`equalFrom_swap`: the flag only says which side asks). Where no name comes twice, this decides
  `Reordered` whichever side asks (`equalFrom_iff_reordered`). So it is symmetric (`equal_comm`), it is
  transitive with `Reordered` (`Reordered.trans`), and a value equals itself if it has no float that is
  not-a-number (`Reordered.refl`).
-/

import ObjectExpr.Proofs.Number.Comparison
import ObjectExpr.Proofs.Tree.Matching
import ObjectExpr.Proofs.Value.Plain

namespace ObjectExpr.Value

open Number (Binary64)

/-! ## But for the order of fields -/

/-- The same value but for the order of the fields of each object. -/
inductive Reordered : Value → Value → Prop
  | null : Reordered .null .null
  | boolean (b : Bool) : Reordered (.boolean b) (.boolean b)
  | integer (n : Int64) : Reordered (.integer n) (.integer n)
  | float {x y : Binary64} : x.SameNumber y → Reordered (.float x) (.float y)
  | string (s : String) : Reordered (.string s) (.string s)
  | array {vs ws : List Value} : List.Forall₂ Reordered vs ws → Reordered (.array vs) (.array ws)
  | object {fs gs hs : List (String × Value)} : List.Forall₂ (Fields.SameName Reordered) fs gs → gs.Perm hs →
      Reordered (.object fs) (.object hs)

/-- No float in the value is not-a-number. -/
inductive NanFree : Value → Prop
  | null : NanFree .null
  | boolean (b : Bool) : NanFree (.boolean b)
  | integer (n : Int64) : NanFree (.integer n)
  | float {x : Binary64} : x.isNaN = false → NanFree (.float x)
  | string (s : String) : NanFree (.string s)
  | array {vs : List Value} : (∀ v ∈ vs, NanFree v) → NanFree (.array vs)
  | object {fs : List (String × Value)} : (∀ f ∈ fs, NanFree f.2) → NanFree (.object fs)

theorem reordered_float_iff {x y : Binary64} : Reordered (.float x) (.float y) ↔ x.SameNumber y := by
  refine ⟨fun h => ?_, .float⟩
  cases h with
  | float h => exact h

theorem reordered_array_iff {vs ws : List Value} : Reordered (.array vs) (.array ws) ↔ List.Forall₂ Reordered vs ws := by
  refine ⟨fun h => ?_, .array⟩
  cases h with
  | array h => exact h

theorem reordered_object_iff {fs gs : List (String × Value)} (hd : (Fields.names fs).Nodup) (hd' : (Fields.names gs).Nodup) :
    Reordered (.object fs) (.object gs) ↔ Fields.Matched Reordered fs gs := by
  rw [Fields.matched_iff_exists_perm hd hd']
  constructor
  · intro h
    cases h with
    | object hf hp => exact ⟨_, hf, hp⟩
  · rintro ⟨hs, hf, hp⟩
    exact .object hf hp

theorem Reordered.refl {v : Value} (h : v.NanFree) : Reordered v v := by
  induction h with
  | null => exact .null
  | boolean b => exact .boolean b
  | integer n => exact .integer n
  | float hx => exact .float (.self hx)
  | string s => exact .string s
  | array _ ih => exact .array (List.forall₂_same.mpr ih)
  | object _ ih => exact .object (List.forall₂_same.mpr fun f hf => .mk f.1 (ih f hf)) (.refl _)

theorem sizeOf_lt_array {vs : List Value} {v : Value} (h : v ∈ vs) : sizeOf v < sizeOf (array vs) := by
  have := List.sizeOf_lt_of_mem h
  simp only [array.sizeOf_spec]
  omega

theorem sizeOf_lt_object {fs : List (String × Value)} {f : String × Value} (h : f ∈ fs) :
    sizeOf f.2 < sizeOf (object fs) := by
  obtain ⟨name, v⟩ := f
  have := List.sizeOf_lt_of_mem h
  simp only [object.sizeOf_spec, Prod.mk.sizeOf_spec] at this ⊢
  omega

/-- Induction over the parts of a value. -/
theorem parts_induction {motive : Value → Prop} (null : motive .null) (boolean : ∀ b, motive (.boolean b))
    (integer : ∀ n, motive (.integer n)) (float : ∀ x, motive (.float x)) (string : ∀ s, motive (.string s))
    (array : ∀ vs, (∀ v ∈ vs, motive v) → motive (.array vs))
    (object : ∀ fs, (∀ f ∈ fs, motive f.2) → motive (.object fs)) (v : Value) : motive v :=
  match v with
  | .null => null
  | .boolean b => boolean b
  | .integer n => integer n
  | .float x => float x
  | .string s => string s
  | .array vs => array vs fun v _ => parts_induction null boolean integer float string array object v
  | .object fs => object fs fun f _ => parts_induction null boolean integer float string array object f.2
termination_by sizeOf v
decreasing_by
  · exact sizeOf_lt_array ‹_›
  · exact sizeOf_lt_object ‹_›

theorem Reordered.trans {u v w : Value} (h : Reordered u v) (h' : Reordered v w) : Reordered u w := by
  induction u using parts_induction generalizing v w with
  | null => cases h; exact h'
  | boolean b => cases h; exact h'
  | integer n => cases h; exact h'
  | string s => cases h; exact h'
  | float x =>
    cases h with
    | float hxy =>
      cases h' with
      | float hyz => exact .float (hxy.trans hyz)
  | array us ih =>
    cases h with
    | array hu =>
      cases h' with
      | array hv => exact .array (forall₂_trans_of_mem hu hv fun u hu _ _ => ih u hu)
  | object fs ih =>
    cases h with
    | object hf hp =>
      cases h' with
      | object hg hq =>
        -- the second reordering acts on the fields as the first left them
        obtain ⟨ks, hk, hkp⟩ := List.perm_comp_forall₂ hp hg
        refine .object (forall₂_trans_of_mem hf hk ?_) (hkp.trans hq)
        intro f hmem g k hfg hgk
        cases hfg with
        | mk name ha =>
          cases hgk with
          | mk _ hb => exact .mk name (ih _ hmem ha hb)

/-! ## Which side asks -/

variable {fs gs : List (String × Value)}

theorem holds_eq (fs : List (String × Value)) (name : String) (b : Value) :
    holds fs name b = (Fields.get? fs name).elim false fun a => equalFrom false a b := by
  induction fs with
  | nil => rw [holds, Fields.get?_nil, Option.elim_none]
  | cons f fs ih =>
    obtain ⟨n, a⟩ := f
    rw [holds, Fields.get?_cons]
    by_cases h : n = name
    · rw [if_pos h, if_pos h.symm]
      rfl
    · rw [if_neg h, if_neg (Ne.symm h), ih]

theorem covered_eq (fs gs : List (String × Value)) :
    covered fs gs = fs.all fun f => (Fields.get? gs f.1).elim false fun b => equalFrom true f.2 b := by
  induction fs with
  | nil => rw [covered, List.all_nil]
  | cons f fs ih =>
    obtain ⟨name, a⟩ := f
    rw [covered, ih, List.all_cons]
    cases Fields.get? gs name <;> rfl

theorem equalFrom_object (swap : Bool) (fs gs : List (String × Value)) :
    equalFrom swap (.object fs) (.object gs) =
      (fs.length == gs.length && if swap then gs.all fun g => (Fields.get? fs g.1).elim false fun a => equalFrom false a g.2
        else fs.all fun f => (Fields.get? gs f.1).elim false fun b => equalFrom true f.2 b) := by
  rw [equalFrom, covered_eq]
  simp only [holds_eq]

theorem equalAll_swap {vs ws : List Value} {swap : Bool} (h : ∀ v ∈ vs, ∀ w, equalFrom (!swap) v w = equalFrom swap w v) :
    equalAll (!swap) vs ws = equalAll swap ws vs := by
  induction vs generalizing ws with
  | nil => cases ws <;> simp [equalAll]
  | cons v vs ih =>
    obtain ⟨hv, h⟩ := List.forall_mem_cons.mp h
    cases ws with
    | nil => simp [equalAll]
    | cons w ws => rw [equalAll, equalAll, hv, ih h]

/-- The flag only says which of the two values asks. -/
theorem equalFrom_swap (swap : Bool) (v w : Value) : equalFrom (!swap) v w = equalFrom swap w v := by
  induction v using parts_induction generalizing swap w with
  | null => cases w <;> simp [equalFrom]
  | boolean b =>
    cases w with
    | boolean b' => rw [equalFrom, equalFrom, Bool.beq_comm]
    | _ => simp [equalFrom]
  | integer n =>
    cases w with
    | integer m => rw [equalFrom, equalFrom, Bool.beq_comm]
    | _ => simp [equalFrom]
  | float x =>
    cases w with
    | float y => rw [equalFrom, equalFrom, Binary64.equal_comm]
    | _ => simp [equalFrom]
  | string s =>
    cases w with
    | string t => rw [equalFrom, equalFrom, Bool.beq_comm]
    | _ => simp [equalFrom]
  | array vs ih =>
    cases w with
    | array ws =>
      rw [equalFrom, equalFrom]
      exact equalAll_swap fun v hv w => ih v hv swap w
    | _ => simp [equalFrom]
  | object fs ih =>
    cases w with
    | object gs =>
      rw [equalFrom_object, equalFrom_object, Bool.beq_comm]
      cases swap with
      | false =>
        simp only [Bool.not_false, if_true, Bool.false_eq_true, if_false]
        refine congrArg _ (congrArg gs.all (funext fun g => ?_))
        cases ha : Fields.get? fs g.1 with
        | none => rfl
        | some a => exact ih _ (Fields.mem_of_get? ha) true g.2
      | true =>
        simp only [Bool.not_true, if_true, Bool.false_eq_true, if_false]
        have hfield : ∀ f ∈ fs, ((Fields.get? gs f.1).elim false fun b => equalFrom false b f.2) =
            (Fields.get? gs f.1).elim false fun b => equalFrom true f.2 b := by
          intro f hf
          cases Fields.get? gs f.1 with
          | none => rfl
          | some b => exact (ih f hf false b).symm
        rw [Bool.eq_iff_iff]
        simp only [Bool.and_eq_true, List.all_eq_true]
        exact and_congr_right fun _ => forall₂_congr fun f hf => by rw [hfield f hf]
    | _ => simp [equalFrom]

/-- The fields of the left are looked up on the right, where the right asks. -/
theorem equal_object (fs gs : List (String × Value)) :
    equal (.object fs) (.object gs) =
      (fs.length == gs.length && fs.all fun f => (Fields.get? gs f.1).elim false fun b => b.equal f.2) := by
  rw [equal, equalFrom_object]
  simp only [Bool.false_eq_true, if_false, equal, ← equalFrom_swap false, Bool.not_false]

/-! ## What it sees -/

theorem equalAll_iff {vs ws : List Value} {swap : Bool} :
    equalAll swap vs ws = true ↔ List.Forall₂ (fun v w => equalFrom swap v w = true) vs ws := by
  induction vs generalizing ws with
  | nil => cases ws <;> simp [equalAll]
  | cons v vs ih =>
    cases ws with
    | nil => simp [equalAll]
    | cons w ws => rw [equalAll, Bool.and_eq_true, ih, List.forall₂_cons]

theorem equalAll_eq_false {vs ws : List Value} {swap : Bool} (h : vs.length ≠ ws.length) :
    equalAll swap vs ws = false := by
  rw [Bool.eq_false_iff, Ne, equalAll_iff]
  exact fun hf => h hf.length_eq

theorem elim_eq_true_iff {α : Type} {x : Option α} {p : α → Bool} :
    (x.elim false p) = true ↔ ∃ a, x = some a ∧ p a = true := by
  cases x <;> simp

/-- Whichever side asks, its fields are looked up on the other, and there the other side asks. -/
theorem equalFrom_object_iff (hd : (Fields.names fs).Nodup) (hd' : (Fields.names gs).Nodup) (swap : Bool) :
    equalFrom swap (.object fs) (.object gs) = true ↔ Fields.Matched (fun v w => equalFrom (!swap) v w = true) fs gs := by
  rw [equalFrom_object, Bool.and_eq_true, beq_iff_eq]
  cases swap with
  | false =>
    simp only [Bool.false_eq_true, if_false, List.all_eq_true, elim_eq_true_iff]
    rw [Fields.matched_iff hd, Bool.not_false]
  | true =>
    simp only [if_true, List.all_eq_true, elim_eq_true_iff]
    rw [Fields.matched_swap_iff, Fields.matched_iff hd', Bool.not_true, eq_comm]

/-- Where no name comes twice, equality sees all but the order of fields, whichever side asks. -/
theorem equalFrom_iff_reordered {v w : Value} (hv : v.Distinct) (hw : w.Distinct) (swap : Bool) :
    equalFrom swap v w = true ↔ Reordered v w := by
  induction hv generalizing swap w with
  | null =>
    cases w with
    | null => exact iff_of_true (by rw [equalFrom]) .null
    | _ => exact iff_of_false (by simp [equalFrom]) (fun h => by cases h)
  | boolean b =>
    cases w with
    | boolean b' =>
      rw [equalFrom, beq_iff_eq]
      exact ⟨fun h => h ▸ .boolean b, fun h => by cases h; rfl⟩
    | _ => exact iff_of_false (by simp [equalFrom]) (fun h => by cases h)
  | integer n =>
    cases w with
    | integer m =>
      rw [equalFrom, beq_iff_eq]
      exact ⟨fun h => h ▸ .integer n, fun h => by cases h; rfl⟩
    | _ => exact iff_of_false (by simp [equalFrom]) (fun h => by cases h)
  | float x =>
    cases w with
    | float y =>
      rw [equalFrom, Binary64.equal_iff, reordered_float_iff]
    | _ => exact iff_of_false (by simp [equalFrom]) (fun h => by cases h)
  | string s =>
    cases w with
    | string t =>
      rw [equalFrom, beq_iff_eq]
      exact ⟨fun h => h ▸ .string s, fun h => by cases h; rfl⟩
    | _ => exact iff_of_false (by simp [equalFrom]) (fun h => by cases h)
  | array _ ih =>
    cases w with
    | array ws =>
      rw [equalFrom, equalAll_iff, reordered_array_iff]
      exact forall₂_congr_of_mem fun v hv w hmem => ih v hv (distinct_array_iff.mp hw w hmem) swap
    | _ => exact iff_of_false (by simp [equalFrom]) (fun h => by cases h)
  | @object fs hd _ ih =>
    cases w with
    | object gs =>
      obtain ⟨hd', hg⟩ := distinct_object_iff.mp hw
      rw [reordered_object_iff hd hd', equalFrom_object_iff hd hd']
      exact Fields.matched_congr hd fun f hf g hmem => ih f hf (hg g hmem) _
    | _ => exact iff_of_false (by simp [equalFrom]) (fun h => by cases h)

theorem equal_iff_reordered {v w : Value} (hv : v.Distinct) (hw : w.Distinct) : v.equal w = true ↔ Reordered v w :=
  equalFrom_iff_reordered hv hw false

theorem equal_comm {v w : Value} (hv : v.Distinct) (hw : w.Distinct) : v.equal w = w.equal v := by
  rw [Bool.eq_iff_iff, equal_iff_reordered hv hw, equal, ← equalFrom_swap]
  exact (equalFrom_iff_reordered hv hw true).symm

end ObjectExpr.Value
