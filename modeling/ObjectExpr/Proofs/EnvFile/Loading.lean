/-
  ObjectExpr.Proofs.EnvFile.Loading — what the lines of an env file do to the environment. A variable that is
  set keeps its value whatever the lines are (`lookup_apply_of_some`). One that is not gets its value from the
  first line that sets it; a line that is malformed ends this. No other variable changes
  (`value?_apply_of_not_set`). What a line has said of a variable is never asked for, since the variable is
  set by then (`Loading.Settled`), so a value stands for its text in the environment behind the lines before
  it (`valueText_eq`). These say what every variable is in the end (`Extends`, `Extends.lookup_eq`), and
  without a NUL in the lines it comes to that (`extends_after`).
-/

import ObjectExpr.Proofs.EnvFile.Assignments

namespace ObjectExpr

/-! ## Variables -/

theorem Text.zero_notMem_encode {cs : List Char} (h : '\x00' ∉ cs) : 0 ∉ encode cs := by
  intro hz
  obtain ⟨c, hc, hn⟩ := exists_toNat_of_mem_encode hz (by decide)
  obtain rfl : c = '\x00' := Char.toNat_inj.mp hn
  exact h hc

namespace Environment

/-- The bytes that a variable is set to, be they text or not. -/
def value? (env : Environment) (name : String) : Option (List UInt8) := env.entries.findSome? (valueIn? name)

variable {env env' : Environment} {name value : String}

theorem equalsSign_notMem_of_isName (h : isName name = true) : '=' ∉ name.toList := by
  simp only [isName, Bool.and_eq_true, Bool.not_eq_true', List.contains_eq_mem, decide_eq_false_iff_not] at h
  exact h.2

theorem lookup_congr (h : env'.value? name = env.value? name) : env'.lookup name = env.lookup name := by
  rw [lookup, lookup, ← value?, ← value?, h]

/-- A variable can be set to any text without a NUL. -/
theorem exists_add? (env : Environment) (hname : isName name = true) (hn : '\x00' ∉ name.toList)
    (hv : '\x00' ∉ value.toList) : ∃ env', env.add? name value = some env' := by
  have hfree : isNulFree (entryOf name (Text.encode value.toList)) = true := by
    rw [isNulFree, entryOf, List.all_eq_true]
    intro b hb
    have hzero : b ≠ 0 := by
      rintro rfl
      rcases List.mem_append.mp hb with hb | hb
      · exact Text.zero_notMem_encode hn hb
      rcases List.mem_cons.mp hb with hb | hb
      · cases hb
      · exact Text.zero_notMem_encode hv hb
    simpa using hzero
  unfold add?
  split
  · exact ⟨env, rfl⟩
  · rw [dif_pos ⟨hname, hfree⟩]
    exact ⟨_, rfl⟩

theorem value?_of_add? (h : env.add? name value = some env') {other : String} (ho : '=' ∉ other.toList)
    (hne : other ≠ name) : env'.value? other = env.value? other := by
  simp only [add?] at h
  split at h
  · obtain rfl := Option.some.inj h
    rfl
  split at h
  · next hv =>
    obtain rfl := Option.some.inj h
    simp [value?, valueIn?_entryOf (equalsSign_notMem_of_isName hv.1) ho, hne]
  · cases h

end Environment

namespace EnvFile

/-! ## One line -/

def pieceIn (env : Environment) : Piece → List Char
  | .char c => [c]
  | .named name => ((env.lookup name).getD "").toList

/-- What a value stands for in an environment. -/
def textIn (env : Environment) (pieces : List Piece) : String := String.ofList (pieces.flatMap (pieceIn env))

theorem nul_notMem_textIn (env : Environment) {pieces : List Piece} (hp : .char '\x00' ∉ pieces) :
    '\x00' ∉ (textIn env pieces).toList := by
  rw [textIn, String.toList_ofList]
  intro hc
  obtain ⟨piece, hpiece, hc⟩ := List.mem_flatMap.mp hc
  cases piece with
  | char c =>
    obtain rfl := List.mem_singleton.mp hc
    exact hp hpiece
  | named name =>
    rw [pieceIn] at hc
    cases he : env.lookup name with
    | some value =>
      rw [he] at hc
      exact (Environment.lookup_nulFree he).2 hc
    | none =>
      rw [he] at hc
      cases hc

namespace Loading

variable {l l' : Loading} {a : Assignment} {name value : String}

/-- Whatever the file has said of a variable, the variable is set by now. -/
def Settled (l : Loading) : Prop :=
  ∀ name value, l.said.lookup name = some value →
    Environment.isName name = true ∧ (l.environment.lookup name).isSome = true

theorem valueText_eq (hl : l.Settled) (pieces : List Piece) : l.valueText pieces = textIn l.environment pieces := by
  have hpiece : l.pieceText = pieceIn l.environment := by
    funext piece
    cases piece with
    | char c => rfl
    | named name =>
      rw [pieceText, pieceIn]
      cases he : l.environment.lookup name with
      | some value => rfl
      | none =>
        cases hs : l.said.lookup name with
        | none => rfl
        | some value =>
          have hset := (hl name value hs).2
          rw [he] at hset
          cases hset
  rw [valueText, textIn, hpiece]

theorem add?_of_assign? (h : l.assign? a = some l') :
    l.environment.add? a.name (l.valueText a.value) = some l'.environment ∧
      l'.said = (a.name, l.valueText a.value) :: l.said := by
  obtain ⟨env, he, rfl⟩ := Option.map_eq_some_iff.mp h
  exact ⟨he, rfl⟩

theorem lookup_of_assign? (h : l.assign? a = some l') (hn : '=' ∉ name.toList) :
    l'.environment.lookup name =
      (l.environment.lookup name).or (if name = a.name then some (l.valueText a.value) else none) :=
  Environment.lookup_of_add? (add?_of_assign? h).1 hn

theorem exists_assign? (hl : l.Settled) (ha : Settable a) : ∃ l', l.assign? a = some l' := by
  have hvalue : '\x00' ∉ (l.valueText a.value).toList := by
    rw [valueText_eq hl]
    exact nul_notMem_textIn _ ha.nul_notMem_value
  obtain ⟨env, he⟩ := l.environment.exists_add? ha.isName ha.nul_notMem_name hvalue
  exact ⟨_, by rw [Loading.assign?, he]; rfl⟩

theorem Settled.assign? (hl : l.Settled) (ha : Settable a) (h : l.assign? a = some l') : l'.Settled := by
  intro name value hv
  rw [(add?_of_assign? h).2, List.lookup_cons] at hv
  split at hv
  · next hname =>
    obtain rfl : name = a.name := by simpa using hname
    refine ⟨ha.isName, ?_⟩
    rw [lookup_of_assign? h (Environment.equalsSign_notMem_of_isName ha.isName), if_pos rfl]
    simp
  · obtain ⟨hname, hset⟩ := hl name value hv
    refine ⟨hname, ?_⟩
    rw [lookup_of_assign? h (Environment.equalsSign_notMem_of_isName hname), Option.isSome_or, hset, Bool.true_or]

/-! ## All lines -/

variable {line : List Char} {lines before : List (List Char)}

theorem apply_of_nothing (hr : Line.read line = .nothing) : l.apply (line :: lines) = l.apply lines := by
  rw [apply, hr]

theorem apply_of_malformed (hr : Line.read line = .malformed) : l.apply (line :: lines) = (l, .faulty) := by
  rw [apply, hr]

theorem apply_of_sets (hr : Line.read line = .sets a) (ha : l.assign? a = some l') :
    l.apply (line :: lines) = l'.apply lines := by
  simp only [apply, hr, ha]

theorem apply_of_unsettable (hr : Line.read line = .sets a) (ha : l.assign? a = none) :
    l.apply (line :: lines) = (l, .unsettable) := by
  simp only [apply, hr, ha]

/-- Lines without a NUL never ask for a value that no variable can have, and they are all applied if none of
    them is malformed. -/
theorem apply_of_nulFree (hl : l.Settled) (hlines : ∀ line ∈ lines, '\x00' ∉ line) :
    (l.apply lines).1.Settled ∧ (l.apply lines).2 ≠ .unsettable ∧
      ((∀ line ∈ lines, Line.read line ≠ .malformed) → (l.apply lines).2 = .complete) := by
  induction lines generalizing l with
  | nil => exact ⟨hl, nofun, fun _ => rfl⟩
  | cons line lines ih =>
    obtain ⟨hline, hlines⟩ := List.forall_mem_cons.mp hlines
    cases hr : Line.read line with
    | nothing =>
      obtain ⟨hsettled, hne, hall⟩ := ih hl hlines
      rw [apply_of_nothing hr]
      exact ⟨hsettled, hne, fun h => hall (List.forall_mem_cons.mp h).2⟩
    | malformed =>
      rw [apply_of_malformed hr]
      exact ⟨hl, nofun, fun h => absurd hr (h line List.mem_cons_self)⟩
    | sets a =>
      have hsettable := settable_of_read hline hr
      obtain ⟨l', ha⟩ := exists_assign? hl hsettable
      obtain ⟨hsettled, hne, hall⟩ := ih (hl.assign? hsettable ha) hlines
      rw [apply_of_sets hr ha]
      exact ⟨hsettled, hne, fun h => hall (List.forall_mem_cons.mp h).2⟩

/-- Lines that are all applied are applied before those behind them. -/
theorem apply_append (h : (l.apply before).2 = .complete) (lines : List (List Char)) :
    l.apply (before ++ lines) = (l.apply before).1.apply lines := by
  induction before generalizing l with
  | nil => rfl
  | cons line before ih =>
    rw [List.cons_append]
    cases hr : Line.read line with
    | nothing =>
      rw [apply_of_nothing hr] at h
      rw [apply_of_nothing hr, apply_of_nothing hr, ih h]
    | malformed =>
      rw [apply_of_malformed hr] at h
      cases h
    | sets a =>
      cases ha : l.assign? a with
      | none =>
        rw [apply_of_unsettable hr ha] at h
        cases h
      | some l' =>
        rw [apply_of_sets hr ha] at h
        rw [apply_of_sets hr ha, apply_of_sets hr ha, ih h]

/-- What is set stays as it is. -/
theorem lookup_apply_of_some (hn : '=' ∉ name.toList) (h : l.environment.lookup name = some value) :
    (l.apply lines).1.environment.lookup name = some value := by
  induction lines generalizing l with
  | nil => exact h
  | cons line lines ih =>
    cases hr : Line.read line with
    | nothing =>
      rw [apply_of_nothing hr]
      exact ih h
    | malformed =>
      rw [apply_of_malformed hr]
      exact h
    | sets a =>
      cases ha : l.assign? a with
      | none =>
        rw [apply_of_unsettable hr ha]
        exact h
      | some l' =>
        rw [apply_of_sets hr ha]
        refine ih ?_
        rw [lookup_of_assign? ha hn, h]
        rfl

end Loading

/-- Behind the lines `before`, none of which is malformed or sets the same variable, a line sets `a`. -/
structure FirstSet (lines before : List (List Char)) (a : Assignment) : Prop where
  split : ∃ line after, lines = before ++ line :: after ∧ Line.read line = .sets a
  sound : ∀ line ∈ before, Line.read line ≠ .malformed
  first : ∀ line ∈ before, ∀ b, Line.read line = .sets b → b.name ≠ a.name

theorem FirstSet.cons {line : List Char} {lines before : List (List Char)} {a : Assignment} (h : FirstSet lines before a)
    (hm : Line.read line ≠ .malformed) (hne : ∀ b, Line.read line = .sets b → b.name ≠ a.name) :
    FirstSet (line :: lines) (line :: before) a := by
  obtain ⟨here, after, rfl, hr⟩ := h.split
  exact ⟨⟨here, after, rfl, hr⟩, List.forall_mem_cons.mpr ⟨hm, h.sound⟩, List.forall_mem_cons.mpr ⟨hne, h.first⟩⟩

namespace Loading

/-- What no line sets before the first that is malformed stays as it is. -/
theorem value?_apply_of_not_set {l : Loading} {lines : List (List Char)} {name : String} (hn : '=' ∉ name.toList)
    (h : ∀ before a, FirstSet lines before a → a.name ≠ name) :
    (l.apply lines).1.environment.value? name = l.environment.value? name := by
  induction lines generalizing l with
  | nil => rfl
  | cons line lines ih =>
    cases hr : Line.read line with
    | nothing =>
      rw [apply_of_nothing hr]
      exact ih fun before a hf => h _ a (hf.cons (by rw [hr]; nofun) (by rw [hr]; nofun))
    | malformed => rw [apply_of_malformed hr]
    | sets b =>
      cases hb : l.assign? b with
      | none => rw [apply_of_unsettable hr hb]
      | some l' =>
        have hne : b.name ≠ name := h [] b ⟨⟨line, lines, rfl, hr⟩, nofun, nofun⟩
        have hrest : (l'.apply lines).1.environment.value? name = l'.environment.value? name := by
          refine ih fun before a hf ha => ?_
          refine h _ a (hf.cons (by rw [hr]; nofun) ?_) ha
          intro c hc
          rw [hr] at hc
          cases hc
          rwa [ha]
        rw [apply_of_sets hr hb, hrest, Environment.value?_of_add? (add?_of_assign? hb).1 hn hne.symm]

end Loading

/-! ## The environment in the end -/

/-- What lines make of an environment. -/
def after (env : Environment) (lines : List (List Char)) : Environment := ((Loading.mk env []).apply lines).1.environment

/-- The environment with the variables of some lines. -/
structure Extends (env : Environment) (lines : List (List Char)) (env' : Environment) : Prop where
  kept : ∀ name value, Environment.isName name = true → env.lookup name = some value → env'.lookup name = some value
  /-- A variable in the value stands for what it is set to by then, from the start or by a line before. -/
  added : ∀ before a, FirstSet lines before a → env.lookup a.name = none →
    env'.lookup a.name = some (textIn (after env before) a.value)
  rest : ∀ name, Environment.isName name = true → env.lookup name = none →
    (∀ before a, FirstSet lines before a → a.name ≠ name) → env'.value? name = env.value? name

/-- There is only one such environment, as far as variables go. -/
theorem Extends.lookup_eq {env env₁ env₂ : Environment} {lines : List (List Char)} (h₁ : Extends env lines env₁)
    (h₂ : Extends env lines env₂) {name : String} (hn : Environment.isName name = true) :
    env₁.lookup name = env₂.lookup name := by
  cases hset : env.lookup name with
  | some value => rw [h₁.kept name value hn hset, h₂.kept name value hn hset]
  | none =>
    by_cases hfirst : ∃ before a, FirstSet lines before a ∧ a.name = name
    · obtain ⟨before, a, ha, rfl⟩ := hfirst
      rw [h₁.added before a ha hset, h₂.added before a ha hset]
    · have hnone : ∀ before a, FirstSet lines before a → a.name ≠ name := fun before a ha he =>
        hfirst ⟨before, a, ha, he⟩
      exact Environment.lookup_congr ((h₁.rest name hn hset hnone).trans (h₂.rest name hn hset hnone).symm)

theorem Loading.settled_start (env : Environment) : (Loading.mk env []).Settled := nofun

/-- Lines without a NUL come to that environment. -/
theorem extends_after (env : Environment) {lines : List (List Char)} (hlines : ∀ line ∈ lines, '\x00' ∉ line) :
    Extends env lines (after env lines) where
  kept name value hn h := Loading.lookup_apply_of_some (Environment.equalsSign_notMem_of_isName hn) h
  rest name hn _ h := Loading.value?_apply_of_not_set (Environment.equalsSign_notMem_of_isName hn) h
  added before a ha h := by
    obtain ⟨line, rest, rfl, hr⟩ := ha.split
    obtain ⟨hbefore, hbehind⟩ := List.forall_mem_append.mp hlines
    have hn := Environment.equalsSign_notMem_of_isName (settable_of_read (hbehind line List.mem_cons_self) hr).isName
    obtain ⟨hsettled, -, hsound⟩ := Loading.apply_of_nulFree (Loading.settled_start env) hbefore
    have hall := Loading.apply_append (hsound ha.sound) (line :: rest)
    -- nothing before this line has set the variable, so it is this line that does
    have hunset : (after env before).lookup a.name = none := by
      rw [← h]
      refine Environment.lookup_congr (Loading.value?_apply_of_not_set hn ?_)
      rintro early b ⟨⟨here, later, rfl, hb⟩, -, -⟩
      exact ha.first here (List.mem_append_right _ List.mem_cons_self) b hb
    cases hassign : ((Loading.mk env []).apply before).1.assign? a with
    | none =>
      have hsettable := (Loading.apply_of_nulFree (Loading.settled_start env) hlines).2.1
      rw [hall, Loading.apply_of_unsettable hr hassign] at hsettable
      exact absurd rfl hsettable
    | some l =>
      have hvalue := Loading.lookup_of_assign? hassign hn
      rw [Loading.valueText_eq hsettled, if_pos rfl] at hvalue
      rw [after, hall, Loading.apply_of_sets hr hassign]
      refine Loading.lookup_apply_of_some hn (hvalue.trans ?_)
      show ((after env before).lookup a.name).or _ = _
      rw [hunset]
      rfl

end EnvFile

end ObjectExpr
