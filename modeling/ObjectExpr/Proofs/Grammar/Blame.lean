/-
  ObjectExpr.Proofs.Grammar.Blame — what a refused word is blamed for. Whatever state refuses it, the fault
  tells of that word: its kind where another was wanted, its text where it stands for no value, or that it
  opens one level too many (`blames_step`). So a word is never blamed for the end of the text, nor for a quote
  that is never closed.
-/

import ObjectExpr.Expression.Parser

namespace ObjectExpr.Parser

/-- The marks that open a level. -/
inductive OpensLevel : Mark → Prop
  | object : OpensLevel .objectOpen
  | array : OpensLevel .arrayOpen
  | dot : OpensLevel .dot

/-- The fault tells of the word. -/
inductive Blames : Word → Fault → Prop
  | unexpected (w : Word) : Blames w (.unexpected w.kind)
  | expected (wanted : Kind) (w : Word) : Blames w (.expected wanted w.kind)
  | invalidRaw (e : InvalidRaw) : Blames (.raw e.text) (.invalidRaw e)
  | tooDeep {m : Mark} : OpensLevel m → Blames (.mark m) .tooDeep

/-- Where this refuses, the word is to blame. -/
def RefusesFor (w : Word) {α : Type} (x : Except Refusal α) : Prop := ∀ r, x = .error r → Blames w r.fault

section

variable {α : Type} {w : Word}

theorem refusesFor_ok (a : α) : RefusesFor w (.ok a : Except Refusal α) := fun _ h => nomatch h

theorem refusesFor_refuse {fault : Fault} (h : Blames w fault) : RefusesFor w (refuse fault : Except Refusal α) := by
  intro r hr
  cases hr
  exact h

theorem refusesFor_unexpected (w : Word) : RefusesFor w (unexpected w : Except Refusal α) :=
  refusesFor_refuse (.unexpected w)

theorem refusesFor_expected (wanted : Kind) (w : Word) : RefusesFor w (expected wanted w : Except Refusal α) := by
  intro r hr
  cases hr
  exact .expected wanted w

end

/-- The text of an invalid literal is the text that was read. -/
theorem text_of_ofText {text : String} {e : InvalidRaw} (h : Typed.ofText text = .error e) : e.text = text := by
  unfold Typed.ofText at h
  split at h
  · cases h
  · next e' he =>
    cases h
    unfold Scalar.ofRaw at he
    split at he
    · cases he
    · cases he
      rfl

namespace State

variable (s : State) (w : Word)

theorem refusesFor_descend {m : Mark} (hm : OpensLevel m) (inner : State) : RefusesFor (.mark m) (s.descend inner) := by
  unfold descend
  split
  · exact refusesFor_ok _
  · exact refusesFor_refuse (.tooDeep hm)

theorem refusesFor_root (done : List Term) : RefusesFor w (s.root done w) := by
  unfold root
  split
  · exact refusesFor_descend s .object _
  · exact refusesFor_descend s .array _
  · exact refusesFor_unexpected _

theorem refusesFor_term (hole : Hole) : RefusesFor w (s.term hole w) := by
  unfold term
  split
  · exact refusesFor_ok _
  · next text =>
    split
    · exact refusesFor_ok _
    · next e he =>
      obtain rfl := text_of_ofText he
      exact refusesFor_refuse (.invalidRaw e)
  · exact refusesFor_ok _
  · exact refusesFor_descend s .object _
  · exact refusesFor_descend s .array _
  · exact refusesFor_unexpected _

theorem refusesFor_element (done : List Element) : RefusesFor w (s.element done w) := by
  unfold element
  split
  · exact refusesFor_ok _
  · split
    · exact refusesFor_ok _
    · exact refusesFor_unexpected _
  · exact refusesFor_term s _ _

theorem refusesFor_field (done : List Field) : RefusesFor w (s.field done w) := by
  unfold field
  split
  · exact refusesFor_ok _
  · exact refusesFor_ok _
  · exact refusesFor_expected _ _
  · split
    · exact refusesFor_root s _ _
    · exact refusesFor_unexpected _

theorem refusesFor_afterName (owner : Owner) (path : Path) : RefusesFor w (s.afterName owner path w) := by
  unfold afterName
  split
  · exact refusesFor_ok _
  · exact refusesFor_descend s .dot _
  · split
    · exact refusesFor_element s _ _
    · exact refusesFor_unexpected _

theorem refusesFor_afterDot (owner : Owner) (path : Path) : RefusesFor w (s.afterDot owner path w) := by
  unfold afterDot
  split
  · exact refusesFor_ok _
  · exact refusesFor_expected _ _

/-- A state refuses a word only for what the word is. -/
theorem blames_step {s : State} {w : Word} {r : Refusal} (h : s.step w = .error r) : Blames w r.fault := by
  suffices RefusesFor w (s.step w) from this r h
  unfold step
  split
  · exact refusesFor_root s w _
  · exact refusesFor_field s w _
  · exact refusesFor_element s w _
  · exact refusesFor_afterName s w _ _
  · exact refusesFor_afterDot s w _ _
  · exact refusesFor_term s w _

end State

end ObjectExpr.Parser
