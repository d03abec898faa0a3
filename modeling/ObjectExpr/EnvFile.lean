/-
  ObjectExpr.EnvFile — variables from a file. Its lines are applied one after another up to the first
  that is malformed. A variable that is already set keeps its value, so of a name that the file sets
  twice the first value counts. A variable named in a value stands for what it is set to by then; if it
  is not set, for what the file last said of it. A line that sets a variable to what no variable can
  hold, a text with a NUL in it, is the end of more than the file (`Verdict.unsettable`).
-/

import ObjectExpr.EnvFile.Assignment
import ObjectExpr.EnvFile.Line
import ObjectExpr.Environment

namespace ObjectExpr.EnvFile

/-- The environment, and what the file has said so far. -/
structure Loading where
  environment : Environment
  said : List (String × String)
  deriving DecidableEq, Repr

/-- How the loading of a file ends. -/
inductive Verdict
  /-- Every line is applied. -/
  | complete
  /-- There is a line that cannot be read. -/
  | faulty
  /-- There is a line that asks for a value that no variable can have. -/
  | unsettable
  deriving DecidableEq, Repr

namespace Loading

def pieceText (l : Loading) : Piece → List Char
  | .char c => [c]
  | .named name => (((l.environment.lookup name).or (l.said.lookup name)).getD "").toList

def valueText (l : Loading) (pieces : List Piece) : String := String.ofList (pieces.flatMap l.pieceText)

def assign? (l : Loading) (a : Assignment) : Option Loading :=
  (l.environment.add? a.name (l.valueText a.value)).map (⟨·, (a.name, l.valueText a.value) :: l.said⟩)

/-- Applies lines up to the first that cannot be. -/
def apply (l : Loading) : List (List Char) → Loading × Verdict
  | [] => (l, .complete)
  | line :: lines =>
    match Line.read line with
    | .nothing => l.apply lines
    | .malformed => (l, .faulty)
    | .sets a =>
      match l.assign? a with
      | none => (l, .unsettable)
      | some l => l.apply lines

end Loading

/-- The environment with the variables of a file, and how its loading ends. -/
def load (env : Environment) (bytes : List UInt8) : Environment × Verdict :=
  let (lines, sound) := logicalLines bytes
  let (l, verdict) := (Loading.mk env []).apply lines
  (l.environment, if verdict = .complete && !sound then .faulty else verdict)

end ObjectExpr.EnvFile
