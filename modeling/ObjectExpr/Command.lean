/-
  ObjectExpr.Command — one run of the command, given what is around it: the environment, the files that
  can be read, and what is piped in. First the variables of the env file are added (`environment`), then
  the input is read if there are no expressions (`input`), then the documents are written (`answer`). An
  env file that is missing is no matter; one that cannot be read or is not well formed is worth a
  warning; one that sets a variable to what none can hold ends the run before anything is read.
-/

import ObjectExpr.Command.Arguments
import ObjectExpr.Command.Directory
import ObjectExpr.Command.Help
import ObjectExpr.EnvFile
import ObjectExpr.Request

namespace ObjectExpr.Command

structure World where
  environment : Environment
  entry : String → Entry
  /-- What is piped in; nothing at a terminal. -/
  input : Option (List UInt8)

def defaultEnvFile : String := ".env"

/-- The environment with the variables of the env file, and how its loading ends. -/
def Options.environment (o : Options) (w : World) : Environment × EnvFile.Verdict :=
  match w.entry (o.envFile.getD defaultEnvFile) with
  | .missing => (w.environment, .complete)
  | .unreadable => (w.environment, .faulty)
  | .file bytes => EnvFile.load w.environment bytes

/-- The input as text; only read where there are no expressions. -/
def Options.input (o : Options) (w : World) : Except RequestError (Option String) :=
  match o.expressions, w.input with
  | [], some bytes =>
    match Text.decode? bytes with
    | some cs => .ok (some (String.ofList cs))
    | none => .error .unreadable
  | _, _ => .ok none

def Options.answer (o : Options) (w : World) : Except RequestError String :=
  match o.input w with
  | .error e => .error e
  | .ok input => Request.answer (o.environment w).1.lookup ⟨o.expressions, input, o.format⟩

inductive Outcome
  | misuse
  | shown (text : String)
  /-- Given up over the env file. -/
  | abandoned
  | answered (warned : Bool) (answer : Except RequestError String)

def run (w : World) (args : List String) : Outcome :=
  match Choice.read args with
  | .help => .shown helpText
  | .version => .shown versionText
  | .misuse => .misuse
  | .run o =>
    match (o.environment w).2 with
    | .complete => .answered false (o.answer w)
    | .faulty => .answered true (o.answer w)
    | .unsettable => .abandoned

namespace Outcome

def exitCode : Outcome → Nat
  | misuse => 2
  | shown _ => 0
  | abandoned => 101
  | answered _ (.ok _) => 0
  | answered _ (.error _) => 1

def output : Outcome → String
  | shown text => text
  | answered _ (.ok text) => text
  | _ => ""

/-- The report of what went wrong, but for a misuse. -/
def report : Outcome → String
  | answered _ (.error e) => "error: " ++ e.message ++ "\n"
  | _ => ""

/-- Whether a warning about the env file goes before everything else. -/
def warned : Outcome → Bool
  | abandoned => true
  | answered warned _ => warned
  | _ => false

end Outcome

end ObjectExpr.Command
