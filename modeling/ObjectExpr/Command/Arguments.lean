/-
  ObjectExpr.Command.Arguments — the arguments of the command. Options and expressions may be mixed;
  two dashes end the options; one dash, and nothing at all, are expressions. Help and version are given
  as soon as they are asked for. An option that is unknown, given twice, given a value it does not take
  or none that it needs is a misuse. A value that follows its option does not start with a dash.
-/

import ObjectExpr.Document

namespace ObjectExpr.Command

structure Options where
  yaml : Bool
  envFile : Option String
  expressions : List String
  deriving DecidableEq, Repr

inductive Choice
  | help
  | version
  | misuse
  | run (options : Options)
  deriving DecidableEq, Repr

inductive Argument
  | expression
  | endOfOptions
  | help
  | version
  | yaml
  | envFile (value : Option String)
  | unknown
  deriving DecidableEq, Repr

/-- An option that starts with two dashes, with what stands behind an equals sign. -/
def Argument.ofLongOption (name : String) (value : Option String) : Argument :=
  if name = "env-file" then envFile value
  else if value.isSome then unknown
  else if name = "yaml" then yaml
  else if name = "help" then help
  else if name = "version" then version
  else unknown

def Argument.classify (arg : String) : Argument :=
  match arg.toList with
  | [] | ['-'] => expression
  | ['-', '-'] => endOfOptions
  | '-' :: '-' :: cs =>
    let name := String.ofList (cs.takeWhile (· != '='))
    match cs.dropWhile (· != '=') with
    | [] => ofLongOption name none
    | _ :: value => ofLongOption name (some (String.ofList value))
  | '-' :: 'h' :: _ => help
  | '-' :: 'V' :: _ => version
  | '-' :: _ => unknown
  | _ => expression

namespace Options

def initial : Options := ⟨false, none, []⟩

def format (o : Options) : Format := if o.yaml then .yaml else .json

/-- With an env file, if it has a name and is the first. -/
def withEnvFile? (o : Options) (path : String) : Option Options :=
  if o.envFile.isSome || path.isEmpty then none else some { o with envFile := some path }

def readFrom (o : Options) : List String → Choice
  | [] => .run o
  | arg :: rest =>
    match Argument.classify arg with
    | .expression => readFrom { o with expressions := o.expressions ++ [arg] } rest
    | .endOfOptions => .run { o with expressions := o.expressions ++ rest }
    | .help => .help
    | .version => .version
    | .unknown => .misuse
    | .yaml => if o.yaml then .misuse else readFrom { o with yaml := true } rest
    | .envFile (some path) =>
      match o.withEnvFile? path with
      | some o => readFrom o rest
      | none => .misuse
    | .envFile none =>
      match rest with
      | [] => .misuse
      | path :: rest =>
        if Argument.classify path = .expression then
          match o.withEnvFile? path with
          | some o => readFrom o rest
          | none => .misuse
        else .misuse

end Options

def Choice.read (args : List String) : Choice := Options.initial.readFrom args

end ObjectExpr.Command
