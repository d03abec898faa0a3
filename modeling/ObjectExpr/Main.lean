/-
  ObjectExpr.Main — the command line: gathers what is around the program, runs `Command.run` on it, and
  prints what comes out.
-/

import ObjectExpr.Command

namespace ObjectExpr.Command

/-- The pieces of some bytes between the NULs. -/
def betweenNuls : List UInt8 → List (List UInt8)
  | [] => []
  | b :: bytes => if b = 0 then [] :: betweenNuls bytes else Text.consLine b (betweenNuls bytes)

/-- The variables of this process. -/
def readEnvironment : IO Environment := do
  try
    let bytes ← IO.FS.readBinFile "/proc/self/environ"
    return .ofEntries (betweenNuls bytes.toList)
  catch _ => return .empty

def readEntry (path : String) : IO Entry := do
  try
    return .file (← IO.FS.readBinFile path).toList
  catch
    | .noFileOrDirectory .. => return .missing
    | _ => return .unreadable

partial def readToEnd (stream : IO.FS.Stream) (read : ByteArray) : IO ByteArray := do
  let bytes ← stream.read 65536
  if bytes.isEmpty then return read
  readToEnd stream (read ++ bytes)

def readInput : IO (Option (List UInt8)) := do
  let stdin ← IO.getStdin
  if ← stdin.isTty then return none
  return some (← readToEnd stdin .empty).toList

/-- What is around the program, as far as these options look at it. -/
def Options.world (o : Options) : IO World := do
  let entry ← readEntry (o.envFile.getD defaultEnvFile)
  let input ← if o.expressions.isEmpty then readInput else pure none
  return ⟨← readEnvironment, fun _ => entry, input⟩

def World.empty : World := ⟨.empty, fun _ => .missing, none⟩

def Choice.world : Choice → IO World
  | .run o => o.world
  | _ => return .empty

def Outcome.print (outcome : Outcome) : IO UInt32 := do
  let stderr ← IO.getStderr
  if outcome.warned then stderr.putStrLn "warning: failed to load env file"
  if outcome.exitCode = 2 then stderr.putStrLn "error: invalid arguments. For more information, try '--help'."
  stderr.putStr outcome.report
  let stdout ← IO.getStdout
  stdout.putStr outcome.output
  stdout.flush
  return UInt32.ofNat outcome.exitCode

end ObjectExpr.Command

open ObjectExpr.Command

def main (args : List String) : IO UInt32 := do
  let world ← (Choice.read args).world
  (run world args).print
