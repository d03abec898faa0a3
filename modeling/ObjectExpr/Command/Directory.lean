/-
  ObjectExpr.Command.Directory — what the path of an env file leads to. A `Directory` is a few files by
  name; a path in it may have dots and empty parts, and outside it nothing is known but directories. A
  path and each of its parts have a greatest length; what is longer leads to nothing that can be read.
-/

import ObjectExpr.Text.Utf8

namespace ObjectExpr.Command

/-- What a path leads to. -/
inductive Entry
  | missing
  | unreadable
  | file (bytes : List UInt8)
  deriving DecidableEq, Repr

/-- Files by name, with nothing else in the directory. -/
structure Directory where
  files : List (String × List UInt8)

/-- The most bytes in a part of a path. -/
def maxPartSize : Nat := 255

/-- The most bytes in a path. -/
def maxPathSize : Nat := 4095

/-- The parts of a path between its slashes. -/
def pathParts : List Char → List (List Char)
  | [] => [[]]
  | c :: cs =>
    match pathParts cs with
    | [] => [[c]]
    | part :: parts => if c = '/' then [] :: part :: parts else (c :: part) :: parts

/-- A part of a path that leads nowhere else. -/
def staysHere (part : List Char) : Bool := part == [] || part == ['.']

def leadsUp (part : List Char) : Bool := part == ['.', '.']

def isTooLong (part : List Char) : Bool := maxPartSize < Text.byteSize part

/-- Directories that stand at the root everywhere. -/
def rootDirectories : List (List Char) :=
  ["dev".toList, "etc".toList, "proc".toList, "sys".toList, "tmp".toList, "usr".toList, "var".toList]

/-- What the parts of a path lead to outside the directory, from a place that holds the directories
    `here` and nothing else. -/
def walkOutside (here : List (List Char)) : List (List Char) → Entry
  | [] => .unreadable
  | part :: parts =>
    if staysHere part || leadsUp part then walkOutside here parts
    else if isTooLong part then .unreadable
    else if here.contains part then walkOutside [] parts
    else .missing

/-- What the parts of a path lead to from the directory. -/
def Directory.walk (d : Directory) : List (List Char) → Entry
  | [] => .unreadable
  | part :: parts =>
    if staysHere part then d.walk parts
    else if leadsUp part then walkOutside [] parts
    else if isTooLong part then .unreadable
    else
      match d.files.lookup (String.ofList part) with
      | none => .missing
      | some bytes => if parts = [] then .file bytes else .unreadable

def Directory.entry (d : Directory) (path : String) : Entry :=
  if maxPathSize < Text.byteSize path.toList then .unreadable
  else
    match path.toList with
    | '/' :: cs => walkOutside rootDirectories (pathParts cs)
    | cs => d.walk (pathParts cs)

end ObjectExpr.Command
