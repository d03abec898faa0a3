/-
  ObjectExpr.Proofs.Json.Decoding — what a JSON text says, apart from how this library writes it. A `Datum`
  keeps every field and element in its order, also fields of one name, and tells integers, of any size, from
  floats: a number with a point or an exponent is the float nearest to it, all others are integers.

  A text is cut into symbols (`symbols?`): marks, strings, and runs of letters, digits, signs and points, each
  of which is a keyword or a number; between them stands whitespace. A machine with a stack puts the symbols
  together (`State.step`). `decodeAll?` reads a stream of documents one after another, `decode?` one alone.
-/

import ObjectExpr.Json

namespace ObjectExpr.Json

open Number (Binary64)

/-- What has no parts. -/
inductive Atom
  | null
  | boolean (b : Bool)
  | integer (n : Int)
  | float (x : Binary64)
  | string (s : String)
  deriving DecidableEq, Repr

inductive Datum
  | atom (a : Atom)
  | array (elements : List Datum)
  | object (fields : List (String × Datum))

/-! ## Symbols -/

inductive Symbol
  | beginArray
  | endArray
  | beginObject
  | endObject
  | colon
  | comma
  | atom (a : Atom)
  deriving DecidableEq, Repr

def mark? (c : Char) : Option Symbol :=
  if c = '[' then some .beginArray
  else if c = ']' then some .endArray
  else if c = '\x7b' then some .beginObject
  else if c = '\x7d' then some .endObject
  else if c = ':' then some .colon
  else if c = ',' then some .comma
  else none

def isSpace (c : Char) : Bool := c = ' ' ∨ c = '\t' ∨ c = '\n' ∨ c = '\r'

/-- The characters that keywords and numbers are made of. -/
def isBare (c : Char) : Bool := c.isAlphanum || c = '-' || c = '+' || c = '.'

/-! ### Numbers and keywords -/

/-- Digits before a point: a zero stands in front of no others. -/
def isWhole (digits : List Char) : Bool := Number.isNatural digits && (digits.head? != some '0' || digits == ['0'])

/-- The digits behind a point, if there is one, and what follows them. -/
def fraction? : List Char → Option (List Char × List Char)
  | '.' :: cs =>
    if cs.takeWhile Char.isDigit = [] then none else some (cs.takeWhile Char.isDigit, cs.dropWhile Char.isDigit)
  | cs => some ([], cs)

def power? : List Char → Option Int
  | [] => some 0
  | c :: cs => if c = 'e' ∨ c = 'E' then Number.readInteger? cs else none

/-- A number without its minus. -/
def unsigned? (negative : Bool) (cs : List Char) : Option Atom :=
  let whole := cs.takeWhile Char.isDigit
  let rest := cs.dropWhile Char.isDigit
  if !isWhole whole then none
  else if rest = [] then some (.integer (Number.signed negative (Number.naturalOf whole)))
  else (fraction? rest).bind fun (fraction, tail) =>
    (power? tail).map fun e =>
      .float (Binary64.ofDecimal ⟨negative, Number.naturalOf (whole ++ fraction), e - fraction.length⟩)

def number? : List Char → Option Atom
  | '-' :: cs => unsigned? true cs
  | cs => unsigned? false cs

def bare? (cs : List Char) : Option Atom :=
  if cs = "null".toList then some .null
  else if cs = "true".toList then some (.boolean true)
  else if cs = "false".toList then some (.boolean false)
  else number? cs

/-! ### Strings -/

def hexDigit? (c : Char) : Option Nat :=
  if '0' ≤ c ∧ c ≤ '9' then some (c.toNat - '0'.toNat)
  else if 'a' ≤ c ∧ c ≤ 'f' then some (c.toNat - 'a'.toNat + 10)
  else if 'A' ≤ c ∧ c ≤ 'F' then some (c.toNat - 'A'.toNat + 10)
  else none

/-- The sixteen bits that four hexadecimal digits spell. -/
def unit? : List Char → Option Nat
  | a :: b :: c :: d :: _ => do
    let a ← hexDigit? a
    let b ← hexDigit? b
    let c ← hexDigit? c
    let d ← hexDigit? d
    return ((a * 16 + b) * 16 + c) * 16 + d
  | _ => none

/-- The second half of a surrogate pair, with its own backslash. -/
def trailing? : List Char → Option Nat
  | '\\' :: 'u' :: cs => (unit? cs).filter fun n => 0xDC00 ≤ n ∧ n < 0xE000
  | _ => none

/-- What an escape behind its backslash stands for, and how many characters it has. -/
def escape? : List Char → Option (Char × Nat)
  | 'u' :: cs => (unit? cs).bind fun n =>
    if 0xD800 ≤ n ∧ n < 0xDC00 then
      (trailing? (cs.drop 4)).map fun m => (Char.ofNat (0x10000 + (n - 0xD800) * 0x400 + (m - 0xDC00)), 11)
    else if 0xDC00 ≤ n ∧ n < 0xE000 then none
    else some (Char.ofNat n, 5)
  | '"' :: _ => some ('"', 1)
  | '\\' :: _ => some ('\\', 1)
  | '/' :: _ => some ('/', 1)
  | 'b' :: _ => some ('\x08', 1)
  | 'f' :: _ => some ('\x0c', 1)
  | 'n' :: _ => some ('\n', 1)
  | 'r' :: _ => some ('\r', 1)
  | 't' :: _ => some ('\t', 1)
  | _ => none

/-- The characters of a string behind its first quote, and what follows its last. -/
def string? : List Char → Option (List Char × List Char)
  | [] => none
  | c :: cs =>
    if c = '"' then some ([], cs)
    else if c = '\\' then
      (escape? cs).bind fun (d, n) => (string? (cs.drop n)).map fun (ds, rest) => (d :: ds, rest)
    else if c.toNat < 0x20 then none
    else (string? cs).map fun (ds, rest) => (c :: ds, rest)
termination_by cs => cs.length
decreasing_by all_goals simp only [List.length_cons, List.length_drop]; omega

theorem length_string?_le {cs ds rest : List Char} (h : string? cs = some (ds, rest)) : rest.length ≤ cs.length := by
  fun_induction string? cs generalizing ds rest with
  | case1 => cases h
  | case2 cs =>
    cases h
    exact Nat.le_succ _
  | case3 cs _ ih =>
    obtain ⟨⟨d, n⟩, -, h⟩ := Option.bind_eq_some_iff.mp h
    obtain ⟨⟨es, rest'⟩, hs, h⟩ := Option.map_eq_some_iff.mp h
    cases h
    have hle := ih n hs
    rw [List.length_drop] at hle
    rw [List.length_cons]
    omega
  | case4 => cases h
  | case5 c cs _ _ _ ih =>
    obtain ⟨⟨es, rest'⟩, hs, h⟩ := Option.map_eq_some_iff.mp h
    cases h
    exact Nat.le_succ_of_le (ih hs)

/-- The symbols of a text, without the whitespace between them. -/
def symbols? : List Char → Option (List Symbol)
  | [] => some []
  | c :: cs =>
    if isBare c then
      (bare? (c :: cs.takeWhile isBare)).bind fun a => (symbols? (cs.dropWhile isBare)).map (.atom a :: ·)
    else if isSpace c then symbols? cs
    else if c = '"' then
      match _h : string? cs with
      | some (ds, rest) => (symbols? rest).map (.atom (.string (String.ofList ds)) :: ·)
      | none => none
    else (mark? c).bind fun m => (symbols? cs).map (m :: ·)
termination_by cs => cs.length
decreasing_by
  · have hle := (List.dropWhile_sublist isBare : (cs.dropWhile isBare).Sublist cs).length_le
    rw [List.length_cons]
    omega
  · exact Nat.lt_succ_self _
  · have hle := length_string?_le _h
    rw [List.length_cons]
    omega
  · exact Nat.lt_succ_self _

/-! ## Documents -/

/-- Where a value belongs: among the documents of a stream, or in an array or an object that is not yet
    complete, behind what it holds already. -/
inductive Hole
  | document (before : List Datum)
  | element (before : List Datum) (outer : Hole)
  | field (before : List (String × Datum)) (name : String) (outer : Hole)

/-- What has been read, and with it what may come next. -/
inductive State
  | documents (before : List Datum)
  | value (hole : Hole)
  | arrayOpened (hole : Hole)
  | elementRead (before : List Datum) (hole : Hole)
  | objectOpened (hole : Hole)
  | fieldRead (before : List (String × Datum)) (hole : Hole)
  | nameDue (before : List (String × Datum)) (hole : Hole)
  | nameRead (before : List (String × Datum)) (name : String) (hole : Hole)

def Hole.fill (d : Datum) : Hole → State
  | document before => .documents (before ++ [d])
  | element before outer => .elementRead (before ++ [d]) outer
  | field before name outer => .fieldRead (before ++ [(name, d)]) outer

/-- The first symbol of a value. -/
def Hole.start (hole : Hole) : Symbol → Option State
  | .atom a => some (hole.fill (.atom a))
  | .beginArray => some (.arrayOpened hole)
  | .beginObject => some (.objectOpened hole)
  | _ => none

namespace State

def step : State → Symbol → Option State
  | documents before, s => (Hole.document before).start s
  | value hole, s => hole.start s
  | arrayOpened hole, .endArray => some (hole.fill (.array []))
  | arrayOpened hole, s => (Hole.element [] hole).start s
  | elementRead before hole, .comma => some (value (.element before hole))
  | elementRead before hole, .endArray => some (hole.fill (.array before))
  | objectOpened hole, .endObject => some (hole.fill (.object []))
  | objectOpened hole, .atom (.string name) => some (nameRead [] name hole)
  | fieldRead before hole, .comma => some (nameDue before hole)
  | fieldRead before hole, .endObject => some (hole.fill (.object before))
  | nameDue before hole, .atom (.string name) => some (nameRead before name hole)
  | nameRead before name hole, .colon => some (value (.field before name hole))
  | _, _ => none

/-- The documents of a stream that ends here. -/
def finish : State → Option (List Datum)
  | documents before => some before
  | _ => none

def run (s : State) (symbols : List Symbol) : Option State := symbols.foldlM step s

end State

/-! ## Texts -/

/-- The documents of a stream, in order. -/
def decodeAll? (text : String) : Option (List Datum) :=
  (symbols? text.toList).bind fun symbols => ((State.documents []).run symbols).bind State.finish

/-- The document that a text is. -/
def decode? (text : String) : Option Datum :=
  (decodeAll? text).bind fun
    | [d] => some d
    | _ => none

example : decode? "\x7b\"a\": [1, 1.0, \"\\ud83d\\ude00\"], \"a\": null\x7d" =
    some (.object [("a", .array [.atom (.integer 1), .atom (.float ⟨0x3FF0000000000000⟩), .atom (.string "😀")]),
      ("a", .atom .null)]) := by
  with_unfolding_all rfl

example : decode? "[1,]" = none := by with_unfolding_all rfl

/-! ## The symbols of a document -/

namespace Datum

mutual

def symbols : Datum → List Symbol
  | .atom a => [.atom a]
  | .array [] => [.beginArray, .endArray]
  | .array (d :: ds) => .beginArray :: (symbols d ++ (elementSymbols ds ++ [.endArray]))
  | .object [] => [.beginObject, .endObject]
  | .object ((name, d) :: fs) =>
    .beginObject :: .atom (.string name) :: .colon :: (symbols d ++ (fieldSymbols fs ++ [.endObject]))

/-- The elements after the first. -/
def elementSymbols : List Datum → List Symbol
  | [] => []
  | d :: ds => .comma :: (symbols d ++ elementSymbols ds)

/-- The fields after the first. -/
def fieldSymbols : List (String × Datum) → List Symbol
  | [] => []
  | (name, d) :: fs => .comma :: .atom (.string name) :: .colon :: (symbols d ++ fieldSymbols fs)

end

/-- A document does not begin with the end of an array. -/
theorem exists_symbols (d : Datum) : ∃ symbol tail, d.symbols = symbol :: tail ∧ symbol ≠ .endArray := by
  fun_cases symbols d
  all_goals
    refine ⟨_, _, rfl, ?_⟩
    exact nofun

end Datum

namespace State

theorem run_cons (s : State) (symbol : Symbol) (rest : List Symbol) :
    s.run (symbol :: rest) = (s.step symbol).bind fun next => next.run rest := rfl

/-- Two states that make the same of the first symbol of a document make the same of it. -/
theorem run_congr {s s' : State} {d : Datum} (h : ∀ symbol, symbol ≠ .endArray → s.step symbol = s'.step symbol)
    (rest : List Symbol) : s.run (d.symbols ++ rest) = s'.run (d.symbols ++ rest) := by
  obtain ⟨symbol, tail, hd, hne⟩ := d.exists_symbols
  rw [hd, List.cons_append, run_cons, run_cons, h symbol hne]

mutual

/-- The symbols of a document fill the hole that it belongs to. -/
theorem run_symbols (d : Datum) (hole : Hole) (rest : List Symbol) :
    (value hole).run (d.symbols ++ rest) = (hole.fill d).run rest := by
  match d with
  | .atom a =>
    rw [Datum.symbols]
    rfl
  | .array [] =>
    rw [Datum.symbols]
    rfl
  | .array (d :: ds) =>
    rw [Datum.symbols]
    simp only [List.cons_append, List.append_assoc]
    calc (value hole).run (.beginArray :: (d.symbols ++ (Datum.elementSymbols ds ++ ([.endArray] ++ rest))))
        = (arrayOpened hole).run (d.symbols ++ (Datum.elementSymbols ds ++ ([.endArray] ++ rest))) := rfl
      _ = (value (.element [] hole)).run (d.symbols ++ (Datum.elementSymbols ds ++ ([.endArray] ++ rest))) := by
        apply run_congr
        intro symbol hne
        rw [step, step]
        exact fun h => hne h
      _ = (elementRead [d] hole).run (Datum.elementSymbols ds ++ .endArray :: rest) := run_symbols d _ _
      _ = (hole.fill (.array (d :: ds))).run rest := run_elementSymbols ds [d] hole rest
  | .object [] =>
    rw [Datum.symbols]
    rfl
  | .object ((name, d) :: fs) =>
    rw [Datum.symbols]
    simp only [List.cons_append, List.append_assoc]
    calc (value hole).run (.beginObject :: .atom (.string name) :: .colon ::
          (d.symbols ++ (Datum.fieldSymbols fs ++ ([.endObject] ++ rest))))
        = (value (.field [] name hole)).run (d.symbols ++ (Datum.fieldSymbols fs ++ ([.endObject] ++ rest))) := rfl
      _ = (fieldRead [(name, d)] hole).run (Datum.fieldSymbols fs ++ .endObject :: rest) := run_symbols d _ _
      _ = (hole.fill (.object ((name, d) :: fs))).run rest := run_fieldSymbols fs [(name, d)] hole rest

theorem run_elementSymbols (ds before : List Datum) (hole : Hole) (rest : List Symbol) :
    (elementRead before hole).run (Datum.elementSymbols ds ++ .endArray :: rest) =
      (hole.fill (.array (before ++ ds))).run rest := by
  match ds with
  | [] =>
    rw [Datum.elementSymbols, List.append_nil]
    rfl
  | d :: ds =>
    rw [Datum.elementSymbols, List.cons_append, List.append_assoc]
    calc (elementRead before hole).run (.comma :: (d.symbols ++ (Datum.elementSymbols ds ++ .endArray :: rest)))
        = (value (.element before hole)).run (d.symbols ++ (Datum.elementSymbols ds ++ .endArray :: rest)) := rfl
      _ = (elementRead (before ++ [d]) hole).run (Datum.elementSymbols ds ++ .endArray :: rest) := run_symbols d _ _
      _ = (hole.fill (.array (before ++ [d] ++ ds))).run rest := run_elementSymbols ds _ hole rest
      _ = (hole.fill (.array (before ++ d :: ds))).run rest := by rw [List.append_assoc, List.singleton_append]

theorem run_fieldSymbols (fs before : List (String × Datum)) (hole : Hole) (rest : List Symbol) :
    (fieldRead before hole).run (Datum.fieldSymbols fs ++ .endObject :: rest) =
      (hole.fill (.object (before ++ fs))).run rest := by
  match fs with
  | [] =>
    rw [Datum.fieldSymbols, List.append_nil]
    rfl
  | (name, d) :: fs =>
    rw [Datum.fieldSymbols]
    simp only [List.cons_append, List.append_assoc]
    calc (fieldRead before hole).run (.comma :: .atom (.string name) :: .colon ::
          (d.symbols ++ (Datum.fieldSymbols fs ++ .endObject :: rest)))
        = (value (.field before name hole)).run (d.symbols ++ (Datum.fieldSymbols fs ++ .endObject :: rest)) := rfl
      _ = (fieldRead (before ++ [(name, d)]) hole).run (Datum.fieldSymbols fs ++ .endObject :: rest) := run_symbols d _ _
      _ = (hole.fill (.object (before ++ [(name, d)] ++ fs))).run rest := run_fieldSymbols fs _ hole rest
      _ = (hole.fill (.object (before ++ (name, d) :: fs))).run rest := by rw [List.append_assoc, List.singleton_append]

end

/-- The symbols of documents one after another are read as these documents. -/
theorem run_documents (ds before : List Datum) :
    (documents before).run (ds.flatMap Datum.symbols) = some (documents (before ++ ds)) := by
  induction ds generalizing before with
  | nil =>
    rw [List.append_nil]
    rfl
  | cons d ds ih =>
    calc (documents before).run (d.symbols ++ ds.flatMap Datum.symbols)
        = (value (.document before)).run (d.symbols ++ ds.flatMap Datum.symbols) := by
          apply run_congr
          intro symbol _
          rfl
      _ = (documents (before ++ [d])).run (ds.flatMap Datum.symbols) := run_symbols d _ _
      _ = some (documents (before ++ d :: ds)) := by rw [ih, List.append_assoc, List.singleton_append]

end State

/-- A text that has the symbols of documents is a stream of these documents. -/
theorem decodeAll?_of_symbols {text : String} {ds : List Datum}
    (h : symbols? text.toList = some (ds.flatMap Datum.symbols)) : decodeAll? text = some ds := by
  rw [decodeAll?, h, Option.bind_some, State.run_documents, List.nil_append]
  rfl

end ObjectExpr.Json
