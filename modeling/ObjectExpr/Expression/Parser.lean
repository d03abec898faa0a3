/-
  ObjectExpr.Expression.Parser — an expression from its tokens, one token at a time. The state is the
  place the next token comes to, with what is read of the construct there, and for each bracket around
  it the hole that the bracketed term will fill; parts that are done are kept last first. A step either
  moves on or refuses the token.

  Which fault is reported. A token is at fault at its own position, and `finish` says what is missing
  at the end. A token that is taken first looks one token ahead: if there a string is unterminated,
  that is reported in its place. Two faults come before their token is taken (`Refusal.early`): a
  name that is missing after a dot, and a closing brace that is missing in an object.
-/

import ObjectExpr.Expression
import ObjectExpr.Lexer
import ObjectExpr.ParseError

namespace ObjectExpr

namespace Parser

/-! ## States -/

/-- What the fields being read belong to. -/
inductive Owner
  | fields (done : List Field)
  | elements (done : List Element)

/-- The place of one term among what is read around it. -/
inductive Hole
  | root (done : List Term)
  | item (done : List Element)
  | named (owner : Owner) (path : Path)

/-- Where the next token comes to: between the parts of a construct, or within a field after a name,
    after a dot, or after the equals sign. -/
inductive Place
  | roots (done : List Term)
  | fields (done : List Field)
  | elements (done : List Element)
  | name (owner : Owner) (path : Path)
  | dot (owner : Owner) (path : Path)
  | value (owner : Owner) (path : Path)

structure State where
  place : Place
  outer : List Hole

namespace State

def start : State := ⟨.fields [], []⟩

end State

def Owner.add (path : Path) (t : Term) : Owner → Place
  | fields done => .fields ((path, t) :: done)
  | elements done => .elements ((some path, t) :: done)

def Hole.fill (t : Term) : Hole → Place
  | root done => .roots (t :: done)
  | item done => .elements ((none, t) :: done)
  | named owner path => owner.add path t

/-! ## Depth -/

def Hole.dots : Hole → Nat
  | root _ | item _ => 0
  | named _ path => path.tail.length

def Place.dots : Place → Nat
  | roots _ | fields _ | elements _ => 0
  | name _ path | value _ path => path.tail.length
  | dot _ path => path.tail.length + 1

/-- The levels that are open: every bracket, and every dot of a field that is not yet complete. -/
def State.depth (s : State) : Nat := s.outer.foldr (fun hole levels => hole.dots + 1 + levels) s.place.dots

/-! ## One token -/

structure Refusal where
  fault : Fault
  /-- The fault shows before the token is taken. -/
  early : Bool
  deriving DecidableEq, Repr

def refuse {α : Type} (fault : Fault) : Except Refusal α := .error ⟨fault, false⟩

def unexpected {α : Type} (w : Word) : Except Refusal α := refuse (.unexpected w.kind)

def expected {α : Type} (wanted : Kind) (w : Word) : Except Refusal α :=
  .error ⟨.expected wanted w.kind, true⟩

namespace State

/-- Goes one level deeper. -/
def descend (s : State) (inner : State) : Except Refusal State :=
  if s.depth < maxDepth then .ok inner else refuse .tooDeep

def openObject (s : State) (hole : Hole) : Except Refusal State := s.descend ⟨.fields [], hole :: s.outer⟩

def openArray (s : State) (hole : Hole) : Except Refusal State := s.descend ⟨.elements [], hole :: s.outer⟩

def fill (s : State) (hole : Hole) (t : Term) : State := ⟨hole.fill t, s.outer⟩

/-- A bracketed root. -/
def root (s : State) (done : List Term) : Word → Except Refusal State
  | .mark .objectOpen => s.openObject (.root done)
  | .mark .arrayOpen => s.openArray (.root done)
  | w => unexpected w

/-- A term for `hole`. -/
def term (s : State) (hole : Hole) : Word → Except Refusal State
  | .literal text => .ok (s.fill hole (.text text))
  | .raw text =>
    match Typed.ofText text with
    | .ok t => .ok (s.fill hole (.typed t))
    | .error e => refuse (.invalidRaw e)
  | .env name => .ok (s.fill hole (.env name))
  | .mark .objectOpen => s.openObject hole
  | .mark .arrayOpen => s.openArray hole
  | w => unexpected w

/-- An element, a name that may start a field, or the end of the array. -/
def element (s : State) (done : List Element) : Word → Except Refusal State
  | .literal text => .ok ⟨.name (.elements done) (.single text), s.outer⟩
  | .mark .arrayClose =>
    match s.outer with
    | hole :: outer => .ok ⟨hole.fill (.array done.reverse), outer⟩
    | [] => unexpected (.mark .arrayClose)
  | w => s.term (.item done) w

/-- The name of a field, or the end of the object. The very first token may also open a root. -/
def field (s : State) (done : List Field) (w : Word) : Except Refusal State :=
  match w, s.outer with
  | .literal text, _ => .ok ⟨.name (.fields done) (.single text), s.outer⟩
  | .mark .objectClose, hole :: outer => .ok ⟨hole.fill (.object done.reverse), outer⟩
  | w, _ :: _ => expected (.mark .objectClose) w
  | w, [] => if done.isEmpty then s.root [] w else unexpected w

/-- After a name: the equals sign or a dot. A lone name in an array is an element by itself. -/
def afterName (s : State) (owner : Owner) (path : Path) : Word → Except Refusal State
  | .mark .assign => .ok ⟨.value owner path, s.outer⟩
  | .mark .dot => s.descend ⟨.dot owner path, s.outer⟩
  | w =>
    match owner, path.tail with
    | .elements done, [] => s.element ((none, .text path.head) :: done) w
    | _, _ => unexpected w

def afterDot (s : State) (owner : Owner) (path : Path) : Word → Except Refusal State
  | .literal text => .ok ⟨.name owner (path.snoc text), s.outer⟩
  | w => expected .literal w

def step (s : State) (w : Word) : Except Refusal State :=
  match s.place with
  | .roots done => s.root done w
  | .fields done => s.field done w
  | .elements done => s.element done w
  | .name owner path => s.afterName owner path w
  | .dot owner path => s.afterDot owner path w
  | .value owner path => s.term (.named owner path) w

/-- The expression, if it is complete. -/
def finish (s : State) : Except Fault Expression :=
  match s.place, s.outer with
  | .roots done, _ => .ok (.bracketed done.reverse)
  | .fields done, [] => .ok (.flat done.reverse)
  | .fields _, _ :: _ => .error .unclosedObject
  | .elements _, _ => .error .unclosedArray
  | .name (.elements _) ⟨_, []⟩, _ => .error .unclosedArray
  | .name _ _, _ => .error .unexpectedEnd
  | .dot _ _, _ => .error (.expected .literal .finish)
  | .value _ _, _ => .error .unexpectedEnd

/-! ## All tokens -/

/-- The report of a refused token, with the tokens after it and the end they come to. -/
def failure (t : Token) (r : Refusal) : List Token → Ending → Failure
  | [], .unterminated p => if r.early then ⟨t.position, r.fault⟩ else ⟨p, .unterminated p⟩
  | _, _ => ⟨t.position, r.fault⟩

def run (s : State) (e : Ending) : List Token → Except Failure Expression
  | [] =>
    match e with
    | .unterminated p => .error ⟨p, .unterminated p⟩
    | .finish p => s.finish.mapError fun fault => ⟨p, fault⟩
  | t :: ts =>
    match s.step t.word with
    | .ok s => s.run e ts
    | .error r => .error (failure t r ts e)

end State

end Parser

/-! ## All of a text -/

/-- The expression that the rest of a text spells. -/
def Cursor.expression (c : Cursor) : Except Failure Expression :=
  let (tokens, ending) := c.read
  Parser.State.start.run ending tokens

/-- What the rest of a lexer's input spells; a fault is reported with the whole of the input. -/
def Lexer.expression (l : Lexer) : Except ParseError Expression :=
  l.cursor.expression.mapError fun f => ⟨f, l.input⟩

def Expression.parse (input : String) : Except ParseError Expression := (Lexer.ofString input).expression

end ObjectExpr
