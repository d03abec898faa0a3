/-
  ObjectExpr.Indexed — fields in the order of their first writes, with an index from each name to the slot
  that its field stands in. A look-up goes through the index and then to the slot; a slot past the last
  field ends the run (`OutOfBounds`), so nothing here can tell on its own that there is none.

  `Node` is a tree whose objects have such an index. Its operations go the same ways as those of `Tree`;
  `Node.tree` leaves the index out.
-/

import ObjectExpr.Expression.Build
import ObjectExpr.Value
import Std.Data.HashMap

namespace ObjectExpr

/-- A slot that is not there. -/
structure OutOfBounds where
  slot : Nat
  length : Nat
  deriving DecidableEq, Repr

structure Indexed (α : Type) where
  fields : List (String × α)
  index : Std.HashMap String Nat

namespace Indexed

variable {α : Type}

def empty : Indexed α := ⟨[], ∅⟩

def length (o : Indexed α) : Nat := o.fields.length

def slot (o : Indexed α) (i : Nat) : Except OutOfBounds (String × α) :=
  match o.fields[i]? with
  | some f => .ok f
  | none => .error ⟨i, o.length⟩

def get? (o : Indexed α) (name : String) : Except OutOfBounds (Option α) :=
  match o.index[name]? with
  | some i => (fun f => some f.2) <$> o.slot i
  | none => .ok none

theorem exists_mem_of_get? {o : Indexed α} {name : String} {a : α} (h : o.get? name = .ok (some a)) :
    ∃ f ∈ o.fields, f.2 = a := by
  unfold get? slot at h
  split at h
  · next i _ =>
    cases hf : o.fields[i]? with
    | none =>
      rw [hf] at h
      cases h
    | some f =>
      rw [hf] at h
      cases h
      exact ⟨f, List.mem_of_getElem? hf, rfl⟩
  · cases h

/-- Writes a field: `join` of what the name held before, in its slot, or else `new` in a slot of its own.
    While `join` is at work, `vacant` stands in the slot. -/
def put (o : Indexed α) (name : String) (new vacant : α) (join : α → Except OutOfBounds α) :
    Except OutOfBounds (Indexed α) :=
  match o.index[name]? with
  | some i =>
    o.slot i >>= fun f =>
      (fun joined => { o with fields := (o.fields.set i (f.1, vacant)).set i (f.1, joined) }) <$> join f.2
  | none => .ok ⟨o.fields ++ [(name, new)], o.index.insert name o.length⟩

end Indexed

inductive Node
  | scalar (s : Scalar)
  | object (o : Indexed Node)
  | array (elements : List Node)

namespace Node

mutual

def merge : Node → Node → Except OutOfBounds Node
  | .object o, .object ⟨gs, _⟩ => .object <$> absorb o gs
  | _, n => .ok n

/-- Writes the fields of the second object into the first, one after another. -/
def absorb (o : Indexed Node) : List (String × Node) → Except OutOfBounds (Indexed Node)
  | [] => .ok o
  | (name, n) :: gs => o.put name n (.scalar .null) (fun old => merge old n) >>= fun o => absorb o gs

end

/-- Writes one field of an object. -/
def insert (o : Indexed Node) (name : String) (n : Node) : Except OutOfBounds (Indexed Node) :=
  o.put name n (.scalar .null) fun old => merge old n

def ofField (name : String) (n : Node) : Except OutOfBounds Node := .object <$> insert .empty name n

def push (elements : List Node) (n : Node) : List Node := elements ++ [n]

/-- The object that one object per name of a path builds around a node. -/
def nest : List String → Node → Except OutOfBounds Node
  | [], n => .ok n
  | name :: names, n => nest names n >>= ofField name

theorem sizeOf_lt_of_get? {o : Indexed Node} {name : String} {n : Node} (h : o.get? name = .ok (some n)) :
    sizeOf n < sizeOf o := by
  obtain ⟨⟨m, n⟩, hf, rfl⟩ := Indexed.exists_mem_of_get? h
  obtain ⟨fs, index⟩ := o
  have hlt := List.sizeOf_lt_of_mem hf
  simp only [Prod.mk.sizeOf_spec, Indexed.mk.sizeOf_spec] at hlt ⊢
  omega

mutual

/-- Whether two nodes are equal up to the order of fields; leaves compare as `Scalar.equal`. -/
def equal : Node → Node → Except OutOfBounds Bool
  | .scalar a, .scalar b => .ok (a.equal b)
  | .object ⟨fs, _⟩, .object p => if fs.length = p.length then covered fs p else .ok false
  | .array ns, .array ms => if ns.length = ms.length then equalAll ns ms else .ok false
  | _, _ => .ok false
termination_by n m => sizeOf n + sizeOf m

/-- Every field on the left has an equal of its name on the right; the one on the right asks. -/
def covered (fs : List (String × Node)) (p : Indexed Node) : Except OutOfBounds Bool :=
  match fs with
  | [] => .ok true
  | (name, n) :: fs =>
    match _h : p.get? name with
    | .error e => .error e
    | .ok none => .ok false
    | .ok (some m) => equal m n >>= fun same => if same then covered fs p else .ok false
termination_by sizeOf fs + sizeOf p
decreasing_by
  · have := sizeOf_lt_of_get? _h
    simp only [List.cons.sizeOf_spec, Prod.mk.sizeOf_spec]
    omega
  · simp only [List.cons.sizeOf_spec]
    omega

def equalAll : List Node → List Node → Except OutOfBounds Bool
  | [], [] => .ok true
  | n :: ns, m :: ms => equal n m >>= fun same => if same then equalAll ns ms else .ok false
  | _, _ => .ok false
termination_by ns ms => sizeOf ns + sizeOf ms

end

mutual

def produce : Node → Value
  | .scalar s => .ofScalar s
  | .object ⟨fs, _⟩ => .object (produceFields fs)
  | .array ns => .array (produceAll ns)

def produceFields : List (String × Node) → List (String × Value)
  | [] => []
  | (name, n) :: fs => (name, n.produce) :: produceFields fs

def produceAll : List Node → List Value
  | [] => []
  | n :: ns => n.produce :: produceAll ns

end

mutual

def tree : Node → Tree
  | .scalar s => .scalar s
  | .object ⟨fs, _⟩ => .object (fieldTrees fs)
  | .array ns => .array (trees ns)

def fieldTrees : List (String × Node) → List (String × Tree)
  | [] => []
  | (name, n) :: fs => (name, n.tree) :: fieldTrees fs

def trees : List Node → List Tree
  | [] => []
  | n :: ns => n.tree :: trees ns

end

end Node

/-! ## What an expression builds -/

section

variable (lookup : String → Option String)

mutual

def Term.node : Term → Except OutOfBounds Node
  | .text s => .ok (.scalar (.string s))
  | .typed t => .ok (.scalar t.scalar)
  | .env name => .ok (.scalar (Scalar.ofVariable lookup name))
  | .object fields => .object <$> insertTerms .empty fields
  | .array elements => .array <$> pushTerms [] elements

def insertTerms (o : Indexed Node) : List (Path × Term) → Except OutOfBounds (Indexed Node)
  | [] => .ok o
  | (path, t) :: fields =>
    t.node >>= fun n => Node.nest path.tail n >>= fun n => Node.insert o path.head n >>= fun o => insertTerms o fields

def pushTerms (done : List Node) : List (Option Path × Term) → Except OutOfBounds (List Node)
  | [] => .ok done
  | (none, t) :: elements => t.node >>= fun n => pushTerms (Node.push done n) elements
  | (some path, t) :: elements =>
    t.node >>= fun n => Node.nest path.names n >>= fun n => pushTerms (Node.push done n) elements

end

def Expression.nodes : Expression → Except OutOfBounds (List Node)
  | flat fields => (fun o => [.object o]) <$> insertTerms lookup .empty fields
  | bracketed roots => roots.mapM fun t => t.node lookup

end

end ObjectExpr
