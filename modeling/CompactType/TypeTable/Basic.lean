import CompactType.Kind
import CompactType.Refusal

/-!
# Tables of types

A table owns types and numbers them. Interning a kind twice gives the same id; a named struct is
declared afresh each time and may get its body later. The index of interned kinds remembers a kind
as it was when interned, so completing a struct leaves the index alone.
-/

set_option autoImplicit false

namespace CompactType

structure Entry where
  id : Nat
  kind : Kind
deriving DecidableEq, Repr, Inhabited

structure TypeTable where
  entries : Array Entry
  /-- Ids of the interned kinds, the latest first. -/
  interned : List (Kind × Nat)
deriving DecidableEq, Repr, Inhabited

namespace TypeTable

def empty : TypeTable := ⟨#[], []⟩

def size (t : TypeTable) : Nat := t.entries.size

def isEmpty (t : TypeTable) : Bool := t.size == 0

def push (t : TypeTable) (kind : Kind) : Nat × TypeTable :=
  (t.size, { t with entries := t.entries.push ⟨t.size, kind⟩ })

/-- The id of a kind, which is appended unless it was interned before. -/
def intern (t : TypeTable) (kind : Kind) : Nat × TypeTable :=
  match t.interned.lookup kind with
  | some id => (id, t)
  | none =>
    let (id, t) := t.push kind
    (id, { t with interned := (kind, id) :: t.interned })

def declare (t : TypeTable) (name : String) : Nat × TypeTable :=
  t.push (.struct (some name) none)

def initial : TypeTable :=
  Scalar.all.foldl (fun t k => (t.intern (.scalar k)).2) empty

def find? (t : TypeTable) (id : Nat) : Option Entry := t.entries[id]?

def kind? (t : TypeTable) (id : Nat) : Option Kind := (t.find? id).map Entry.kind

def entry (t : TypeTable) (id : Nat) : Except Refusal Entry :=
  match t.find? id with
  | some e => .ok e
  | none => .error (.unknownId id)

def kind (t : TypeTable) (id : Nat) : Except Refusal Kind :=
  match t.kind? id with
  | some k => .ok k
  | none => .error (.unknownId id)

def scalar (t : TypeTable) (k : Scalar) : Nat := (t.intern (.scalar k)).1

def kinds (t : TypeTable) : List Kind := t.entries.toList.map Entry.kind

def setKind (t : TypeTable) (id : Nat) (kind : Kind) : TypeTable :=
  { t with entries := t.entries.modify id fun e => { e with kind } }

theorem size_push (t : TypeTable) (k : Kind) : (t.push k).2.size = t.size + 1 := by
  simp [push, size]

theorem kind?_push (t : TypeTable) (k : Kind) (i : Nat) :
    (t.push k).2.kind? i = if i = t.size then some k else t.kind? i := by
  by_cases h : i = t.entries.size <;> simp [push, kind?, find?, size, Array.getElem?_push, h]

theorem kind?_eq_none_iff (t : TypeTable) (i : Nat) : t.kind? i = none ↔ t.size ≤ i := by
  simp [kind?, find?, size]

theorem intern_of_lookup {t : TypeTable} {k : Kind} {i : Nat} (h : t.interned.lookup k = some i) :
    t.intern k = (i, t) := by
  simp [intern, h]

theorem intern_of_lookup_none {t : TypeTable} {k : Kind} (h : t.interned.lookup k = none) :
    t.intern k = (t.size, { (t.push k).2 with interned := (k, t.size) :: t.interned }) := by
  simp [intern, h, push]

theorem size_initial : initial.size = 9 := by
  decide

theorem size_setKind (t : TypeTable) (id : Nat) (k : Kind) : (t.setKind id k).size = t.size := by
  simp [setKind, size]

end TypeTable

end CompactType
