import CompactType.Spec
import CompactType.TypeTable.Text

/-!
# From types to specifications

A type of a table is written as a specification by walking it from left to right. Named structs
are numbered in the order in which the walk first meets them; met again, they are referred to.
-/

set_option autoImplicit false

namespace CompactType.TypeTable

/-- The named structs met so far, the first of them numbered zero. -/
abbrev Seen := List Nat

def describeAll (one : Nat → Seen → Except Refusal (Spec × Seen)) :
    List Nat → Seen → Except Refusal (List Spec × Seen)
  | [], seen => return ([], seen)
  | id :: rest, seen => do
    let (spec, seen) ← one id seen
    let (specs, seen) ← describeAll one rest seen
    return (spec :: specs, seen)

/-- Describes one layer of the type with the given id, where `one` describes its parts. -/
def describeLayer (t : TypeTable) (one : Nat → Seen → Except Refusal (Spec × Seen)) (id : Nat) :
    Kind → Seen → Except Refusal (Spec × Seen)
  | .scalar k, seen => return (.scalar k, seen)
  | .pointer e, seen => do
    let (elem, seen) ← one e seen
    return (.pointer elem, seen)
  | .array e n, seen => do
    let (elem, seen) ← one e seen
    return (.array elem n, seen)
  | .vector e n, seen => do
    let (elem, seen) ← one e seen
    return (.vector elem n, seen)
  | .struct name fields, seen =>
    match seen.idxOf? id with
    | some number => return (.reference number, seen)
    | none =>
      match fields with
      | none => do throw (.incomplete (← t.text id))
      | some fields =>
        if name.isSome then do
          let (specs, after) ← describeAll one fields (seen ++ [id])
          return (.define seen.length specs, after)
        else do
          let (specs, seen) ← describeAll one fields seen
          return (.record specs, seen)
  | .function params ret variadic, seen => do
    let (params, seen) ← describeAll one params seen
    let (ret, seen) ← one ret seen
    return (.function params ret variadic, seen)

def describeWithin (t : TypeTable) : Nat → Nat → Seen → Except Refusal (Spec × Seen)
  | 0, _, _ => .error .endless
  | layers + 1, id, seen => do
    t.describeLayer (t.describeWithin layers) id (← t.kind id) seen

/-- Describes a type. Below each newly met struct at most all other types follow before the next
one, so the square of the table's size bounds the depth. -/
def describe (t : TypeTable) (id : Nat) : Except Refusal Spec :=
  (·.1) <$> t.describeWithin ((t.size + 1) * (t.size + 1)) id []

def encode (t : TypeTable) (id : Nat) : Except Refusal String :=
  Spec.text <$> t.describe id

end CompactType.TypeTable
