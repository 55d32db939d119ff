import CompactType.TypeTable.Basic

/-!
# Printed forms

The form of a type that messages show. A named struct prints by its name alone, so only a type
that contains itself without a named struct in between has no printed form.
-/

set_option autoImplicit false

namespace CompactType.TypeTable

def textOf (text : Nat → Except Refusal String) : Kind → Except Refusal String
  | .scalar k => return k.text
  | .pointer e => return "*" ++ (← text e)
  | .array e n => return "[" ++ toString n.toNat ++ " x " ++ (← text e) ++ "]"
  | .vector e n => return "<" ++ toString n.toNat ++ " x " ++ (← text e) ++ ">"
  | .struct (some name) _ => return "%" ++ name
  | .struct none fields => do
    let parts ← (fields.getD []).mapM text
    return "\x7b" ++ ", ".intercalate parts ++ "\x7d"
  | .function params ret variadic => do
    let parts ← params.mapM text
    let parts := if variadic then parts ++ ["..."] else parts
    return "fn(" ++ ", ".intercalate parts ++ ") -> " ++ (← text ret)

/-- The printed form of a type with at most the given number of layers outside named structs. -/
def textWithin (t : TypeTable) : Nat → Nat → Except Refusal String
  | 0, _ => .error .endless
  | layers + 1, id => do textOf (textWithin t layers) (← t.kind id)

/-- The printed form of a type. No chain of distinct types is longer than the table. -/
def text (t : TypeTable) (id : Nat) : Except Refusal String :=
  t.textWithin (t.size + 1) id

/-- Gives a declared struct its body. The type is printed first, so that a refusal can name it. -/
def complete (t : TypeTable) (id : Nat) (fields : List Nat) : Except Refusal TypeTable := do
  let text ← t.text id
  match ← t.kind id with
  | .struct (some name) none => return t.setKind id (.struct (some name) (some fields))
  | .struct (some _) (some _) => throw (.bodyAlreadySet text)
  | _ => throw (.notAStruct text)

end CompactType.TypeTable
