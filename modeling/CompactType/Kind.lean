import CompactType.Scalar

/-!
# Kinds of types

What a type is, one layer deep: its parts are given by the ids of other types. A struct with a
name is nominal and may lack a body; every other kind is determined by its parts.
-/

set_option autoImplicit false

namespace CompactType

inductive Kind where
  | scalar (scalar : Scalar)
  | pointer (elem : Nat)
  | array (elem : Nat) (count : UInt64)
  | vector (elem : Nat) (count : UInt32)
  | struct (name : Option String) (fields : Option (List Nat))
  | function (params : List Nat) (ret : Nat) (variadic : Bool)
deriving DecidableEq, Repr, Inhabited

namespace Kind

def typeClass : Kind → TypeClass
  | scalar k => k.typeClass
  | pointer _ => .pointer
  | array .. => .array
  | vector .. => .vector
  | struct .. => .struct
  | function .. => .function

def structName? : Kind → Option String
  | struct name _ => name
  | _ => none

def structFields? : Kind → Option (List Nat)
  | struct _ fields => fields
  | _ => none

def isIncomplete : Kind → Bool
  | struct _ none => true
  | _ => false

def isNamed (k : Kind) : Bool := k.structName?.isSome

def parts : Kind → List Nat
  | scalar _ => []
  | pointer e => [e]
  | array e _ => [e]
  | vector e _ => [e]
  | struct _ fields => fields.getD []
  | function params ret _ => params ++ [ret]

end Kind

end CompactType
