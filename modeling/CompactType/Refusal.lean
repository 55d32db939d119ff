/-!
# Refusals of a type store

Why a store of types refuses a request. The first three name a type by its printed form; the last
two say that a type has no printed form at all.
-/

set_option autoImplicit false

namespace CompactType

inductive Refusal where
  | notAStruct (type : String)
  | bodyAlreadySet (type : String)
  | incomplete (type : String)
  | unknownId (id : Nat)
  /-- A type contains itself without a named struct in between. -/
  | endless
deriving DecidableEq, Repr, Inhabited

namespace Refusal

def message : Refusal → String
  | notAStruct type => s!"type '{type}' is not a struct"
  | bodyAlreadySet type => s!"body of struct '{type}' is already set"
  | incomplete type => s!"struct '{type}' has no body"
  | unknownId id => s!"unknown type id {id}"
  | endless => "type contains itself"

end Refusal

end CompactType
