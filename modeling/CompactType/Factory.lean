import CompactType.Kind
import CompactType.Refusal

/-!
# Factories

The operations through which a parse builds types: requests that make a type, the late body of a
declared struct, and the class of a type made earlier. A factory hands out handles of its own kind
and keeps a store of its own.
-/

set_option autoImplicit false

namespace CompactType

/-- A request for a type, whose parts are given by handles. -/
inductive Request (H : Type) where
  | scalar (scalar : Scalar)
  | pointer (elem : H)
  | array (elem : H) (count : UInt64)
  | vector (elem : H) (count : UInt32)
  /-- A named struct that gets its body later. -/
  | declare (name : String)
  | record (fields : List H)
  | function (params : List H) (ret : H) (variadic : Bool)
deriving DecidableEq, Repr

namespace Request

variable {H K : Type}

def typeClass : Request H → TypeClass
  | scalar k => k.typeClass
  | pointer _ => .pointer
  | array .. => .array
  | vector .. => .vector
  | declare _ | record _ => .struct
  | function .. => .function

def map (f : H → K) : Request H → Request K
  | scalar k => scalar k
  | pointer e => pointer (f e)
  | array e n => array (f e) n
  | vector e n => vector (f e) n
  | declare name => declare name
  | record fields => record (fields.map f)
  | function params ret variadic => function (params.map f) (f ret) variadic

def parts : Request H → List H
  | scalar _ | declare _ => []
  | pointer e | array e _ | vector e _ => [e]
  | record fields => fields
  | function params ret _ => params ++ [ret]

def kind : Request Nat → Kind
  | scalar k => .scalar k
  | pointer e => .pointer e
  | array e n => .array e n
  | vector e n => .vector e n
  | declare name => .struct (some name) none
  | record fields => .struct none (some fields)
  | function params ret variadic => .function params ret variadic

theorem typeClass_map (f : H → K) (r : Request H) : (r.map f).typeClass = r.typeClass := by
  cases r <;> rfl

theorem typeClass_kind (r : Request Nat) : r.kind.typeClass = r.typeClass := by
  cases r <;> rfl

end Request

/-- A call that changed a store, with the handle it returned. -/
inductive Call (H : Type) where
  | made (request : Request H) (handle : H)
  | body (handle : H) (fields : List H)
deriving DecidableEq, Repr

structure Factory (σ H : Type) where
  make : Request H → σ → H × σ
  setBody : H → List H → σ → Except Refusal Unit × σ
  classOf : σ → H → TypeClass

end CompactType
