/-!
# Scalar types and coarse classes

The nine scalar types and the classes that a type is sorted into. A specification is checked
against classes alone, so that any store of types can be filled from it.
-/

set_option autoImplicit false

namespace CompactType

inductive TypeClass where
  | void
  | integer
  | float
  | mmx
  | pointer
  | array
  | vector
  | struct
  | function
deriving DecidableEq, Repr, Inhabited

namespace TypeClass

/-- Classes whose types have values: they may be fields, array elements and parameters. -/
def isValue : TypeClass → Bool
  | void | function => false
  | _ => true

def isLane : TypeClass → Bool
  | integer | float | pointer => true
  | _ => false

end TypeClass

inductive Scalar where
  | void
  | i8
  | i16
  | i32
  | i64
  | f32
  | f64
  | f80
  | mmx
deriving DecidableEq, Repr, Inhabited

namespace Scalar

def all : List Scalar := [void, i8, i16, i32, i64, f32, f64, f80, mmx]

def bits : Scalar → Nat
  | void => 0
  | i8 => 8
  | i16 => 16
  | i32 | f32 => 32
  | i64 | f64 | mmx => 64
  | f80 => 80

def typeClass : Scalar → TypeClass
  | void => .void
  | i8 | i16 | i32 | i64 => .integer
  | f32 | f64 | f80 => .float
  | mmx => .mmx

def text : Scalar → String
  | void => "void"
  | i8 => "i8"
  | i16 => "i16"
  | i32 => "i32"
  | i64 => "i64"
  | f32 => "f32"
  | f64 => "f64"
  | f80 => "f80"
  | mmx => "mmx"

end Scalar

end CompactType
