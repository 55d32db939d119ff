import CompactType.Symbol

/-!
# Specifications as trees

A specification with its structure: named structs are numbered where they are defined and
referred to by number elsewhere. Each tree has one canonical spelling.
-/

set_option autoImplicit false

namespace CompactType

inductive Spec where
  | scalar (scalar : Scalar)
  | pointer (elem : Spec)
  | array (elem : Spec) (count : UInt64)
  | vector (elem : Spec) (count : UInt32)
  | record (fields : List Spec)
  | define (number : Nat) (fields : List Spec)
  | reference (number : Nat)
  | function (params : List Spec) (ret : Spec) (variadic : Bool)
deriving Repr, Inhabited

namespace Spec

def digits (n : Nat) : List Char := Nat.toDigits 10 n

/-- The marker that stands for an empty list of parameters. -/
def noParams (params : List Spec) (variadic : Bool) : List Char :=
  if params.isEmpty && !variadic then ['v'] else []

def varargMark (variadic : Bool) : List Char :=
  if variadic then ['&'] else []

mutual

def spelling : Spec → List Char
  | scalar k => [(Symbol.scalar (.ofScalar k)).char]
  | pointer e => '*' :: e.spelling
  | array e n => '[' :: (e.spelling ++ 'x' :: (digits n.toNat ++ [']']))
  | vector e n => '<' :: (e.spelling ++ 'x' :: (digits n.toNat ++ ['>']))
  | record fields => '{' :: (spellings fields ++ ['}'])
  | define number fields => '=' :: (digits number ++ '{' :: (spellings fields ++ ['}']))
  | reference number => '%' :: digits number
  | function params ret variadic =>
    '(' :: (noParams params variadic ++ spellings params ++ varargMark variadic ++
      ret.spelling ++ [')'])

def spellings : List Spec → List Char
  | [] => []
  | s :: rest => s.spelling ++ spellings rest

end

section Spelling

variable (e ret : Spec) (fields params : List Spec)

theorem spelling_scalar (k : Scalar) :
    (scalar k).spelling = [(Symbol.scalar (.ofScalar k)).char] := rfl

theorem spelling_array (count : UInt64) : (array e count).spelling =
    '[' :: (e.spelling ++ 'x' :: (digits count.toNat ++ [']'])) := rfl

theorem spelling_vector (count : UInt32) : (vector e count).spelling =
    '<' :: (e.spelling ++ 'x' :: (digits count.toNat ++ ['>'])) := rfl

theorem spelling_record : (record fields).spelling = '{' :: (spellings fields ++ ['}']) := rfl

theorem spelling_define (number : Nat) : (define number fields).spelling =
    '=' :: (digits number ++ '{' :: (spellings fields ++ ['}'])) := rfl

theorem spelling_function (variadic : Bool) : (function params ret variadic).spelling =
    '(' :: (noParams params variadic ++ spellings params ++ varargMark variadic ++
      ret.spelling ++ [')']) := rfl

end Spelling

def text (s : Spec) : String := String.ofList s.spelling

theorem spellings_eq_flatMap (specs : List Spec) : spellings specs = specs.flatMap spelling := by
  induction specs with
  | nil => rfl
  | cons s rest ih => simp [spellings, ih]

end Spec

end CompactType
