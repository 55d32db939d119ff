import CompactType.Refusal

/-!
# Diagnostics

What can be wrong with a specification, where, and how it is shown: a message, the specification
and a caret below the offending character.
-/

set_option autoImplicit false

namespace CompactType

inductive Category where
  | malformedToken
  | unterminatedSequence
  | structuralViolation
  | idViolation
  | lexical
  | trailingInput
  | limit
deriving DecidableEq, Repr

inductive Cause where
  | invalidArraySize
  | invalidVectorSize
  | invalidTypeId
  | missingClose (close : Char)
  | emptySpec
  | emptyStruct
  /-- No count follows the element of the named form, an array or a vector. -/
  | missingCross (form : String)
  | zeroSizedArray
  | zeroSizedVector
  | missingPointee
  | functionTooShort
  | variadicReturn
  | misplacedVoidParam
  | invalidParam
  /-- A type of the wrong class in the named place. -/
  | invalidElement (place : String)
  | misplacedVararg
  | nonStructAssigned (number : Nat)
  | unexpectedTypeId (got : Nat) (expected : Nat)
  | undefinedTypeId (number : Nat)
  | unexpectedChar (char : Char)
  | trailingInput
  | nestingTooDeep (maxDepth : Nat)
  | factory (refusal : Refusal)
deriving DecidableEq, Repr, Inhabited

/-- A character as it appears between quotes: printable ASCII stands for itself, the rest is
written with an escape. -/
def escapedChar (c : Char) : String :=
  match c with
  | '\t' => "\\t"
  | '\r' => "\\r"
  | '\n' => "\\n"
  | '\'' => "\\'"
  | '"' => "\\\""
  | '\\' => "\\\\"
  | c =>
    if 0x20 ≤ c.toNat && c.toNat ≤ 0x7e then String.singleton c
    else "\\u\x7b" ++ String.ofList (Nat.toDigits 16 c.toNat) ++ "\x7d"

namespace Cause

def category : Cause → Category
  | invalidArraySize | invalidVectorSize | invalidTypeId => .malformedToken
  | missingClose _ => .unterminatedSequence
  | unexpectedTypeId .. | undefinedTypeId _ => .idViolation
  | unexpectedChar _ => .lexical
  | trailingInput => .trailingInput
  | nestingTooDeep _ => .limit
  | emptySpec | emptyStruct | missingCross _ | zeroSizedArray | zeroSizedVector | missingPointee
  | functionTooShort | variadicReturn | misplacedVoidParam | invalidParam | invalidElement _
  | misplacedVararg | nonStructAssigned _ | factory _ => .structuralViolation

def message : Cause → String
  | invalidArraySize => "unable to parse array size"
  | invalidVectorSize => "unable to parse vector size"
  | invalidTypeId => "unable to parse type id"
  | missingClose close => s!"missing closing '{close}'"
  | emptySpec => "missing type"
  | emptyStruct => "structure must have at least one field"
  | missingCross form => s!"missing 'x' in {form} type"
  | zeroSizedArray => "invalid zero-sized array"
  | zeroSizedVector => "invalid zero-sized vector"
  | missingPointee => "missing subtype for pointer type"
  | functionTooShort =>
    "function types must have at least two internal types, eg. '(vv)' for a function taking " ++
      "nothing and returning nothing"
  | variadicReturn => "cannot have a variadic return type"
  | misplacedVoidParam => "invalid placement of void parameter type"
  | invalidParam => "invalid parameter type"
  | invalidElement place => s!"invalid {place} type"
  | misplacedVararg => "variadic marker '&' outside of function parameter list"
  | nonStructAssigned number => s!"non-structure type assigned to type id '{number}'"
  | unexpectedTypeId got expected =>
    s!"invalid type id assignment '{got}', next expected type id was '{expected}'"
  | undefinedTypeId number => s!"invalid type id use '{number}'"
  | unexpectedChar c => "unexpected character '" ++ escapedChar c ++ "'"
  | trailingInput => "trailing unparsed characters"
  | nestingTooDeep maxDepth => s!"nesting deeper than {maxDepth} levels"
  | factory refusal => refusal.message

end Cause

structure Fault where
  cause : Cause
  pos : Nat
deriving DecidableEq, Repr, Inhabited

structure Diagnostic extends Fault where
  spec : String
deriving DecidableEq, Repr, Inhabited

def columnAt : List Char → Nat → Nat
  | [], _ => 0
  | c :: rest, pos => if pos = 0 then 0 else columnAt rest (pos - c.utf8Size) + 1

namespace Diagnostic

def category (d : Diagnostic) : Category := d.cause.category

def message (d : Diagnostic) : String := d.cause.message

/-- The caret stands below the first character that does not start before the offset. -/
def column (d : Diagnostic) : Nat := columnAt d.spec.toList d.pos

def render (d : Diagnostic) : String :=
  "error: " ++ d.message ++ " in type specification '" ++ d.spec ++ "'\n    | " ++ d.spec ++
    "\n    | " ++ String.ofList (List.replicate d.column ' ') ++ "^"

end Diagnostic

theorem columnAt_zero (cs : List Char) : columnAt cs 0 = 0 := by
  cases cs <;> simp [columnAt]

end CompactType
