import CompactType.Parse.Basic

/-!
# The forms of a specification

Each form is read after its first symbol, by means of a parser for the types inside it. What is
read is checked from left to right, and against classes only after the types inside are complete.
-/

set_option autoImplicit false

namespace CompactType.Parse

variable {σ H : Type}

inductive Element (H : Type) where
  | type (handle : H)
  | vararg
deriving DecidableEq, Repr

structure Placed (H : Type) where
  element : Element H
  pos : Nat
deriving DecidableEq, Repr

/-- A parser for one element. It finds none only at the end of the text. -/
abbrev ElementParser (σ H : Type) := Parser σ H (Option (Element H))

/-- Reads a type. At the end of the text `missing` is what is wrong. -/
def elementType (sub : ElementParser σ H) (missing : Cause) : Parser σ H H := do
  let start ← here
  match ← sub with
  | some (.type handle) => return handle
  | some .vararg => fail .misplacedVararg start
  | none => fail missing start

/-- Reads elements until the closing character, which is left unread, or the end of the text.
The first argument bounds their number. -/
def sequenceWithin (sub : ElementParser σ H) (closing : Char) : Nat → Parser σ H (List (Placed H))
  | 0 => return []
  | bound + 1 => do
    if ← looksAt closing then return []
    let start ← here
    match ← sub with
    | none => return []
    | some element => return ⟨element, start⟩ :: (← sequenceWithin sub closing bound)

/-- Reads elements until the closing character or the end. Each takes at least one character. -/
def sequence (sub : ElementParser σ H) (closing : Char) : Parser σ H (List (Placed H)) := do
  sequenceWithin sub closing ((← remaining) + 1)

/-- Takes a type with values. The causes are for markers and for types without values. -/
def valued (F : Factory σ H) (onMarker onType : Cause) : Placed H → Parser σ H H
  | ⟨.vararg, pos⟩ => fail onMarker pos
  | ⟨.type handle, pos⟩ => do
    unless (← classOf F handle).isValue do fail onType pos
    return handle

def field (F : Factory σ H) : Placed H → Parser σ H H :=
  valued F .misplacedVararg (.invalidElement "struct field")

def fields (F : Factory σ H) (sub : ElementParser σ H) : Parser σ H (List H) := do
  let elements ← sequence sub '}'
  if elements.isEmpty then failHere .emptyStruct
  let handles ← elements.mapM (field F)
  close '}'
  return handles

def record (F : Factory σ H) (sub : ElementParser σ H) : Parser σ H H := do
  request F (.record (← fields F sub))

/-- Reads a definition. The struct is registered before its body, which may refer to it. -/
def definition (F : Factory σ H) (config : Config) (sub : ElementParser σ H) : Parser σ H H := do
  let start ← here
  let id ← number UInt32.size .invalidTypeId
  let expected ← nextNumber
  if id ≠ expected then fail (.unexpectedTypeId id expected) start
  unless ← eat '{' do failHere (.nonStructAssigned id)
  let name := config.structName id
  let handle ← request F (.declare name)
  register handle
  emit (.assigned id name)
  complete F handle (← fields F sub)
  return handle

/-- Reads a reference. The struct may be incomplete still, inside its own body. -/
def reference : Parser σ H H := do
  let start ← here
  let id ← number UInt32.size .invalidTypeId
  match ← opened? id with
  | some handle => return handle
  | none => fail (.undefinedTypeId id) start

def crossedElement (F : Factory σ H) (sub : ElementParser σ H) (form : String)
    (allowed : TypeClass → Bool) : Parser σ H H := do
  let start ← here
  let elem ← elementType sub (.missingCross form)
  unless allowed (← classOf F elem) do fail (.invalidElement (form ++ " element")) start
  unless ← eat 'x' do failHere (.missingCross form)
  return elem

/-- A missing bracket is noticed before a count of zero. -/
def array (F : Factory σ H) (sub : ElementParser σ H) : Parser σ H H := do
  let elem ← crossedElement F sub "array" TypeClass.isValue
  let start ← here
  let count ← number UInt64.size .invalidArraySize
  close ']'
  if count = 0 then fail .zeroSizedArray start
  request F (.array elem (UInt64.ofNat count))

/-- A count of zero is noticed before a missing bracket. -/
def vector (F : Factory σ H) (sub : ElementParser σ H) : Parser σ H H := do
  let elem ← crossedElement F sub "vector" TypeClass.isLane
  let start ← here
  let count ← number UInt32.size .invalidVectorSize
  if count = 0 then fail .zeroSizedVector start
  close '>'
  request F (.vector elem (UInt32.ofNat count))

def pointer (F : Factory σ H) (sub : ElementParser σ H) : Parser σ H H := do
  request F (.pointer (← elementType sub .missingPointee))

def returned (F : Factory σ H) : Placed H → Parser σ H H
  | ⟨.vararg, pos⟩ => fail .variadicReturn pos
  | ⟨.type handle, pos⟩ => do
    if (← classOf F handle) = .function then fail (.invalidElement "return") pos
    return handle

/-- Takes the marker for further arguments off a list of elements, the last of which comes
first. -/
def splitVararg : List (Placed H) → Bool × List (Placed H)
  | ⟨.vararg, _⟩ :: rest => (true, rest)
  | elements => (false, elements)

/-- A last parameter of type void stands for no parameters and has to be alone. The last element
comes first. -/
def dropLoneVoid (F : Factory σ H) : List (Placed H) → Parser σ H (List (Placed H))
  | [] => return []
  | last :: rest => do
    let .type handle := last.element | return last :: rest
    if (← classOf F handle) ≠ .void then return last :: rest
    unless rest.isEmpty do fail .misplacedVoidParam last.pos
    return []

def param (F : Factory σ H) : Placed H → Parser σ H H := valued F .invalidParam .invalidParam

/-- Reads parameters and the returned type. A function without parameters has a single one of
type void, or the marker for further arguments alone. -/
def function (F : Factory σ H) (sub : ElementParser σ H) : Parser σ H H := do
  let elements ← sequence sub ')'
  match elements.reverse with
  | [] | [_] => failHere .functionTooShort
  | last :: before => do
    let ret ← returned F last
    let (variadic, before) := splitVararg before
    let before ← dropLoneVoid F before
    let params ← before.reverse.mapM (param F)
    close ')'
    request F (.function params ret variadic)

/-- Reads one element. Closing symbols and the cross start no element; they are for the form
around to read. -/
def dispatch (F : Factory σ H) (config : Config) (sub : ElementParser σ H) :
    Parser σ H (Option (Element H)) := do
  let some c ← peek? | return none
  let start ← here
  let some symbol := Symbol.ofChar? c | fail (.unexpectedChar c) start
  emit (.symbol symbol start)
  advance
  match symbol with
  | .openBrace => return some (.type (← record F sub))
  | .openBracket => return some (.type (← array F sub))
  | .less => return some (.type (← vector F sub))
  | .star => return some (.type (← pointer F sub))
  | .openParen => return some (.type (← function F sub))
  | .equals => return some (.type (← definition F config sub))
  | .percent => return some (.type (← reference))
  | .ampersand => return some .vararg
  | .scalar letter => return some (.type (← request F (.scalar letter.scalar)))
  | .closeBrace | .closeBracket | .greater | .closeParen | .cross =>
    fail (.unexpectedChar c) start

end CompactType.Parse
