/-!
# A read position in a sequence

A cursor holds what is still unread and how much was read. It only moves forward, by single units
or by the longest run of units that a predicate accepts.
-/

set_option autoImplicit false

namespace CompactType

structure Cursor (α : Type) where
  pos : Nat
  rest : List α
deriving Repr

namespace Cursor

variable {α : Type}

def ofList (units : List α) : Cursor α := ⟨0, units⟩

def ofBytes (text : String) : Cursor UInt8 := ofList text.toUTF8.data.toList

def length (c : Cursor α) : Nat := c.pos + c.rest.length

def atEnd (c : Cursor α) : Bool := c.rest.isEmpty

def peek? (c : Cursor α) : Option α := c.rest.head?

def advance (c : Cursor α) : Cursor α :=
  match c.rest with
  | [] => c
  | _ :: rest => ⟨c.pos + 1, rest⟩

def looksAt [BEq α] (c : Cursor α) (unit : α) : Bool := c.peek? == some unit

def eat [BEq α] (c : Cursor α) (unit : α) : Bool × Cursor α :=
  if c.looksAt unit then (true, c.advance) else (false, c)

def takeRun (c : Cursor α) (accepts : α → Bool) : List α × Cursor α :=
  let run := c.rest.takeWhile accepts
  (run, ⟨c.pos + run.length, c.rest.dropWhile accepts⟩)

/-- Reads the longest run of accepted bytes as text. The answer is `none` if the run is empty or
cuts through a character. -/
def takeText (c : Cursor UInt8) (accepts : UInt8 → Bool) : Option String × Cursor UInt8 :=
  let (run, after) := c.takeRun accepts
  (if run.isEmpty then none else String.fromUTF8? ⟨run.toArray⟩, after)

def isDigitByte (b : UInt8) : Bool := 48 ≤ b && b ≤ 57

def takeDigits (c : Cursor UInt8) : Option String × Cursor UInt8 :=
  c.takeText isDigitByte

@[simp] theorem length_ofList (units : List α) : (ofList units).length = units.length := by
  simp [length, ofList]

@[simp] theorem length_advance (c : Cursor α) : c.advance.length = c.length := by
  unfold advance length
  split
  · rfl
  · next h =>
    simp only [h, List.length_cons]
    omega

theorem pos_le_pos_advance (c : Cursor α) : c.pos ≤ c.advance.pos := by
  unfold advance
  split <;> simp

@[simp] theorem length_eat [BEq α] (c : Cursor α) (unit : α) : (c.eat unit).2.length = c.length := by
  unfold eat
  split <;> simp

@[simp] theorem length_takeRun (c : Cursor α) (accepts : α → Bool) :
    (c.takeRun accepts).2.length = c.length := by
  have h := congrArg List.length (List.takeWhile_append_dropWhile (p := accepts) (l := c.rest))
  simp only [List.length_append] at h
  simp only [takeRun, length]
  omega

theorem pos_takeRun (c : Cursor α) (accepts : α → Bool) :
    (c.takeRun accepts).2.pos = c.pos + (c.takeRun accepts).1.length := rfl

theorem pos_le_length (c : Cursor α) : c.pos ≤ c.length := Nat.le_add_right _ _

end Cursor

end CompactType
