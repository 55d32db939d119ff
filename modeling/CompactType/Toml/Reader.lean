/-!
# Readers

A reader takes what it reads off the front of a list, of characters or of tokens, or refuses the
list.
-/

set_option autoImplicit false

namespace CompactType.Toml

abbrev Reader (τ : Type) := StateT (List τ) Option

namespace Reader

variable {τ α : Type}

def remaining : Reader τ Nat := return (← get).length

def takeWhile (accepts : τ → Bool) : Reader τ (List τ) :=
  modifyGet fun rest => (rest.takeWhile accepts, rest.dropWhile accepts)

def skipWhile (accepts : τ → Bool) : Reader τ Unit := modify (·.dropWhile accepts)

/-- Reads the given items if they come next, and says whether they did. -/
def eat [BEq τ] (expected : List τ) : Reader τ Bool := do
  if expected.isPrefixOf (← get) then
    modify (·.drop expected.length)
    return true
  else return false

def expect [BEq τ] (expected : List τ) : Reader τ Unit := do
  unless ← eat expected do failure

/-- Repeats a reader until it says that it was the last time, at most the given number of times,
and adds what it read to what was read before. -/
def collectWithin (one : Reader τ (Option α)) : Nat → List α → Reader τ (List α)
  | 0, _ => failure
  | bound + 1, before => do
    match ← one with
    | none => return before.reverse
    | some a => collectWithin one bound (a :: before)

/-- Repeats a reader that takes at least one item each time but the last. -/
def collect (one : Reader τ (Option α)) : Reader τ (List α) := do
  collectWithin one ((← remaining) + 1) []

def whole? (reader : Reader τ α) (items : List τ) : Option α :=
  match reader.run items with
  | some (a, []) => some a
  | _ => none

end Reader

end CompactType.Toml
