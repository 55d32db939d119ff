/-!
# Numerals

Natural numbers as rows of digits, in a base up to sixteen.
-/

set_option autoImplicit false

namespace CompactType.Toml

def hexDigit? (c : Char) : Option Nat :=
  if c.isDigit then some (c.toNat - '0'.toNat)
  else if 'a' ≤ c && c ≤ 'f' then some (c.toNat - 'a'.toNat + 10)
  else if 'A' ≤ c && c ≤ 'F' then some (c.toNat - 'A'.toNat + 10)
  else none

def isDigitIn (base : Nat) (c : Char) : Bool := (hexDigit? c).any (· < base)

/-- The number that a row of digits stands for in the given base. Zeros may lead it. -/
def numeral? (base : Nat) (digits : List Char) : Option Nat :=
  if digits.isEmpty || !digits.all (isDigitIn base) then none
  else digits.foldlM (fun n c => return base * n + (← hexDigit? c)) 0

end CompactType.Toml
