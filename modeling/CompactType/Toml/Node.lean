/-!
# Nodes of a TOML document

The values of a document and the ways in which a table can come about. How a table came about
decides what later statements may add to it.
-/

set_option autoImplicit false

namespace CompactType.Toml

inductive Style where
  /-- Opened by a header of its own, or the root. -/
  | header
  /-- Passed by a longer header. -/
  | implied
  /-- Passed by a dotted key. -/
  | dotted
  /-- Written in braces; closed for good. -/
  | inline
deriving DecidableEq, Repr

inductive Real where
  | infinite
  | undefined
  | scientific (mantissa : Nat) (exponent : Int)
deriving DecidableEq, Repr

namespace Real

/-- Halfway between the greatest double and the next power of two: from here on a number rounds
to infinity. -/
def doubleLimit : Nat := 1 <<< 1024 - 1 <<< 970

/-- Whether a number in decimal notation is too large for a double. Its number of digits settles
all but the borderline cases. -/
def overflows : Real → Bool
  | infinite | undefined => false
  | scientific mantissa exponent =>
    let digits : Int := (Nat.toDigits 10 mantissa).length + exponent
    if mantissa = 0 || digits ≤ 308 then false
    else if 310 ≤ digits then true
    else if 0 ≤ exponent then doubleLimit ≤ mantissa * Nat.pow 10 exponent.toNat
    else doubleLimit * Nat.pow 10 (-exponent).toNat ≤ mantissa

end Real

inductive Node where
  /-- An integer. What is written like one may lack a value. -/
  | integer (value : Option Int)
  | float (value : Real)
  | boolean (value : Bool)
  | moment (written : String)
  | text (value : String)
  /-- An array. One that headers built, table by table, can grow. -/
  | array (grows : Bool) (items : List Node)
  | table (style : Style) (entries : List (String × Node))
deriving Repr, Inhabited

abbrev Entries := List (String × Node)

mutual

/-- Whether all numbers in a node have a value with a machine representation: integers of 128 bits,
signed or not, and doubles. -/
def Node.fits : Node → Bool
  | .integer (some (.ofNat n)) => n < 1 <<< 128
  | .integer (some (.negSucc n)) => n < 1 <<< 127
  | .integer none => false
  | .float value => !value.overflows
  | .boolean _ | .moment _ | .text _ => true
  | .array _ items => allFit items
  | .table _ entries => entriesFit entries

def allFit : List Node → Bool
  | [] => true
  | node :: rest => node.fits && allFit rest

def entriesFit : List (String × Node) → Bool
  | [] => true
  | (_, node) :: rest => node.fits && entriesFit rest

end

end CompactType.Toml
