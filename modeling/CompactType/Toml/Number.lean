import CompactType.Toml.Node
import CompactType.Toml.Numeral

/-!
# Numbers

Integers in four bases and floats. Single underscores may separate digits.
-/

set_option autoImplicit false

namespace CompactType.Toml

def separated (isDigit : Char → Bool) : List Char → Bool
  | [] => true
  | '_' :: _ => false
  | a :: '_' :: b :: rest => isDigit a && isDigit b && separated isDigit (b :: rest)
  | _ :: rest => separated isDigit rest

def joined (written : List Char) : List Char := written.filter (· != '_')

inductive Sign where
  | plus
  | minus
deriving DecidableEq, Repr

def splitSign : List Char → Option Sign × List Char
  | '+' :: rest => (some .plus, rest)
  | '-' :: rest => (some .minus, rest)
  | written => (none, written)

def signed? (sign : Option Sign) (digits : List Char) : Option Int := do
  let n ← numeral? 10 digits
  return if sign = some .minus then -(Int.ofNat n) else Int.ofNat n

/-- The integer that follows the mark of a base. Without any digits it has no value. -/
def based? (base : Nat) (written : List Char) : Option Node :=
  let digits := joined written
  if digits.all (isDigitIn base) && separated (isDigitIn base) written then
    some (.integer (Int.ofNat <$> numeral? base digits))
  else none

/-- An integer in decimal notation, which no zero leads. Where digits are grouped, hexadecimal ones
may stand around the underscores, and more that is no digit between them; there is no value then. -/
def decimal? (sign : Option Sign) (magnitude : List Char) : Option Node :=
  match magnitude with
  | [] | '0' :: _ => none
  | _ =>
    if (magnitude.dropWhile Char.isDigit).head?.all (· == '_') &&
        separated (isDigitIn 16) magnitude then
      some (.integer (signed? sign (joined magnitude)))
    else none

def isExponentMark (c : Char) : Bool := c == 'e' || c == 'E'

def isPoint (c : Char) : Bool := c == '.' || isExponentMark c

def exponent? : List Char → Option Int
  | [] => some 0
  | _ :: rest =>
    let (sign, digits) := splitSign rest
    signed? sign digits

/-- A float without its sign: digits, of which a zero is the first only if it is alone, and after
them digits behind a point, an exponent, or both. -/
def float? (magnitude : List Char) : Option Real := do
  unless separated Char.isDigit magnitude do none
  let digits := joined magnitude
  let whole := digits.takeWhile fun c => !isPoint c
  if whole.isEmpty || (whole.head? == some '0' && 1 < whole.length) then none
  let (fraction, rest) ← match digits.dropWhile fun c => !isPoint c with
    | '.' :: rest =>
      let fraction := rest.takeWhile fun c => !isExponentMark c
      if fraction.isEmpty then none
      else some (fraction, rest.dropWhile fun c => !isExponentMark c)
    | rest => some ([], rest)
  let mantissa ← numeral? 10 (whole ++ fraction)
  return .scientific mantissa ((← exponent? rest) - fraction.length)

/-- A number without the mark of a base. A blank in it makes it none. -/
def number? (written : List Char) : Option Node :=
  let (sign, magnitude) := splitSign written
  match magnitude with
  | ['0'] => some (.integer (some 0))
  | ['i', 'n', 'f'] => some (.float .infinite)
  | ['n', 'a', 'n'] => some (.float .undefined)
  | _ =>
    if magnitude.contains ' ' then none
    else if magnitude.any isPoint then .float <$> float? magnitude
    else decimal? sign magnitude

end CompactType.Toml
