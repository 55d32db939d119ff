import CompactType.Scalar

/-!
# The symbols of a specification

Every character with a meaning in a specification, decimal digits apart. Reading a symbol and
writing it are inverse to each other; of the letters for scalars one is canonical for each scalar.
-/

set_option autoImplicit false

namespace CompactType

/-- A letter that stands for a scalar. Upper-case integer letters are the unsigned spelling. -/
inductive Letter where
  | char
  | uchar
  | short
  | ushort
  | int
  | uint
  | long
  | ulong
  | float
  | double
  | longDouble
  | mmx
  | void
deriving DecidableEq, Repr

namespace Letter

def all : List Letter :=
  [char, uchar, short, ushort, int, uint, long, ulong, float, double, longDouble, mmx, void]

/-- Signedness is dropped: both spellings of an integer give the same scalar. -/
def scalar : Letter → Scalar
  | char | uchar => .i8
  | short | ushort => .i16
  | int | uint => .i32
  | long | ulong => .i64
  | float => .f32
  | double => .f64
  | longDouble => .f80
  | mmx => .mmx
  | void => .void

def ofScalar : Scalar → Letter
  | .i8 => char
  | .i16 => short
  | .i32 => int
  | .i64 => long
  | .f32 => float
  | .f64 => double
  | .f80 => longDouble
  | .mmx => mmx
  | .void => void

@[simp] theorem scalar_ofScalar (k : Scalar) : (ofScalar k).scalar = k := by
  cases k <;> rfl

end Letter

inductive Symbol where
  | openBrace
  | closeBrace
  | openBracket
  | closeBracket
  | less
  | greater
  | star
  | openParen
  | closeParen
  | ampersand
  | equals
  | percent
  | cross
  | scalar (letter : Letter)
deriving DecidableEq, Repr

namespace Symbol

def all : List Symbol :=
  [openBrace, closeBrace, openBracket, closeBracket, less, greater, star, openParen, closeParen,
    ampersand, equals, percent, cross] ++ Letter.all.map scalar

def char : Symbol → Char
  | openBrace => '{'
  | closeBrace => '}'
  | openBracket => '['
  | closeBracket => ']'
  | less => '<'
  | greater => '>'
  | star => '*'
  | openParen => '('
  | closeParen => ')'
  | ampersand => '&'
  | equals => '='
  | percent => '%'
  | cross => 'x'
  | scalar .char => 'b'
  | scalar .uchar => 'B'
  | scalar .short => 'h'
  | scalar .ushort => 'H'
  | scalar .int => 'i'
  | scalar .uint => 'I'
  | scalar .long => 'l'
  | scalar .ulong => 'L'
  | scalar .float => 'f'
  | scalar .double => 'd'
  | scalar .longDouble => 'D'
  | scalar .mmx => 'M'
  | scalar .void => 'v'

def ofChar? (c : Char) : Option Symbol :=
  all.find? fun s => s.char == c

def scalar? : Symbol → Option Scalar
  | scalar letter => some letter.scalar
  | _ => none

theorem ofChar?_char (s : Symbol) : ofChar? s.char = some s := by
  cases s with
  | scalar letter => cases letter <;> rfl
  | _ => rfl

theorem char_of_ofChar? {c : Char} {s : Symbol} (h : ofChar? c = some s) : s.char = c := by
  simpa using List.find?_some h

theorem ofChar?_eq_some_iff {c : Char} {s : Symbol} : ofChar? c = some s ↔ s.char = c :=
  ⟨char_of_ofChar?, fun h => h ▸ ofChar?_char s⟩

theorem char_injective {a b : Symbol} (h : a.char = b.char) : a = b :=
  Option.some.inj ((ofChar?_char a).symm.trans (h ▸ ofChar?_char b))

/-- Symbols take one byte each, so a position after symbols counts bytes and characters alike. -/
theorem utf8Size_char (s : Symbol) : s.char.utf8Size = 1 := by
  cases s with
  | scalar letter => cases letter <;> rfl
  | _ => rfl

theorem char_ne_digit (s : Symbol) : s.char.isDigit = false := by
  cases s with
  | scalar letter => cases letter <;> rfl
  | _ => rfl

end Symbol

end CompactType
