import CompactType.Config
import CompactType.Diagnostic
import CompactType.Proofs.Grammar

/-!
# The evidence for a fault

What a text shows at the place of a fault. The text is cut in two there; what ends the first part
and what begins the second one tell the cause. All of the first part has a meaning in a
specification.
-/

set_option autoImplicit false

namespace CompactType

/-- The characters with a meaning in a specification. -/
def Lexical (c : Char) : Prop := (∃ symbol : Symbol, symbol.char = c) ∨ c.isDigit = true

/-- The digits at the front are no number below the limit, or there are none. -/
def NoNumber (limit : Nat) (text : List Char) : Prop :=
  text.takeWhile Char.isDigit = [] ∨ limit ≤ Nat.ofDigitChars 10 (text.takeWhile Char.isDigit) 0

/-- The digits at the front, all of them, are a number. -/
def StartsNumber (value : Nat) (text : List Char) : Prop :=
  ∃ run rest, text = run ++ rest ∧ Numeral run value ∧ NoDigit rest

def StartsZeros (text : List Char) : Prop :=
  ∃ zeros rest, text = zeros ++ rest ∧ zeros ≠ [] ∧ (∀ c ∈ zeros, c = '0') ∧ NoDigit rest

/-- At the front stands a type of a class with the property. -/
def StartsType (property : TypeClass → Prop) (text : List Char) : Prop :=
  ∃ n m type rest s, text = type ++ rest ∧ Spells n type s m ∧ property s.typeClass

/-- The classes of types that may not stand in the named place. -/
def Unfit (place : String) (k : TypeClass) : Prop :=
  place ∈ ["struct field", "array element"] ∧ k.isValue = false ∨
    place = "vector element" ∧ k.isLane = false ∨ place = "return" ∧ k = .function

/-- A text with the cut shows the cause. Structs are defined by equals signs, so the number of
these is the next number of a struct. Each level of nesting takes a character. -/
def Evident (config : Config) (before after : List Char) : Cause → Prop
  | .unexpectedChar c => after.head? = some c ∧ ∀ n m rest s, ¬Spells n (c :: rest) s m
  | .missingClose c =>
    c ∈ ['}', ')'] ∧ after = [] ∨ c ∈ [']', '>'] ∧ after.head? ≠ some c
  | .missingCross _ => after.head? ≠ some 'x'
  | .missingPointee => before.getLast? = some '*' ∧ after = []
  | .emptyStruct => before.getLast? = some '{' ∧ (after = [] ∨ after.head? = some '}')
  | .functionTooShort => after = [] ∨ after.head? = some ')'
  | .invalidArraySize => before.getLast? = some 'x' ∧ NoNumber UInt64.size after
  | .invalidVectorSize => before.getLast? = some 'x' ∧ NoNumber UInt32.size after
  | .invalidTypeId =>
    (before.getLast? = some '=' ∨ before.getLast? = some '%') ∧ NoNumber UInt32.size after
  | .zeroSizedArray | .zeroSizedVector => before.getLast? = some 'x' ∧ StartsZeros after
  | .unexpectedTypeId got expected =>
    before.getLast? = some '=' ∧ StartsNumber got after ∧ before.count '=' = expected + 1 ∧
      got ≠ expected
  | .undefinedTypeId number =>
    before.getLast? = some '%' ∧ StartsNumber number after ∧ before.count '=' ≤ number
  | .nonStructAssigned number =>
    (∃ front run, before = front ++ '=' :: run ∧ Numeral run number ∧ front.count '=' = number) ∧
      NoDigit after ∧ after.head? ≠ some '{'
  | .misplacedVararg => after.head? = some '&'
  | .variadicReturn => ∃ rest, after = '&' :: rest ∧ (rest = [] ∨ rest.head? = some ')')
  | .misplacedVoidParam => after.head? = some 'v'
  | .invalidParam => after.head? = some '&' ∨ StartsType (fun k => k.isValue = false) after
  | .invalidElement place => StartsType (Unfit place) after
  | .emptySpec => before = [] ∧ after = []
  | .trailingInput => (∃ s m, Spells 0 before s m) ∧ after ≠ []
  | .nestingTooDeep maxDepth => maxDepth = config.maxDepth ∧ maxDepth ≤ before.length
  | .factory _ => False

theorem StartsType.imp {property weaker : TypeClass → Prop} {text : List Char}
    (h : StartsType property text) (hWeaker : ∀ k, property k → weaker k) :
    StartsType weaker text := by
  obtain ⟨n, m, type, rest, s, hText, hSpells, hProperty⟩ := h
  exact ⟨n, m, type, rest, s, hText, hSpells, hWeaker _ hProperty⟩

theorem lexical_char (symbol : Symbol) : Lexical symbol.char := .inl ⟨symbol, rfl⟩

theorem Lexical.utf8Size_eq {c : Char} (h : Lexical c) : c.utf8Size = 1 := by
  obtain ⟨symbol, rfl⟩ | hDigit := h
  · exact symbol.utf8Size_char
  · exact utf8Size_of_isDigit hDigit

theorem Numeral.lexical {run : List Char} {value : Nat} (h : Numeral run value) :
    ∀ c ∈ run, Lexical c :=
  fun c hc => .inr (h.isDigit c hc)

theorem Numeral.eq_of_zero {run : List Char} (h : Numeral run 0) : ∀ c ∈ run, c = '0' := by
  obtain ⟨-, hDigits, hValue⟩ := h
  induction run with
  | nil => simp
  | cons c run ih =>
    rw [List.forall_mem_cons] at hDigits ⊢
    rw [Nat.ofDigitChars_cons, Nat.ofDigitChars_eq_ofDigitChars_zero, Nat.add_eq_zero_iff,
      Nat.mul_eq_zero] at hValue
    have hPow : 10 ^ run.length ≠ 0 := Nat.ne_of_gt (Nat.pow_pos (by decide))
    have hFirst : 10 * 0 + (c.toNat - '0'.toNat) = 0 := hValue.1.resolve_left hPow
    have hLower : '0'.toNat ≤ c.toNat := by
      have hDigit := hDigits.1
      simp only [Char.isDigit, Bool.and_eq_true, decide_eq_true_eq] at hDigit
      exact hDigit.1
    refine ⟨Char.toNat_inj.mp ?_, ih hDigits.2 hValue.2⟩
    omega

mutual

theorem Spells.lexical {n m : Nat} {text : List Char} {s : Spec} (h : Spells n text s m) :
    ∀ c ∈ text, Lexical c := by
  cases h with
  | scalar letter => simpa using lexical_char (.scalar letter)
  | pointer h =>
    rw [List.forall_mem_cons]
    exact ⟨lexical_char .star, h.lexical⟩
  | array h _ hNumeral =>
    simp only [List.forall_mem_cons, List.forall_mem_append]
    exact ⟨lexical_char .openBracket, h.lexical, lexical_char .cross, hNumeral.lexical,
      lexical_char .closeBracket, List.forall_mem_nil _⟩
  | vector h _ hNumeral =>
    simp only [List.forall_mem_cons, List.forall_mem_append]
    exact ⟨lexical_char .less, h.lexical, lexical_char .cross, hNumeral.lexical,
      lexical_char .greater, List.forall_mem_nil _⟩
  | record h =>
    simp only [List.forall_mem_cons, List.forall_mem_append]
    exact ⟨lexical_char .openBrace, h.lexical, lexical_char .closeBrace, List.forall_mem_nil _⟩
  | define hNumeral _ h =>
    simp only [List.forall_mem_cons, List.forall_mem_append]
    exact ⟨lexical_char .equals, hNumeral.lexical, lexical_char .openBrace, h.lexical,
      lexical_char .closeBrace, List.forall_mem_nil _⟩
  | reference hNumeral =>
    rw [List.forall_mem_cons]
    exact ⟨lexical_char .percent, hNumeral.lexical⟩
  | nullary h =>
    simp only [List.forall_mem_cons, List.forall_mem_append]
    exact ⟨lexical_char .openParen, lexical_char (.scalar .void), h.lexical,
      lexical_char .closeParen, List.forall_mem_nil _⟩
  | nullaryVariadic h =>
    simp only [List.forall_mem_cons, List.forall_mem_append]
    exact ⟨lexical_char .openParen, lexical_char (.scalar .void), lexical_char .ampersand,
      h.lexical, lexical_char .closeParen, List.forall_mem_nil _⟩
  | function hParams _ _ hRet =>
    simp only [List.forall_mem_cons, List.forall_mem_append]
    exact ⟨lexical_char .openParen, hParams.lexical, hRet.lexical, lexical_char .closeParen,
      List.forall_mem_nil _⟩
  | variadic hParams _ hRet =>
    simp only [List.forall_mem_cons, List.forall_mem_append]
    exact ⟨lexical_char .openParen, hParams.lexical, lexical_char .ampersand, hRet.lexical,
      lexical_char .closeParen, List.forall_mem_nil _⟩

theorem SpellsAll.lexical {n m : Nat} {text : List Char} {specs : List Spec}
    (h : SpellsAll n text specs m) : ∀ c ∈ text, Lexical c := by
  cases h with
  | nil => exact List.forall_mem_nil _
  | cons hHead hTail => exact List.forall_mem_append.mpr ⟨hHead.lexical, hTail.lexical⟩

end

/-- Symbols that start no element. -/
def Symbol.isClosing : Symbol → Bool
  | .closeBrace | .closeBracket | .greater | .closeParen | .cross => true
  | _ => false

theorem Spells.exists_symbol {n m : Nat} {c : Char} {rest : List Char} {s : Spec}
    (h : Spells n (c :: rest) s m) : ∃ symbol : Symbol, symbol.char = c ∧
      symbol.isClosing = false := by
  cases h with
  | scalar letter => exact ⟨.scalar letter, rfl, rfl⟩
  | pointer => exact ⟨.star, rfl, rfl⟩
  | array => exact ⟨.openBracket, rfl, rfl⟩
  | vector => exact ⟨.less, rfl, rfl⟩
  | record => exact ⟨.openBrace, rfl, rfl⟩
  | define => exact ⟨.equals, rfl, rfl⟩
  | reference => exact ⟨.percent, rfl, rfl⟩
  | nullary | nullaryVariadic | function | variadic => exact ⟨.openParen, rfl, rfl⟩

theorem not_spells_of_unknown {n m : Nat} {c : Char} {rest : List Char} {s : Spec}
    (hc : Symbol.ofChar? c = none) : ¬Spells n (c :: rest) s m := by
  intro h
  obtain ⟨symbol, rfl, -⟩ := h.exists_symbol
  rw [Symbol.ofChar?_char] at hc
  cases hc

theorem not_spells_of_isClosing {n m : Nat} {symbol : Symbol} {rest : List Char} {s : Spec}
    (hClosing : symbol.isClosing = true) : ¬Spells n (symbol.char :: rest) s m := by
  intro h
  obtain ⟨symbol', hChar, hNot⟩ := h.exists_symbol
  obtain rfl := Symbol.char_injective hChar
  cases hClosing.symm.trans hNot

end CompactType
