import CompactType.Spec

/-!
# The grammar of specifications

Which texts spell a type, and which tree each of them spells. The number of structs defined
further left is passed through a text from left to right; what a form may hold depends on the
classes of the types inside it.
-/

set_option autoImplicit false

namespace CompactType

namespace Spec

/-- The class of the type that a tree stands for. -/
def typeClass : Spec → TypeClass
  | scalar k => k.typeClass
  | pointer _ => .pointer
  | array .. => .array
  | vector .. => .vector
  | record _ | define .. | reference _ => .struct
  | function .. => .function

mutual

/-- Scalars and references are one level deep; every form around adds one. -/
def nesting : Spec → Nat
  | scalar _ | reference _ => 1
  | pointer e | array e _ | vector e _ => e.nesting + 1
  | record fields | define _ fields => nestings fields + 1
  | function params ret _ => max (nestings params) ret.nesting + 1

def nestings : List Spec → Nat
  | [] => 0
  | s :: rest => max s.nesting (nestings rest)

end

theorem nesting_pos (s : Spec) : 0 < s.nesting := by
  cases s <;> simp [nesting]

theorem exists_succ_of_nesting_le {s : Spec} {depth : Nat} (h : s.nesting ≤ depth) :
    ∃ d, depth = d + 1 := by
  have hPos := s.nesting_pos
  exact Nat.exists_eq_succ_of_ne_zero (by omega)

theorem nesting_function_le_iff {params : List Spec} {ret : Spec} {variadic : Bool} {depth : Nat} :
    (function params ret variadic).nesting ≤ depth + 1 ↔
      nestings params ≤ depth ∧ ret.nesting ≤ depth := by
  rw [nesting, Nat.add_le_add_iff_right, Nat.max_le]

end Spec

theorem utf8Size_of_isDigit {c : Char} (h : c.isDigit = true) : c.utf8Size = 1 := by
  rw [Char.utf8Size_eq_one_iff]
  simp only [Char.isDigit, Bool.and_eq_true, decide_eq_true_eq] at h
  exact UInt32.le_trans h.2 (by decide)

/-- A run of decimal digits with its value. Leading zeros are allowed. -/
structure Numeral (run : List Char) (value : Nat) : Prop where
  ne_nil : run ≠ []
  isDigit : ∀ c ∈ run, c.isDigit = true
  value_eq : Nat.ofDigitChars 10 run 0 = value

mutual

/-- `Spells n text spec m`: the text spells the tree, with `n` structs defined before the text and
`m` after it. -/
inductive Spells : Nat → List Char → Spec → Nat → Prop where
  | scalar {n : Nat} (letter : Letter) :
    Spells n [(Symbol.scalar letter).char] (.scalar letter.scalar) n
  | pointer {n m : Nat} {elem : List Char} {e : Spec} :
    Spells n elem e m → Spells n ('*' :: elem) (.pointer e) m
  | array {n m count : Nat} {elem run : List Char} {e : Spec} :
    Spells n elem e m → e.typeClass.isValue = true →
    Numeral run count → 1 ≤ count → count < UInt64.size →
    Spells n ('[' :: (elem ++ 'x' :: (run ++ [']']))) (.array e (UInt64.ofNat count)) m
  | vector {n m count : Nat} {elem run : List Char} {e : Spec} :
    Spells n elem e m → e.typeClass.isLane = true →
    Numeral run count → 1 ≤ count → count < UInt32.size →
    Spells n ('<' :: (elem ++ 'x' :: (run ++ ['>']))) (.vector e (UInt32.ofNat count)) m
  | record {n m : Nat} {body : List Char} {fields : List Spec} :
    SpellsAll n body fields m → fields ≠ [] → (∀ f ∈ fields, f.typeClass.isValue = true) →
    Spells n ('{' :: (body ++ ['}'])) (.record fields) m
  /-- The body of a definition follows the opening of it. -/
  | define {n m : Nat} {run body : List Char} {fields : List Spec} :
    Numeral run n → n < UInt32.size →
    SpellsAll (n + 1) body fields m → fields ≠ [] → (∀ f ∈ fields, f.typeClass.isValue = true) →
    Spells n ('=' :: (run ++ '{' :: (body ++ ['}']))) (.define n fields) m
  | reference {n number : Nat} {run : List Char} :
    Numeral run number → number < n → Spells n ('%' :: run) (.reference number) n
  | nullary {n m : Nat} {result : List Char} {r : Spec} :
    Spells n result r m → r.typeClass ≠ .function →
    Spells n ('(' :: 'v' :: (result ++ [')'])) (.function [] r false) m
  | nullaryVariadic {n m : Nat} {result : List Char} {r : Spec} :
    Spells n result r m → r.typeClass ≠ .function →
    Spells n ('(' :: 'v' :: '&' :: (result ++ [')'])) (.function [] r true) m
  | function {n k m : Nat} {list result : List Char} {params : List Spec} {r : Spec} :
    SpellsAll n list params k → params ≠ [] → (∀ p ∈ params, p.typeClass.isValue = true) →
    Spells k result r m → r.typeClass ≠ .function →
    Spells n ('(' :: (list ++ (result ++ [')']))) (.function params r false) m
  | variadic {n k m : Nat} {list result : List Char} {params : List Spec} {r : Spec} :
    SpellsAll n list params k → (∀ p ∈ params, p.typeClass.isValue = true) →
    Spells k result r m → r.typeClass ≠ .function →
    Spells n ('(' :: (list ++ '&' :: (result ++ [')']))) (.function params r true) m

/-- Types one after another, with nothing in between. -/
inductive SpellsAll : Nat → List Char → List Spec → Nat → Prop where
  | nil {n : Nat} : SpellsAll n [] [] n
  | cons {n k m : Nat} {head tail : List Char} {s : Spec} {rest : List Spec} :
    Spells n head s k → SpellsAll k tail rest m → SpellsAll n (head ++ tail) (s :: rest) m

end

namespace Spells

theorem exists_cons {n m : Nat} {text : List Char} {s : Spec} (h : Spells n text s m) :
    ∃ c rest, text = c :: rest ∧ c.isDigit = false ∧ c ≠ '}' ∧ c ≠ ')' ∧ c ≠ '&' := by
  cases h with
  | scalar letter => exact ⟨_, _, rfl, by cases letter <;> decide⟩
  | _ => exact ⟨_, _, rfl, by decide⟩

theorem ne_of_not_void {n m : Nat} {c : Char} {rest : List Char} {s : Spec}
    (h : Spells n (c :: rest) s m) (hNot : s.typeClass ≠ .void) : c ≠ 'v' := by
  cases h with
  | scalar letter =>
    cases letter with
    | void => exact absurd rfl hNot
    | _ => decide
  | _ => decide

theorem eq_of_void {n m : Nat} {text : List Char} {s : Spec} (h : Spells n text s m)
    (hVoid : s.typeClass = .void) : text = ['v'] ∧ m = n := by
  cases h with
  | scalar letter => cases letter <;> first | exact ⟨rfl, rfl⟩ | cases hVoid
  | _ => cases hVoid

end Spells

/-- The text does not go on with a digit. -/
def NoDigit (text : List Char) : Prop := ∀ c ∈ text.head?, c.isDigit = false

theorem noDigit_nil : NoDigit [] := by
  simp [NoDigit]

theorem noDigit_cons {c : Char} {rest : List Char} : NoDigit (c :: rest) ↔ c.isDigit = false := by
  simp [NoDigit]

theorem noDigit_dropWhile (text : List Char) : NoDigit (text.dropWhile Char.isDigit) := by
  intro c hc
  have hNot := List.head?_dropWhile_not Char.isDigit text
  rwa [Option.mem_def.mp hc] at hNot

namespace Spells

theorem noDigit {n m : Nat} {text : List Char} {s : Spec} (h : Spells n text s m)
    (rest : List Char) : NoDigit (text ++ rest) := by
  obtain ⟨c, tail, rfl, hc, -⟩ := h.exists_cons
  exact noDigit_cons.mpr hc

end Spells

theorem SpellsAll.eq_of_nil {n m : Nat} {text : List Char} (h : SpellsAll n text [] m) :
    text = [] ∧ m = n := by
  cases h
  exact ⟨rfl, rfl⟩

mutual

theorem Spells.le_limit {n m : Nat} {text : List Char} {s : Spec} (h : Spells n text s m)
    (hn : n ≤ UInt32.size) : m ≤ UInt32.size := by
  cases h with
  | scalar | reference => exact hn
  | pointer h | array h | vector h | nullary h | nullaryVariadic h => exact h.le_limit hn
  | record h => exact h.le_limit hn
  | define _ hLimit h => exact h.le_limit hLimit
  | function hParams _ _ hRet | variadic hParams _ hRet =>
    exact hRet.le_limit (hParams.le_limit hn)

theorem SpellsAll.le_limit {n m : Nat} {text : List Char} {specs : List Spec}
    (h : SpellsAll n text specs m) (hn : n ≤ UInt32.size) : m ≤ UInt32.size := by
  cases h with
  | nil => exact hn
  | cons hHead hTail => exact hTail.le_limit (hHead.le_limit hn)

end

theorem Numeral.count_eq {run : List Char} {value : Nat} (h : Numeral run value) :
    run.count '=' = 0 := by
  rw [List.count_eq_zero]
  intro hMem
  cases h.isDigit _ hMem

mutual

/-- For every equals sign a struct is defined. -/
theorem Spells.eq_add_count {n m : Nat} {text : List Char} {s : Spec} (h : Spells n text s m) :
    m = n + text.count '=' := by
  cases h with
  | scalar letter => cases letter <;> rfl
  | pointer h | nullary h | nullaryVariadic h =>
    have hCount := h.eq_add_count
    simpa [List.count_cons] using hCount
  | array h _ hNumeral | vector h _ hNumeral =>
    have hCount := h.eq_add_count
    simpa [List.count_cons, hNumeral.count_eq] using hCount
  | record h =>
    have hCount := h.eq_add_count
    simpa [List.count_cons] using hCount
  | define hNumeral _ h =>
    have hCount := h.eq_add_count
    simp only [List.count_cons, List.count_append, hNumeral.count_eq] at hCount ⊢
    simp
    omega
  | reference hNumeral => simp [hNumeral.count_eq]
  | function hParams _ _ hRet | variadic hParams _ hRet =>
    have hFirst := hParams.eq_add_count
    have hSecond := hRet.eq_add_count
    simp
    omega

theorem SpellsAll.eq_add_count {n m : Nat} {text : List Char} {specs : List Spec}
    (h : SpellsAll n text specs m) : m = n + text.count '=' := by
  cases h with
  | nil => rfl
  | cons hHead hTail =>
    have hFirst := hHead.eq_add_count
    have hSecond := hTail.eq_add_count
    rw [List.count_append]
    omega

end

theorem SpellsAll.noDigit {n m : Nat} {text : List Char} {specs : List Spec}
    (h : SpellsAll n text specs m) {rest : List Char} (hRest : NoDigit rest) :
    NoDigit (text ++ rest) := by
  cases h with
  | nil => exact hRest
  | cons head tail =>
    rw [List.append_assoc]
    exact head.noDigit _

namespace Numeral

theorem toDigits (n : Nat) : Numeral (Nat.toDigits 10 n) n where
  ne_nil := Nat.toDigits_ne_nil
  isDigit _ hc := Nat.isDigit_of_mem_toDigits (by decide) (by decide) hc
  value_eq := Nat.ofDigitChars_ten_toDigits

theorem takeWhile_append {run : List Char} {value : Nat} (h : Numeral run value)
    {rest : List Char} (hRest : NoDigit rest) :
    (run ++ rest).takeWhile Char.isDigit = run := by
  rw [List.takeWhile_append_of_pos h.isDigit]
  cases rest with
  | nil => simp
  | cons c rest => simp [noDigit_cons.mp hRest]

theorem dropWhile_append {run : List Char} {value : Nat} (h : Numeral run value)
    {rest : List Char} (hRest : NoDigit rest) :
    (run ++ rest).dropWhile Char.isDigit = rest := by
  rw [List.dropWhile_append_of_pos h.isDigit]
  cases rest with
  | nil => simp
  | cons c rest => simp [noDigit_cons.mp hRest]

end Numeral

end CompactType
