import CompactType.Proofs.Layers
import CompactType.Proofs.Unambiguous

/-!
# Unique reading of printed forms

Printed forms are read in one way only, if structs are named by a prefix and their numbers. Whatever
the prefix is, trees with the same printed form differ at most in the bodies of structs, which are
not printed.
-/

set_option autoImplicit false

namespace CompactType.Spec

variable (config : Config)

/-- The characters of the printed form. -/
def shown (s : Spec) : List Char := (s.printed config.structName).toList

/-- What is printed between the braces of a struct or the parentheses of a function. -/
def listed (variadic : Bool) (specs : List Spec) : List Char :=
  (", ".intercalate
    (if variadic then printedAll config.structName specs ++ ["..."]
      else printedAll config.structName specs)).toList

/-- What is printed between an element of a list and the end of the list. -/
def continued (variadic : Bool) (specs : List Spec) : List Char :=
  if specs.isEmpty && !variadic then [] else ',' :: ' ' :: listed config variadic specs

theorem listed_nil (variadic : Bool) :
    listed config variadic [] = if variadic then ['.', '.', '.'] else [] := by
  cases variadic <;> simp [listed, printedAll]

theorem listed_cons (variadic : Bool) (s : Spec) (specs : List Spec) :
    listed config variadic (s :: specs) = s.shown config ++ continued config variadic specs := by
  cases variadic <;> cases specs <;>
    simp [listed, continued, shown, printedAll, String.toList_intercalate, List.intercalate]

section Append

variable (rest : List Char)

theorem shown_pointer (e : Spec) :
    (pointer e).shown config ++ rest = '*' :: (e.shown config ++ rest) := by
  simp [shown, printed_pointer]

theorem shown_array (e : Spec) (count : UInt64) :
    (array e count).shown config ++ rest =
      '[' :: (digits count.toNat ++ ' ' :: 'x' :: ' ' :: (e.shown config ++ ']' :: rest)) := by
  simp [shown, printed_array, digits]

theorem shown_vector (e : Spec) (count : UInt32) :
    (vector e count).shown config ++ rest =
      '<' :: (digits count.toNat ++ ' ' :: 'x' :: ' ' :: (e.shown config ++ '>' :: rest)) := by
  simp [shown, printed_vector, digits]

theorem shown_record (fields : List Spec) :
    (record fields).shown config ++ rest = '{' :: (listed config false fields ++ '}' :: rest) := by
  simp [shown, printed_record, listed]

theorem shown_named (number : Nat) :
    (reference number).shown config ++ rest =
      '%' :: (config.structPrefix.toList ++ (digits number ++ rest)) := by
  simp [shown, printed_reference, Config.structName, digits]

theorem shown_function (params : List Spec) (ret : Spec) (variadic : Bool) :
    (function params ret variadic).shown config ++ rest =
      'f' :: 'n' :: '(' :: (listed config variadic params ++
        ')' :: ' ' :: '-' :: '>' :: ' ' :: (ret.shown config ++ rest)) := by
  cases variadic <;> simp [shown, printed_function, listed]

theorem shown_define (number : Nat) (fields : List Spec) :
    (define number fields).shown config = (reference number).shown config := rfl

end Append

/-- The first character of the printed form. -/
def lead : Spec → Char
  | scalar .void => 'v'
  | scalar .i8 | scalar .i16 | scalar .i32 | scalar .i64 => 'i'
  | scalar .f32 | scalar .f64 | scalar .f80 | function .. => 'f'
  | scalar .mmx => 'm'
  | pointer _ => '*'
  | array .. => '['
  | vector .. => '<'
  | record _ => '{'
  | define .. | reference _ => '%'

/-- Characters that no printed form starts with: those that go on with a list or close it. -/
def endsList (c : Char) : Bool := c == ',' || c == '}' || c == ')' || c == '.'

theorem endsList_lead (s : Spec) : endsList s.lead = false := by
  cases s with
  | scalar k => cases k <;> rfl
  | _ => rfl

theorem exists_shown_eq (s : Spec) : ∃ tail, s.shown config = s.lead :: tail := by
  cases s with
  | scalar k => cases k <;> simp [shown, printed_scalar, Scalar.text, lead]
  | pointer e => exact ⟨_, by simpa [lead] using shown_pointer config [] e⟩
  | array e count => exact ⟨_, by simpa [lead] using shown_array config [] e count⟩
  | vector e count => exact ⟨_, by simpa [lead] using shown_vector config [] e count⟩
  | record fields => exact ⟨_, by simpa [lead] using shown_record config [] fields⟩
  | define number fields =>
    exact ⟨_, by simpa [lead, shown_define] using shown_named config [] number⟩
  | reference number => exact ⟨_, by simpa [lead] using shown_named config [] number⟩
  | function params ret variadic =>
    exact ⟨_, by simpa [lead] using shown_function config [] params ret variadic⟩

theorem lead_eq {s s' : Spec} {rest rest' : List Char}
    (h : s.shown config ++ rest = s'.shown config ++ rest') : s.lead = s'.lead := by
  obtain ⟨tail, hShown⟩ := s.exists_shown_eq config
  obtain ⟨tail', hShown'⟩ := s'.exists_shown_eq config
  rw [hShown, hShown'] at h
  exact (List.cons.inj h).1

/-- No other tree is printed at the start of a text that starts with the printed form of this one,
apart from the bodies of structs. -/
def Readable (s : Spec) : Prop :=
  ∀ ⦃s' : Spec⦄ ⦃rest rest' : List Char⦄, NoDigit rest → NoDigit rest' →
    s.shown config ++ rest = s'.shown config ++ rest' → s.outline = s'.outline ∧ rest = rest'

theorem listed_nil_ne {c : Char} (hc : endsList c = true) (variadic variadic' : Bool) (s : Spec)
    (specs : List Spec) (rest rest' : List Char) :
    listed config variadic [] ++ c :: rest ≠
      listed config variadic' (s :: specs) ++ c :: rest' := by
  obtain ⟨tail, hShown⟩ := s.exists_shown_eq config
  intro hSame
  rw [listed_cons, hShown] at hSame
  have hEnds : endsList s.lead = true := by
    cases variadic with
    | false =>
      obtain rfl : c = s.lead := by simpa [listed_nil] using congrArg List.head? hSame
      exact hc
    | true =>
      have hDot : '.' = s.lead := by simpa [listed_nil] using congrArg List.head? hSame
      exact hDot ▸ rfl
  cases s.endsList_lead.symm.trans hEnds

theorem noDigit_continued {c : Char} (hc : c.isDigit = false) (variadic : Bool)
    (specs : List Spec) (rest : List Char) :
    NoDigit (continued config variadic specs ++ c :: rest) := by
  unfold continued
  split
  · exact noDigit_cons.mpr hc
  · exact noDigit_cons.mpr rfl

theorem continued_cases (variadic : Bool) (specs : List Spec) :
    specs = [] ∧ variadic = false ∧ continued config variadic specs = [] ∨
      continued config variadic specs = ',' :: ' ' :: listed config variadic specs := by
  cases specs with
  | nil => cases variadic <;> simp [continued]
  | cons s specs => exact .inr (by simp [continued])

variable {config}

theorem eq_of_listed {c : Char} (hc : c = '}' ∨ c = ')') {specs specs' : List Spec}
    (h : ∀ s ∈ specs, s.Readable config) {variadic variadic' : Bool} {rest rest' : List Char}
    (hEq : listed config variadic specs ++ c :: rest =
      listed config variadic' specs' ++ c :: rest') :
    outlines specs = outlines specs' ∧ variadic = variadic' ∧ rest = rest' := by
  have hEnds : endsList c = true := by obtain rfl | rfl := hc <;> rfl
  have hDigit : c.isDigit = false := by obtain rfl | rfl := hc <;> rfl
  have hComma : c ≠ ',' := by obtain rfl | rfl := hc <;> decide
  have hDot : c ≠ '.' := by obtain rfl | rfl := hc <;> decide
  induction specs generalizing specs' with
  | nil =>
    cases specs' with
    | cons s' specs' => exact absurd hEq (listed_nil_ne config hEnds _ _ s' specs' rest rest')
    | nil =>
      cases variadic <;> cases variadic' <;> simp [listed_nil, hDot, Ne.symm hDot] at hEq ⊢
      · exact hEq
      · exact hEq
  | cons s specs ih =>
    cases specs' with
    | nil => exact absurd hEq.symm (listed_nil_ne config hEnds _ _ s specs rest' rest)
    | cons s' specs' =>
      obtain ⟨hHead, hTail⟩ := List.forall_mem_cons.mp h
      rw [listed_cons, listed_cons, List.append_assoc, List.append_assoc] at hEq
      obtain ⟨hOutline, hRest⟩ := hHead (noDigit_continued config hDigit _ _ _)
        (noDigit_continued config hDigit _ _ _) hEq
      rw [outlines, outlines, hOutline]
      obtain ⟨rfl, rfl, hEnd⟩ | hMore := continued_cases config variadic specs
      · obtain ⟨rfl, rfl, -⟩ | hMore' := continued_cases config variadic' specs'
        · rw [hEnd] at hRest
          exact ⟨rfl, rfl, (List.cons.inj hRest).2⟩
        · rw [hEnd, hMore'] at hRest
          exact absurd (List.cons.inj hRest).1 hComma
      · obtain ⟨rfl, rfl, hEnd'⟩ | hMore' := continued_cases config variadic' specs'
        · rw [hMore, hEnd'] at hRest
          exact absurd (List.cons.inj hRest).1.symm hComma
        · rw [hMore, hMore'] at hRest
          obtain ⟨hOutlines, hSame⟩ := ih hTail (List.cons.inj (List.cons.inj hRest).2).2
          exact ⟨by rw [hOutlines], hSame⟩

theorem readable_scalar (k : Scalar) : (scalar k).Readable config := by
  intro s' rest rest' hRest hRest' hEq
  have hLead := lead_eq config hEq
  cases s' with
  | scalar k' =>
    cases k <;> cases k' <;> simp [shown, printed_scalar, Scalar.text] at hEq ⊢ <;> exact hEq
  | function params ret variadic =>
    rw [shown_function] at hEq
    cases k <;> simp [shown, printed_scalar, Scalar.text] at hEq
  | _ => cases k <;> cases hLead

theorem readable_reference (number : Nat) : (reference number).Readable config := by
  intro s' rest rest' hRest hRest' hEq
  have hLead := lead_eq config hEq
  cases s' with
  | define number' | reference number' =>
    replace hEq : (reference number).shown config ++ rest =
      (reference number').shown config ++ rest' := hEq
    rw [shown_named, shown_named] at hEq
    obtain ⟨rfl, hSame⟩ :=
      digits_append_inj hRest hRest' (List.append_cancel_left (List.cons.inj hEq).2)
    exact ⟨rfl, hSame⟩
  | scalar k => cases k <;> cases hLead
  | _ => cases hLead

namespace Readable

variable {e ret : Spec} {fields params : List Spec}

theorem pointer (h : e.Readable config) : (pointer e).Readable config := by
  intro s' rest rest' hRest hRest' hEq
  have hLead := lead_eq config hEq
  cases s' with
  | pointer e' =>
    rw [shown_pointer, shown_pointer] at hEq
    obtain ⟨hOutline, hSame⟩ := h hRest hRest' (List.cons.inj hEq).2
    exact ⟨by rw [outline, outline, hOutline], hSame⟩
  | scalar k => cases k <;> cases hLead
  | _ => cases hLead

theorem counted (h : e.Readable config) {c : Char} (hc : c.isDigit = false) {e' : Spec}
    {n n' : Nat} {rest rest' : List Char}
    (hEq : digits n ++ ' ' :: 'x' :: ' ' :: (e.shown config ++ c :: rest) =
      digits n' ++ ' ' :: 'x' :: ' ' :: (e'.shown config ++ c :: rest')) :
    n = n' ∧ e.outline = e'.outline ∧ rest = rest' := by
  obtain ⟨hCount, hElem⟩ :=
    digits_append_inj (noDigit_cons.mpr rfl) (noDigit_cons.mpr rfl) hEq
  have hShown := (List.append_right_inj [' ', 'x', ' ']).mp hElem
  obtain ⟨hOutline, hSame⟩ := h (noDigit_cons.mpr hc) (noDigit_cons.mpr hc) hShown
  exact ⟨hCount, hOutline, (List.cons.inj hSame).2⟩

theorem array (h : e.Readable config) (count : UInt64) : (array e count).Readable config := by
  intro s' rest rest' _ _ hEq
  have hLead := lead_eq config hEq
  cases s' with
  | array e' count' =>
    rw [shown_array, shown_array] at hEq
    obtain ⟨hCount, hOutline, hSame⟩ := h.counted rfl (List.cons.inj hEq).2
    exact ⟨by rw [outline, outline, hOutline, UInt64.toNat_inj.mp hCount], hSame⟩
  | scalar k => cases k <;> cases hLead
  | _ => cases hLead

theorem vector (h : e.Readable config) (count : UInt32) : (vector e count).Readable config := by
  intro s' rest rest' _ _ hEq
  have hLead := lead_eq config hEq
  cases s' with
  | vector e' count' =>
    rw [shown_vector, shown_vector] at hEq
    obtain ⟨hCount, hOutline, hSame⟩ := h.counted rfl (List.cons.inj hEq).2
    exact ⟨by rw [outline, outline, hOutline, UInt32.toNat_inj.mp hCount], hSame⟩
  | scalar k => cases k <;> cases hLead
  | _ => cases hLead

theorem record (h : ∀ f ∈ fields, f.Readable config) : (record fields).Readable config := by
  intro s' rest rest' _ _ hEq
  have hLead := lead_eq config hEq
  cases s' with
  | record fields' =>
    rw [shown_record, shown_record] at hEq
    obtain ⟨hOutlines, -, hSame⟩ := eq_of_listed (.inl rfl) h (List.cons.inj hEq).2
    exact ⟨by rw [outline, outline, hOutlines], hSame⟩
  | scalar k => cases k <;> cases hLead
  | _ => cases hLead

theorem function (h : ∀ p ∈ params, p.Readable config) (hRet : ret.Readable config)
    (variadic : Bool) : (function params ret variadic).Readable config := by
  intro s' rest rest' hRest hRest' hEq
  have hLead := lead_eq config hEq
  cases s' with
  | function params' ret' variadic' =>
    rw [shown_function, shown_function] at hEq
    have hListed := (List.append_right_inj ['f', 'n', '(']).mp hEq
    obtain ⟨hOutlines, rfl, hAfter⟩ := eq_of_listed (.inr rfl) h hListed
    have hShown := (List.append_right_inj [' ', '-', '>', ' ']).mp hAfter
    obtain ⟨hOutline, hSame⟩ := hRet hRest hRest' hShown
    exact ⟨by rw [outline, outline, hOutlines, hOutline], hSame⟩
  | scalar k =>
    rw [shown_function] at hEq
    cases k <;> simp [shown, printed_scalar, Scalar.text] at hEq
  | _ => cases hLead

end Readable

mutual

theorem readable (s : Spec) : s.Readable config := by
  cases s with
  | scalar k => exact readable_scalar k
  | pointer e => exact e.readable.pointer
  | array e count => exact e.readable.array count
  | vector e count => exact e.readable.vector count
  | record fields => exact .record (forall_readable fields)
  | define number | reference number => exact readable_reference number
  | function params ret variadic => exact .function (forall_readable params) ret.readable variadic
termination_by sizeOf s

theorem forall_readable (specs : List Spec) : ∀ s ∈ specs, s.Readable config := by
  cases specs with
  | nil => nofun
  | cons s specs => exact List.forall_mem_cons.mpr ⟨s.readable, forall_readable specs⟩
termination_by sizeOf specs

end

/-- Trees with the same printed form are the same, apart from the bodies of structs. -/
theorem outline_eq_of_printed_eq {s s' : Spec}
    (h : s.printed config.structName = s'.printed config.structName) :
    s.outline = s'.outline := by
  have hShown : s.shown config ++ [] = s'.shown config ++ [] := by rw [shown, shown, h]
  exact (s.readable noDigit_nil noDigit_nil hShown).1

end CompactType.Spec
