import CompactType.Proofs.Arranged

/-!
# Unique reading

Spellings are read in one way only. Arranged trees are the same if their spellings are, also where
more text follows, as long as it does not go on with a digit.
-/

set_option autoImplicit false

namespace CompactType

/-- The symbols that stand after a list of types. -/
def Symbol.closes : Symbol → Bool
  | closeBrace | closeParen | ampersand => true
  | _ => false

namespace Spec

def opening : Spec → Symbol
  | scalar k => .scalar (.ofScalar k)
  | pointer _ => .star
  | array .. => .openBracket
  | vector .. => .less
  | record _ => .openBrace
  | define .. => .equals
  | reference _ => .percent
  | function .. => .openParen

theorem exists_spelling_eq (s : Spec) : ∃ tail, s.spelling = s.opening.char :: tail := by
  cases s <;> exact ⟨_, rfl⟩

theorem closes_opening (s : Spec) : s.opening.closes = false := by
  cases s <;> rfl

theorem ne_opening {k : Symbol} (h : k.closes = true) (s : Spec) : k ≠ s.opening := by
  rintro rfl
  cases h.symm.trans s.closes_opening

theorem opening_eq {s s' : Spec} {rest rest' : List Char}
    (h : s.spelling ++ rest = s'.spelling ++ rest') : s.opening = s'.opening := by
  obtain ⟨tail, hSpelling⟩ := s.exists_spelling_eq
  obtain ⟨tail', hSpelling'⟩ := s'.exists_spelling_eq
  rw [hSpelling, hSpelling'] at h
  exact Symbol.char_injective (List.cons.inj h).1

theorem noDigit_spellings {k : Symbol} (specs : List Spec) (rest : List Char) :
    NoDigit (spellings specs ++ k.char :: rest) := by
  cases specs with
  | nil => exact noDigit_cons.mpr k.char_ne_digit
  | cons s specs =>
    obtain ⟨tail, hSpelling⟩ := s.exists_spelling_eq
    rw [spellings, hSpelling]
    exact noDigit_cons.mpr s.opening.char_ne_digit

theorem digits_append_inj {n n' : Nat} {rest rest' : List Char} (hRest : NoDigit rest)
    (hRest' : NoDigit rest') (h : digits n ++ rest = digits n' ++ rest') :
    n = n' ∧ rest = rest' := by
  have hRun : digits n = digits n' := by
    calc digits n = (digits n ++ rest).takeWhile Char.isDigit :=
          ((Numeral.toDigits n).takeWhile_append hRest).symm
      _ = (digits n' ++ rest').takeWhile Char.isDigit := by rw [h]
      _ = digits n' := (Numeral.toDigits n').takeWhile_append hRest'
  have hValue : n = n' := by
    rw [← (Numeral.toDigits n).value_eq, ← (Numeral.toDigits n').value_eq]
    exact congrArg (Nat.ofDigitChars 10 · 0) hRun
  rw [hRun] at h
  exact ⟨hValue, List.append_cancel_left h⟩

def Fits (s : Spec) : Prop := ∃ n m, Arranged n s m

/-- No other tree is spelled at the start of a text that starts with the spelling of this one. -/
def Unambiguous (s : Spec) : Prop :=
  ∀ ⦃s' : Spec⦄ ⦃rest rest' : List Char⦄, s'.Fits → NoDigit rest → NoDigit rest' →
    s.spelling ++ rest = s'.spelling ++ rest' → s = s' ∧ rest = rest'

theorem fits_of_mem {n m : Nat} {specs : List Spec} (h : ArrangedAll n specs m) :
    ∀ s ∈ specs, s.Fits := by
  induction specs generalizing n with
  | nil => nofun
  | cons s specs ih =>
    cases h with
    | cons hHead hTail => exact List.forall_mem_cons.mpr ⟨⟨_, _, hHead⟩, ih hTail⟩

theorem cons_ne_spellings {k : Symbol} (hk : k.closes = true) (s : Spec) (specs : List Spec)
    (rest rest' : List Char) : k.char :: rest ≠ spellings (s :: specs) ++ rest' := by
  intro hEq
  obtain ⟨tail, hSpelling⟩ := s.exists_spelling_eq
  rw [spellings, hSpelling] at hEq
  exact ne_opening hk s (Symbol.char_injective (List.cons.inj hEq).1)

theorem eq_of_spellings {specs specs' : List Spec} (h : ∀ s ∈ specs, s.Unambiguous)
    (hFits : ∀ s ∈ specs', s.Fits) {k k' : Symbol} (hk : k.closes = true)
    (hk' : k'.closes = true) {rest rest' : List Char}
    (hEq : spellings specs ++ k.char :: rest = spellings specs' ++ k'.char :: rest') :
    specs = specs' ∧ k = k' ∧ rest = rest' := by
  induction specs generalizing specs' with
  | nil =>
    cases specs' with
    | nil =>
      obtain ⟨hChar, rfl⟩ := List.cons.inj hEq
      exact ⟨rfl, Symbol.char_injective hChar, rfl⟩
    | cons s' specs' => exact absurd hEq (cons_ne_spellings hk s' specs' rest _)
  | cons s specs ih =>
    obtain ⟨hHead, hTail⟩ := List.forall_mem_cons.mp h
    cases specs' with
    | nil => exact absurd hEq.symm (cons_ne_spellings hk' s specs rest' _)
    | cons s' specs' =>
      obtain ⟨hFits', hFitsAll⟩ := List.forall_mem_cons.mp hFits
      rw [spellings, spellings, List.append_assoc, List.append_assoc] at hEq
      obtain ⟨rfl, hRest⟩ :=
        hHead hFits' (noDigit_spellings specs rest) (noDigit_spellings specs' rest') hEq
      obtain ⟨rfl, hSame⟩ := ih hTail hFitsAll hRest
      exact ⟨rfl, hSame⟩

/-- The types before the return type, where no marker follows the parameters. -/
def heads (params : List Spec) : List Spec :=
  if params.isEmpty then [scalar .void] else params

theorem forall_mem_heads_concat {P : Spec → Prop} {params : List Spec} {r : Spec}
    (hVoid : P (scalar .void)) (hParams : ∀ p ∈ params, P p) (hRet : P r) :
    ∀ s ∈ heads params ++ [r], P s := by
  intro s hs
  obtain hHead | hLast := List.mem_append.mp hs
  · cases params with
    | nil => exact List.mem_singleton.mp hHead ▸ hVoid
    | cons => exact hParams s hHead
  · exact List.mem_singleton.mp hLast ▸ hRet

theorem heads_injective {params params' : List Spec}
    (hValue : ∀ p ∈ params, p.typeClass.isValue = true)
    (hValue' : ∀ p ∈ params', p.typeClass.isValue = true) (h : heads params = heads params') :
    params = params' := by
  have hVoid {l : List Spec} (hl : ∀ p ∈ l, p.typeClass.isValue = true) :
      l ≠ [scalar .void] := by
    rintro rfl
    cases hl _ List.mem_cons_self
  cases params with
  | nil =>
    cases params' with
    | nil => rfl
    | cons p' params' => exact absurd h.symm (hVoid hValue')
  | cons p params =>
    cases params' with
    | nil => exact absurd h (hVoid hValue)
    | cons p' params' => exact h

section Append

variable (elem r : Spec) (fields params : List Spec) (rest : List Char)

theorem array_append (count : UInt64) : (array elem count).spelling ++ rest =
    '[' :: (elem.spelling ++ 'x' :: (digits count.toNat ++ ']' :: rest)) := by
  simp [spelling_array]

theorem vector_append (count : UInt32) : (vector elem count).spelling ++ rest =
    '<' :: (elem.spelling ++ 'x' :: (digits count.toNat ++ '>' :: rest)) := by
  simp [spelling_vector]

theorem record_append : (record fields).spelling ++ rest =
    '{' :: (spellings fields ++ Symbol.closeBrace.char :: rest) := by
  simp [spelling_record, Symbol.char]

theorem define_append (number : Nat) : (define number fields).spelling ++ rest =
    '=' :: (digits number ++ '{' :: (spellings fields ++ Symbol.closeBrace.char :: rest)) := by
  simp [spelling_define, Symbol.char]

theorem function_append : (function params r false).spelling ++ rest =
    '(' :: (spellings (heads params ++ [r]) ++ Symbol.closeParen.char :: rest) := by
  cases params with
  | nil =>
    simp [spelling_function, spelling_scalar, heads, noParams, varargMark, spellings,
      Letter.ofScalar, Symbol.char]
  | cons => simp [spelling_function, heads, noParams, varargMark, spellings_eq_flatMap, Symbol.char]

theorem variadic_append : (function params r true).spelling ++ rest =
    '(' :: (spellings params ++ Symbol.ampersand.char :: (r.spelling ++ ')' :: rest)) := by
  simp [spelling_function, noParams, varargMark, Symbol.char]

end Append

theorem unambiguous_scalar (k : Scalar) : Unambiguous (scalar k) := by
  rintro s' rest rest' ⟨_, _, hArranged⟩ - - hEq
  have hOpening := opening_eq hEq
  cases hArranged with
  | scalar k' =>
    have hScalar : k = k' := by
      rw [← Letter.scalar_ofScalar k, ← Letter.scalar_ofScalar k']
      exact congrArg Letter.scalar (Symbol.scalar.inj hOpening)
    exact ⟨congrArg scalar hScalar, (List.cons.inj hEq).2⟩
  | _ => cases hOpening

theorem unambiguous_reference (number : Nat) : Unambiguous (reference number) := by
  rintro s' rest rest' ⟨_, _, hArranged⟩ hRest hRest' hEq
  have hOpening := opening_eq hEq
  cases hArranged with
  | reference =>
    obtain ⟨rfl, hSame⟩ := digits_append_inj hRest hRest' (List.cons.inj hEq).2
    exact ⟨rfl, hSame⟩
  | _ => cases hOpening

namespace Unambiguous

variable {e r : Spec} {fields params : List Spec}

theorem pointer (h : e.Unambiguous) : (pointer e).Unambiguous := by
  rintro s' rest rest' ⟨_, _, hArranged⟩ hRest hRest' hEq
  have hOpening := opening_eq hEq
  cases hArranged with
  | pointer hElem =>
    obtain ⟨rfl, hSame⟩ := h ⟨_, _, hElem⟩ hRest hRest' (List.cons.inj hEq).2
    exact ⟨rfl, hSame⟩
  | _ => cases hOpening

theorem counted (h : e.Unambiguous) {e' : Spec} (hFits : e'.Fits) {n n' : Nat} {c : Char}
    (hc : c.isDigit = false) {rest rest' : List Char}
    (hEq : e.spelling ++ 'x' :: (digits n ++ c :: rest) =
      e'.spelling ++ 'x' :: (digits n' ++ c :: rest')) : e = e' ∧ n = n' ∧ rest = rest' := by
  obtain ⟨hElem, hCount⟩ := h hFits (noDigit_cons.mpr rfl) (noDigit_cons.mpr rfl) hEq
  obtain ⟨hNat, hRest⟩ := digits_append_inj (noDigit_cons.mpr hc) (noDigit_cons.mpr hc)
    (List.cons.inj hCount).2
  exact ⟨hElem, hNat, (List.cons.inj hRest).2⟩

theorem array (h : e.Unambiguous) (count : UInt64) : (array e count).Unambiguous := by
  rintro s' rest rest' ⟨_, _, hArranged⟩ - - hEq
  have hOpening := opening_eq hEq
  cases hArranged with
  | array hElem =>
    rw [array_append, array_append] at hEq
    obtain ⟨rfl, hNat, hRest⟩ := h.counted ⟨_, _, hElem⟩ rfl (List.cons.inj hEq).2
    exact ⟨by rw [UInt64.toNat_inj.mp hNat], hRest⟩
  | _ => cases hOpening

theorem vector (h : e.Unambiguous) (count : UInt32) : (vector e count).Unambiguous := by
  rintro s' rest rest' ⟨_, _, hArranged⟩ - - hEq
  have hOpening := opening_eq hEq
  cases hArranged with
  | vector hElem =>
    rw [vector_append, vector_append] at hEq
    obtain ⟨rfl, hNat, hRest⟩ := h.counted ⟨_, _, hElem⟩ rfl (List.cons.inj hEq).2
    exact ⟨by rw [UInt32.toNat_inj.mp hNat], hRest⟩
  | _ => cases hOpening

theorem record (h : ∀ f ∈ fields, f.Unambiguous) : (record fields).Unambiguous := by
  rintro s' rest rest' ⟨_, _, hArranged⟩ - - hEq
  have hOpening := opening_eq hEq
  cases hArranged with
  | record hFields =>
    rw [record_append, record_append] at hEq
    obtain ⟨rfl, -, hSame⟩ :=
      eq_of_spellings h (fits_of_mem hFields) rfl rfl (List.cons.inj hEq).2
    exact ⟨rfl, hSame⟩
  | _ => cases hOpening

theorem define (h : ∀ f ∈ fields, f.Unambiguous) (number : Nat) :
    (define number fields).Unambiguous := by
  rintro s' rest rest' ⟨_, _, hArranged⟩ - - hEq
  have hOpening := opening_eq hEq
  cases hArranged with
  | define hFields =>
    rw [define_append, define_append] at hEq
    obtain ⟨rfl, hBody⟩ :=
      digits_append_inj (noDigit_cons.mpr rfl) (noDigit_cons.mpr rfl) (List.cons.inj hEq).2
    obtain ⟨rfl, -, hSame⟩ :=
      eq_of_spellings h (fits_of_mem hFields) rfl rfl (List.cons.inj hBody).2
    exact ⟨rfl, hSame⟩
  | _ => cases hOpening

theorem function (h : ∀ p ∈ params, p.Unambiguous) (hRet : r.Unambiguous)
    (hValue : ∀ p ∈ params, p.typeClass.isValue = true) (variadic : Bool) :
    (function params r variadic).Unambiguous := by
  rintro s' rest rest' ⟨_, _, hArranged⟩ - - hEq
  have hOpening := opening_eq hEq
  cases hArranged with
  | @function _ _ _ params' r' variadic' hParams' hValue' hRet' =>
    have hFits := fits_of_mem hParams'
    have hTypes := forall_mem_heads_concat (unambiguous_scalar .void) h hRet
    have hTypes' :=
      forall_mem_heads_concat ⟨0, 0, .scalar .void⟩ hFits (⟨_, _, hRet'⟩ : r'.Fits)
    cases variadic with
    | false =>
      cases variadic' with
      | false =>
        rw [function_append, function_append] at hEq
        obtain ⟨hSame, -, hRest⟩ := eq_of_spellings hTypes hTypes' rfl rfl (List.cons.inj hEq).2
        obtain ⟨hHeads, hLast⟩ := List.append_inj' hSame rfl
        exact ⟨by rw [heads_injective hValue hValue' hHeads, (List.cons.inj hLast).1], hRest⟩
      | true =>
        rw [function_append, variadic_append] at hEq
        obtain ⟨-, hSymbol, -⟩ := eq_of_spellings hTypes hFits rfl rfl (List.cons.inj hEq).2
        cases hSymbol
    | true =>
      cases variadic' with
      | false =>
        rw [variadic_append, function_append] at hEq
        obtain ⟨-, hSymbol, -⟩ := eq_of_spellings h hTypes' rfl rfl (List.cons.inj hEq).2
        cases hSymbol
      | true =>
        rw [variadic_append, variadic_append] at hEq
        obtain ⟨rfl, -, hBody⟩ := eq_of_spellings h hFits rfl rfl (List.cons.inj hEq).2
        obtain ⟨rfl, hRest⟩ :=
          hRet ⟨_, _, hRet'⟩ (noDigit_cons.mpr rfl) (noDigit_cons.mpr rfl) hBody
        exact ⟨rfl, (List.cons.inj hRest).2⟩
  | _ => cases hOpening

end Unambiguous

end Spec

mutual

theorem Arranged.unambiguous {n m : Nat} {s : Spec} (h : Arranged n s m) : s.Unambiguous := by
  cases h with
  | scalar k => exact Spec.unambiguous_scalar k
  | pointer hElem => exact hElem.unambiguous.pointer
  | array hElem => exact hElem.unambiguous.array _
  | vector hElem => exact hElem.unambiguous.vector _
  | record hFields => exact .record hFields.unambiguous
  | define hFields => exact .define hFields.unambiguous n
  | reference => exact Spec.unambiguous_reference _
  | function variadic hParams hValue hRet =>
    exact .function hParams.unambiguous hRet.unambiguous hValue variadic
termination_by sizeOf s

theorem ArrangedAll.unambiguous {n m : Nat} {specs : List Spec} (h : ArrangedAll n specs m) :
    ∀ s ∈ specs, s.Unambiguous := by
  cases h with
  | nil => nofun
  | cons hHead hTail => exact List.forall_mem_cons.mpr ⟨hHead.unambiguous, hTail.unambiguous⟩
termination_by sizeOf specs

end

theorem Arranged.text_injective {n m n' m' : Nat} {s s' : Spec} (h : Arranged n s m)
    (h' : Arranged n' s' m') (hText : s.text = s'.text) : s = s' := by
  have hSpelling : s.spelling ++ [] = s'.spelling ++ [] := by
    rw [List.append_nil, List.append_nil]
    exact String.ofList_injective hText
  exact (h.unambiguous ⟨_, _, h'⟩ noDigit_nil noDigit_nil hSpelling).1

end CompactType
