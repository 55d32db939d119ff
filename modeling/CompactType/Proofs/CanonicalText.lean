import CompactType.Proofs.Drafts
import Mathlib.Data.String.Basic

/-!
# Canonical texts

The canonical text is got from any other by three rewrites: integer letters become lower-case,
numbers lose their leading zeros, and a lone void before the marker for further arguments is left
out. What a text spells is spelled by its canonical text, which is the spelling of the tree.
-/

set_option autoImplicit false

namespace CompactType

/-- The letter for a signed integer in place of the one for an unsigned integer. -/
def lowered : Char → Char
  | 'B' => 'b'
  | 'H' => 'h'
  | 'I' => 'i'
  | 'L' => 'l'
  | c => c

/-- Takes the leading zeros off every run of digits. The last digit of a run stays. The flag says
whether a digit stands before the text. -/
def trimZeros : Bool → List Char → List Char
  | _, [] => []
  | inRun, c :: rest =>
    if c = '0' ∧ inRun = false ∧ rest.head?.any Char.isDigit then trimZeros false rest
    else c :: trimZeros c.isDigit rest

/-- Leaves out every void between an opening parenthesis and a marker for further arguments. -/
def dropVoids : List Char → List Char
  | [] => []
  | '(' :: 'v' :: '&' :: rest => '(' :: '&' :: dropVoids rest
  | c :: rest => c :: dropVoids rest

def canonicalChars (text : List Char) : List Char :=
  dropVoids (trimZeros false (text.map lowered))

def canonicalText (text : String) : String := String.ofList (canonicalChars text.toList)

section Digits

theorem exists_digitChar {c : Char} (h : c.isDigit = true) : ∃ d < 10, c = Nat.digitChar d := by
  have hRange : 48 ≤ c.toNat ∧ c.toNat ≤ 57 := by
    simpa [Char.isDigit, UInt32.le_iff_toNat_le] using h
  have hDigits : ∀ d < 10, (Nat.digitChar d).toNat = d + 48 := by decide
  refine ⟨c.toNat - 48, by omega, Char.toNat_inj.mp ?_⟩
  rw [hDigits _ (by omega)]
  omega

theorem toDigits_ofDigitChars {run : List Char} (h : ∀ c ∈ run, c.isDigit = true) {n : Nat}
    (hn : 0 < n) : Nat.toDigits 10 (Nat.ofDigitChars 10 run n) = Nat.toDigits 10 n ++ run := by
  induction run generalizing n with
  | nil => simp
  | cons c run ih =>
    obtain ⟨d, hd, rfl⟩ := exists_digitChar (h c List.mem_cons_self)
    rw [Nat.ofDigitChars_cons_digitChar_of_lt_ten hd,
      ih (fun c hc => h c (List.mem_cons_of_mem _ hc)) (by omega),
      ← Nat.toDigits_append_toDigits (by decide) hn hd, Nat.toDigits_of_lt_base hd,
      List.append_assoc]
    rfl

end Digits

section TrimZeros

variable {run rest : List Char}

theorem trimZeros_cons {c : Char} (inRun : Bool) (h : c ≠ '0') (rest : List Char) :
    trimZeros inRun (c :: rest) = c :: trimZeros c.isDigit rest := by
  rw [trimZeros, if_neg fun hc => h hc.1]

theorem trimZeros_of_noDigit (h : NoDigit rest) (inRun : Bool) :
    trimZeros inRun rest = trimZeros false rest := by
  cases rest with
  | nil => rfl
  | cons c rest =>
    have hc : c ≠ '0' := by
      rintro rfl
      cases noDigit_cons.mp h
    rw [trimZeros_cons _ hc, trimZeros_cons _ hc]

theorem trimZeros_true_append (h : ∀ c ∈ run, c.isDigit = true) (rest : List Char) :
    trimZeros true (run ++ rest) = run ++ trimZeros true rest := by
  induction run with
  | nil => rfl
  | cons c run ih =>
    rw [List.cons_append, trimZeros, if_neg (by simp), h c List.mem_cons_self,
      ih fun c hc => h c (List.mem_cons_of_mem _ hc)]
    rfl

theorem Numeral.trimZeros_append {value : Nat} (h : Numeral run value) (hRest : NoDigit rest) :
    trimZeros false (run ++ rest) = Nat.toDigits 10 value ++ trimZeros false rest := by
  obtain ⟨hNe, hDigits, rfl⟩ := h
  have hAfter := trimZeros_of_noDigit hRest true
  induction run with
  | nil => exact absurd rfl hNe
  | cons c run ih =>
    have hTail : ∀ c ∈ run, c.isDigit = true := fun c hc => hDigits c (List.mem_cons_of_mem _ hc)
    obtain ⟨d, hd, hEq⟩ := exists_digitChar (hDigits c List.mem_cons_self)
    subst hEq
    rw [Nat.ofDigitChars_cons_digitChar_of_lt_ten hd, Nat.mul_zero, Nat.zero_add]
    rcases Nat.eq_zero_or_pos d with rfl | hPos
    · cases run with
      | nil =>
        have hNot : rest.head?.any Char.isDigit = false := by
          cases rest with
          | nil => rfl
          | cons c rest => exact noDigit_cons.mp hRest
        simp only [List.cons_append, List.nil_append, trimZeros, hNot]
        simpa using hAfter
      | cons c run =>
        have hc : (c :: run ++ rest).head?.any Char.isDigit = true := hTail c List.mem_cons_self
        rw [List.cons_append, trimZeros, if_pos ⟨rfl, rfl, hc⟩]
        exact ih (List.cons_ne_nil _ _) hTail
    · have hNotZero : Nat.digitChar d ≠ '0' := by
        have hAll : ∀ d < 10, 0 < d → Nat.digitChar d ≠ '0' := by decide
        exact hAll d hd hPos
      rw [List.cons_append, trimZeros_cons _ hNotZero, hDigits _ List.mem_cons_self,
        trimZeros_true_append hTail, hAfter, toDigits_ofDigitChars hTail hPos,
        Nat.toDigits_of_lt_base hd]
      rfl

end TrimZeros

section Rewrites

variable {c : Char} {run rest : List Char}

theorem isDigit_lowered (c : Char) : (lowered c).isDigit = c.isDigit := by
  unfold lowered
  split <;> rfl

theorem lowered_of_isDigit (h : c.isDigit = true) : lowered c = c := by
  unfold lowered
  split <;> first | cases h | rfl

theorem lowered_ne {d : Char} (hd : d ∉ ['b', 'h', 'i', 'l']) (h : c ≠ d) : lowered c ≠ d := by
  unfold lowered
  split
  · exact fun hEq => hd (hEq ▸ by decide)
  · exact fun hEq => hd (hEq ▸ by decide)
  · exact fun hEq => hd (hEq ▸ by decide)
  · exact fun hEq => hd (hEq ▸ by decide)
  · exact h

theorem noDigit_map_lowered (h : NoDigit rest) : NoDigit (rest.map lowered) := by
  cases rest with
  | nil => exact noDigit_nil
  | cons c rest => exact noDigit_cons.mpr ((isDigit_lowered c).trans (noDigit_cons.mp h))

theorem dropVoids_cons (h : ∀ tail, c :: rest ≠ '(' :: 'v' :: '&' :: tail) :
    dropVoids (c :: rest) = c :: dropVoids rest :=
  dropVoids.eq_3 c rest fun tail hc hRest => h tail (by rw [hc, hRest])

theorem dropVoids_append (h : ∀ c ∈ run, c ≠ '(') (rest : List Char) :
    dropVoids (run ++ rest) = run ++ dropVoids rest := by
  induction run with
  | nil => rfl
  | cons c run ih =>
    rw [List.cons_append, dropVoids_cons, ih fun c hc => h c (List.mem_cons_of_mem _ hc)]
    · rfl
    · intro tail hEq
      exact h c List.mem_cons_self (List.cons.inj hEq).1

theorem trimZeros_lowered_cons (h : c.isDigit = false) (rest : List Char) :
    trimZeros false ((c :: rest).map lowered) =
      lowered c :: trimZeros false (rest.map lowered) := by
  have hLowered : (lowered c).isDigit = false := (isDigit_lowered c).trans h
  rw [List.map_cons, trimZeros_cons, hLowered]
  intro hZero
  rw [hZero] at hLowered
  cases hLowered

theorem canonicalChars_cons (hDigit : c.isDigit = false) (hParen : c ≠ '(') (rest : List Char) :
    canonicalChars (c :: rest) = lowered c :: canonicalChars rest := by
  rw [canonicalChars, trimZeros_lowered_cons hDigit, dropVoids_cons]
  · rfl
  · intro tail hEq
    exact lowered_ne (by decide) hParen (List.cons.inj hEq).1

theorem canonicalChars_paren (hDigit : c.isDigit = false) (hVoid : c ≠ 'v') (rest : List Char) :
    canonicalChars ('(' :: c :: rest) = '(' :: canonicalChars (c :: rest) := by
  rw [canonicalChars, canonicalChars, trimZeros_lowered_cons rfl, trimZeros_lowered_cons hDigit]
  apply dropVoids_cons
  intro tail hEq
  injection hEq with _ hEq
  exact lowered_ne (by decide) hVoid (List.cons.inj hEq).1

theorem canonicalChars_void (hDigit : c.isDigit = false) (hMark : c ≠ '&') (rest : List Char) :
    canonicalChars ('(' :: 'v' :: c :: rest) = '(' :: 'v' :: canonicalChars (c :: rest) := by
  rw [canonicalChars, canonicalChars, trimZeros_lowered_cons rfl, trimZeros_lowered_cons rfl,
    trimZeros_lowered_cons hDigit]
  have hVoid (l : List Char) : dropVoids ('v' :: l) = 'v' :: dropVoids l :=
    dropVoids_cons fun _ hEq => by cases hEq
  refine (dropVoids_cons fun tail hEq => ?_).trans (congrArg _ (hVoid _))
  injection hEq with _ hEq
  injection hEq with _ hEq
  exact lowered_ne (by decide) hMark (List.cons.inj hEq).1

theorem canonicalChars_void_mark (rest : List Char) :
    canonicalChars ('(' :: 'v' :: '&' :: rest) = '(' :: '&' :: canonicalChars rest := by
  rw [canonicalChars, trimZeros_lowered_cons rfl, trimZeros_lowered_cons rfl,
    trimZeros_lowered_cons rfl]
  rfl

theorem Numeral.canonicalChars_append {value : Nat} (h : Numeral run value)
    (hRest : NoDigit rest) :
    canonicalChars (run ++ rest) = Nat.toDigits 10 value ++ canonicalChars rest := by
  have hRun : run.map lowered = run.map id :=
    List.map_congr_left fun c hc => lowered_of_isDigit (h.isDigit c hc)
  rw [canonicalChars, List.map_append, hRun, List.map_id,
    h.trimZeros_append (noDigit_map_lowered hRest), dropVoids_append]
  · rfl
  · rintro c hc rfl
    cases (Numeral.toDigits value).isDigit _ hc

theorem utf8Size_lowered (c : Char) : (lowered c).utf8Size = c.utf8Size := by
  unfold lowered
  split <;> rfl

theorem utf8Len_map_lowered (text : List Char) :
    String.utf8Len (text.map lowered) = String.utf8Len text := by
  induction text with
  | nil => rfl
  | cons c rest ih => rw [List.map_cons, String.utf8Len_cons, String.utf8Len_cons, ih,
      utf8Size_lowered]

theorem trimZeros_sublist (inRun : Bool) (text : List Char) :
    (trimZeros inRun text).Sublist text := by
  induction text generalizing inRun with
  | nil => exact .slnil
  | cons c rest ih =>
    rw [trimZeros]
    split
    · exact (ih false).cons c
    · exact (ih _).cons_cons c

theorem dropVoids_sublist (text : List Char) : (dropVoids text).Sublist text := by
  fun_induction dropVoids text with
  | case1 => exact .slnil
  | case2 rest ih => exact ((ih.cons_cons '&').cons 'v').cons_cons '('
  | case3 c rest _ ih => exact ih.cons_cons c

theorem utf8ByteSize_canonicalText_le (text : String) :
    (canonicalText text).utf8ByteSize ≤ text.utf8ByteSize := by
  have hSublist := (dropVoids_sublist _).trans (trimZeros_sublist false (text.toList.map lowered))
  calc (canonicalText text).utf8ByteSize
      = String.utf8Len (canonicalChars text.toList) := String.utf8ByteSize_ofList _
    _ ≤ String.utf8Len (text.toList.map lowered) := String.utf8Len_le_of_sublist hSublist
    _ = String.utf8Len text.toList := utf8Len_map_lowered _
    _ = text.utf8ByteSize := by rw [← String.utf8ByteSize_ofList, String.ofList_toList]

end Rewrites

theorem SpellsAll.exists_cons {n m : Nat} {text : List Char} {params : List Spec}
    (h : SpellsAll n text params m) (hNe : params ≠ [])
    (hValue : ∀ p ∈ params, p.typeClass.isValue = true) :
    ∃ c rest, text = c :: rest ∧ c.isDigit = false ∧ c ≠ 'v' := by
  cases h with
  | nil => exact absurd rfl hNe
  | @cons _ _ _ head tail s _ hHead _ =>
    obtain ⟨c, rest, rfl, hDigit, -⟩ := hHead.exists_cons
    refine ⟨c, rest ++ tail, rfl, hDigit, hHead.ne_of_not_void ?_⟩
    intro hVoid
    have hFirst := hValue s List.mem_cons_self
    rw [hVoid] at hFirst
    cases hFirst

mutual

/-- The canonical text of what spells a tree is the spelling of the tree. -/
theorem Spells.canonicalChars_append {n m : Nat} {text rest : List Char} {s : Spec}
    (h : Spells n text s m) (hRest : NoDigit rest) :
    canonicalChars (text ++ rest) = s.spelling ++ canonicalChars rest := by
  cases h with
  | scalar letter =>
    have hLetter : lowered (Symbol.scalar letter).char =
        (Symbol.scalar (.ofScalar letter.scalar)).char := by
      cases letter <;> rfl
    rw [List.singleton_append, canonicalChars_cons (Symbol.char_ne_digit _), hLetter]
    · rfl
    · cases letter <;> decide
  | @pointer _ _ elem e hElem =>
    rw [List.cons_append, canonicalChars_cons rfl (by decide), hElem.canonicalChars_append hRest]
    rfl
  | @array _ _ count elem run e hElem _ hRun _ hCount =>
    have hAfter : NoDigit ('x' :: (run ++ ']' :: rest)) := noDigit_cons.mpr rfl
    have hText : '[' :: (elem ++ 'x' :: (run ++ [']'])) ++ rest =
        '[' :: (elem ++ 'x' :: (run ++ ']' :: rest)) := by simp
    rw [hText, canonicalChars_cons rfl (by decide), hElem.canonicalChars_append hAfter,
      canonicalChars_cons rfl (by decide), hRun.canonicalChars_append (noDigit_cons.mpr rfl),
      canonicalChars_cons rfl (by decide), Spec.spelling, UInt64.toNat_ofNat_of_lt' hCount]
    simp [lowered, Spec.digits]
  | @vector _ _ count elem run e hElem _ hRun _ hCount =>
    have hAfter : NoDigit ('x' :: (run ++ '>' :: rest)) := noDigit_cons.mpr rfl
    have hText : '<' :: (elem ++ 'x' :: (run ++ ['>'])) ++ rest =
        '<' :: (elem ++ 'x' :: (run ++ '>' :: rest)) := by simp
    rw [hText, canonicalChars_cons rfl (by decide), hElem.canonicalChars_append hAfter,
      canonicalChars_cons rfl (by decide), hRun.canonicalChars_append (noDigit_cons.mpr rfl),
      canonicalChars_cons rfl (by decide), Spec.spelling, UInt32.toNat_ofNat_of_lt' hCount]
    simp [lowered, Spec.digits]
  | @record _ _ body fields hFields =>
    have hText : '{' :: (body ++ ['}']) ++ rest = '{' :: (body ++ '}' :: rest) := by simp
    rw [hText, canonicalChars_cons rfl (by decide),
      hFields.canonicalChars_append (noDigit_cons.mpr rfl), canonicalChars_cons rfl (by decide),
      Spec.spelling]
    simp [lowered]
  | @define _ _ run body fields hRun _ hFields =>
    have hText : '=' :: (run ++ '{' :: (body ++ ['}'])) ++ rest =
        '=' :: (run ++ '{' :: (body ++ '}' :: rest)) := by simp
    rw [hText, canonicalChars_cons rfl (by decide),
      hRun.canonicalChars_append (noDigit_cons.mpr rfl), canonicalChars_cons rfl (by decide),
      hFields.canonicalChars_append (noDigit_cons.mpr rfl), canonicalChars_cons rfl (by decide),
      Spec.spelling]
    simp [lowered, Spec.digits]
  | @reference _ _ run hRun _ =>
    rw [List.cons_append, canonicalChars_cons rfl (by decide), hRun.canonicalChars_append hRest]
    rfl
  | @nullary _ _ result r hRet =>
    have hText : '(' :: 'v' :: (result ++ [')']) ++ rest = '(' :: 'v' :: (result ++ ')' :: rest) :=
      by simp
    have hAfter := hRet.canonicalChars_append (noDigit_cons.mpr rfl : NoDigit (')' :: rest))
    obtain ⟨c, tail, rfl, hDigit, -, -, hMark⟩ := hRet.exists_cons
    rw [hText, List.cons_append, canonicalChars_void hDigit hMark, ← List.cons_append, hAfter,
      canonicalChars_cons rfl (by decide), Spec.spelling]
    simp [lowered, Spec.noParams, Spec.varargMark, Spec.spellings]
  | @nullaryVariadic _ _ result r hRet =>
    have hText : '(' :: 'v' :: '&' :: (result ++ [')']) ++ rest =
        '(' :: 'v' :: '&' :: (result ++ ')' :: rest) := by simp
    rw [hText, canonicalChars_void_mark, hRet.canonicalChars_append (noDigit_cons.mpr rfl),
      canonicalChars_cons rfl (by decide), Spec.spelling]
    simp [lowered, Spec.noParams, Spec.varargMark, Spec.spellings]
  | @function _ _ _ list result params r hParams hNe hValue hRet =>
    have hText : '(' :: (list ++ (result ++ [')'])) ++ rest =
        '(' :: (list ++ (result ++ ')' :: rest)) := by simp
    have hAfter := hParams.canonicalChars_append (hRet.noDigit (')' :: rest))
    obtain ⟨c, tail, rfl, hDigit, hVoid⟩ := hParams.exists_cons hNe hValue
    rw [hText, List.cons_append, canonicalChars_paren hDigit hVoid, ← List.cons_append, hAfter,
      hRet.canonicalChars_append (noDigit_cons.mpr rfl), canonicalChars_cons rfl (by decide),
      Spec.spelling]
    simp [lowered, Spec.noParams, Spec.varargMark, hNe]
  | @variadic _ _ _ list result params r hParams hValue hRet =>
    have hText : '(' :: (list ++ '&' :: (result ++ [')'])) ++ rest =
        '(' :: (list ++ '&' :: (result ++ ')' :: rest)) := by simp
    have hAfter := hParams.canonicalChars_append
      (noDigit_cons.mpr rfl : NoDigit ('&' :: (result ++ ')' :: rest)))
    have hParen : canonicalChars ('(' :: (list ++ '&' :: (result ++ ')' :: rest))) =
        '(' :: canonicalChars (list ++ '&' :: (result ++ ')' :: rest)) := by
      by_cases hNe : params = []
      · subst hNe
        cases hParams
        exact canonicalChars_paren rfl (by decide) _
      · obtain ⟨c, tail, rfl, hDigit, hVoid⟩ := hParams.exists_cons hNe hValue
        exact canonicalChars_paren hDigit hVoid _
    rw [hText, hParen, hAfter, canonicalChars_cons rfl (by decide),
      hRet.canonicalChars_append (noDigit_cons.mpr rfl), canonicalChars_cons rfl (by decide),
      Spec.spelling]
    simp [lowered, Spec.noParams, Spec.varargMark]
termination_by sizeOf s

theorem SpellsAll.canonicalChars_append {n m : Nat} {text rest : List Char} {specs : List Spec}
    (h : SpellsAll n text specs m) (hRest : NoDigit rest) :
    canonicalChars (text ++ rest) = Spec.spellings specs ++ canonicalChars rest := by
  cases h with
  | nil => rfl
  | cons hHead hTail =>
    rw [List.append_assoc, hHead.canonicalChars_append (hTail.noDigit hRest),
      hTail.canonicalChars_append hRest, Spec.spellings, List.append_assoc]
termination_by sizeOf specs

end

theorem Spells.canonicalChars_eq {n m : Nat} {text : List Char} {s : Spec}
    (h : Spells n text s m) : canonicalChars text = s.spelling := by
  simpa [canonicalChars, trimZeros, dropVoids] using h.canonicalChars_append noDigit_nil

namespace Spec

section Spelling

variable {n m : Nat} {e : Spec}

theorem spells_scalar (n : Nat) (k : Scalar) : Spells n (scalar k).spelling (scalar k) n := by
  have hCanonical := Spells.scalar (n := n) (.ofScalar k)
  rwa [Letter.scalar_ofScalar] at hCanonical

theorem spells_array {count : UInt64} (h : Spells n e.spelling e m)
    (hValue : e.typeClass.isValue = true) (hPos : 0 < count) :
    Spells n (array e count).spelling (array e count) m := by
  have hSpells := Spells.array h hValue (Numeral.toDigits count.toNat)
    (UInt64.lt_iff_toNat_lt.mp hPos) count.toNat_lt_size
  rwa [UInt64.ofNat_toNat] at hSpells

theorem spells_vector {count : UInt32} (h : Spells n e.spelling e m)
    (hLane : e.typeClass.isLane = true) (hPos : 0 < count) :
    Spells n (vector e count).spelling (vector e count) m := by
  have hSpells := Spells.vector h hLane (Numeral.toDigits count.toNat)
    (UInt32.lt_iff_toNat_lt.mp hPos) count.toNat_lt_size
  rwa [UInt32.ofNat_toNat] at hSpells

theorem spells_function {k : Nat} {params : List Spec} {r : Spec}
    (h : SpellsAll n (spellings params) params k)
    (hValue : ∀ p ∈ params, p.typeClass.isValue = true) (h' : Spells k r.spelling r m)
    (hNot : r.typeClass ≠ .function) (variadic : Bool) :
    Spells n (function params r variadic).spelling (function params r variadic) m := by
  cases variadic with
  | true => simpa [spelling, noParams, varargMark] using Spells.variadic h hValue h' hNot
  | false =>
    by_cases hNe : params = []
    · subst hNe
      obtain ⟨-, rfl⟩ := h.eq_of_nil
      simpa [spelling, noParams, varargMark, spellings] using Spells.nullary h' hNot
    · simpa [spelling, noParams, varargMark, hNe] using Spells.function h hNe hValue h' hNot

end Spelling

end Spec

mutual

theorem Arranged.spells {n m : Nat} {s : Spec} (h : Arranged n s m) (hLimit : m ≤ UInt32.size) :
    Spells n s.spelling s m := by
  cases h with
  | scalar k => exact Spec.spells_scalar n k
  | pointer hElem => exact .pointer (hElem.spells hLimit)
  | array hElem hValue hPos => exact Spec.spells_array (hElem.spells hLimit) hValue hPos
  | vector hElem hLane hPos => exact Spec.spells_vector (hElem.spells hLimit) hLane hPos
  | record hFields hNe hValue => exact .record (hFields.spells hLimit) hNe hValue
  | define hFields hNe hValue =>
    have hLe := Nat.le.intro (hFields.length_draftsAll default)
    exact .define (Numeral.toDigits n) (by omega) (hFields.spells hLimit) hNe hValue
  | reference hLt => exact .reference (Numeral.toDigits _) hLt
  | function variadic hParams hValue hRet hNot =>
    have hLe := Nat.le.intro (hRet.length_drafts default)
    exact Spec.spells_function (hParams.spells (hLe.trans hLimit)) hValue (hRet.spells hLimit)
      hNot variadic

theorem ArrangedAll.spells {n m : Nat} {specs : List Spec} (h : ArrangedAll n specs m)
    (hLimit : m ≤ UInt32.size) : SpellsAll n (Spec.spellings specs) specs m := by
  cases h with
  | nil => exact .nil
  | cons hHead hTail =>
    have hLe := Nat.le.intro (hTail.length_draftsAll default)
    exact .cons (hHead.spells (hLe.trans hLimit)) (hTail.spells hLimit)

end

theorem Spells.canonical {m : Nat} {text : List Char} {s : Spec} (h : Spells 0 text s m) :
    Spells 0 s.spelling s m :=
  h.arranged.spells (h.le_limit (Nat.zero_le _))

end CompactType
