import CompactType.Proofs.Unambiguous

/-!
# Marks of named structs

Where a text defines a struct and where it refers to one. In the spelling of a tree the marks are
those of the tree, from left to right. If they are numbered as a walk numbers the structs that it
meets, then the definitions count up from zero and every reference has its definition before it.
-/

set_option autoImplicit false

namespace CompactType

/-- A mark in a text, with the run of digits behind it. -/
inductive Mark where
  | defined (run : List Char)
  | referred (run : List Char)
deriving DecidableEq, Repr

namespace Mark

def definition? : Mark → Option (List Char)
  | defined run => some run
  | referred _ => none

/-- The mark that a character stands for, if digits or anything else follow it. -/
def ofChar? : Char → List Char → Option Mark
  | '=', rest => some (defined (rest.takeWhile Char.isDigit))
  | '%', rest => some (referred (rest.takeWhile Char.isDigit))
  | _, _ => none

/-- The marks of a text, from left to right. -/
def scan : List Char → List Mark
  | [] => []
  | c :: rest => (ofChar? c rest).toList ++ scan rest

/-- The marks define structs from the first number on, and what they refer to is defined then. -/
inductive Numbering : Nat → List Mark → Nat → Prop where
  | nil (n : Nat) : Numbering n [] n
  | defined {n m : Nat} {marks : List Mark} :
    Numbering (n + 1) marks m → Numbering n (.defined (Spec.digits n) :: marks) m
  | referred {n m k : Nat} {marks : List Mark} :
    k < n → Numbering n marks m → Numbering n (.referred (Spec.digits k) :: marks) m

namespace Numbering

variable {n m l : Nat} {marks more : List Mark}

theorem append (h : Numbering n marks m) (h' : Numbering m more l) :
    Numbering n (marks ++ more) l := by
  induction h with
  | nil => exact h'
  | defined _ ih => exact .defined (ih h')
  | referred hLt _ ih => exact .referred hLt (ih h')

theorem le (h : Numbering n marks m) : n ≤ m := by
  induction h with
  | nil => omega
  | defined _ ih => omega
  | referred _ _ ih => exact ih

theorem definitions_eq (h : Numbering n marks m) :
    marks.filterMap definition? = (List.range' n (m - n)).map Spec.digits := by
  induction h with
  | nil => simp
  | @defined n m marks hRest ih =>
    have hCount : m - n = m - (n + 1) + 1 := by
      have hLe := hRest.le
      omega
    simp [definition?, ih, hCount, List.range'_succ]
  | @referred n m k marks _ _ ih => rwa [List.filterMap_cons_none (by rfl)]

theorem defined_before (h : Numbering n marks m) {before after : List Mark} {run : List Char}
    (hSplit : marks = before ++ .referred run :: after) :
    (∃ k < n, run = Spec.digits k) ∨ .defined run ∈ before := by
  induction h generalizing before with
  | nil => simp at hSplit
  | @defined n m marks _ ih =>
    cases before with
    | nil => cases hSplit
    | cons mark before =>
      obtain ⟨rfl, hRest⟩ := List.cons.inj hSplit
      obtain ⟨k, hk, rfl⟩ | hMem := ih hRest
      · obtain hLt | rfl := Nat.lt_succ_iff_lt_or_eq.mp hk
        · exact .inl ⟨k, hLt, rfl⟩
        · exact .inr List.mem_cons_self
      · exact .inr (List.mem_cons_of_mem _ hMem)
  | @referred n m k marks hLt _ ih =>
    cases before with
    | nil =>
      obtain ⟨hMark, -⟩ := List.cons.inj hSplit
      cases hMark
      exact .inl ⟨k, hLt, rfl⟩
    | cons mark before =>
      obtain ⟨-, hRest⟩ := List.cons.inj hSplit
      exact (ih hRest).imp_right (List.mem_cons_of_mem _)

end Numbering

section Scan

/-- No mark starts with the character. -/
def Plain (c : Char) : Prop := c ≠ '=' ∧ c ≠ '%'

instance (c : Char) : Decidable (Plain c) := inferInstanceAs (Decidable (_ ∧ _))

theorem scan_cons {c : Char} (h : Plain c) (rest : List Char) : scan (c :: rest) = scan rest := by
  have hNone : ofChar? c rest = none := by
    unfold ofChar?
    split
    · exact absurd rfl h.1
    · exact absurd rfl h.2
    · rfl
  rw [scan, hNone]
  rfl

theorem scan_append {run : List Char} (h : ∀ c ∈ run, Plain c) (rest : List Char) :
    scan (run ++ rest) = scan rest := by
  induction run with
  | nil => rfl
  | cons c run ih =>
    obtain ⟨hHead, hTail⟩ := List.forall_mem_cons.mp h
    rw [List.cons_append, scan_cons hHead, ih hTail]

theorem plain_of_isDigit {c : Char} (h : c.isDigit = true) : Plain c := by
  constructor <;> rintro rfl <;> cases h

theorem scan_digits (n : Nat) (rest : List Char) : scan (Spec.digits n ++ rest) = scan rest :=
  scan_append (fun c hc => plain_of_isDigit ((Numeral.toDigits n).isDigit c hc)) rest

theorem takeWhile_digits (n : Nat) {rest : List Char} (h : NoDigit rest) :
    (Spec.digits n ++ rest).takeWhile Char.isDigit = Spec.digits n :=
  (Numeral.toDigits n).takeWhile_append h

theorem scan_defined (n : Nat) {rest : List Char} (h : NoDigit rest) :
    scan ('=' :: (Spec.digits n ++ rest)) = .defined (Spec.digits n) :: scan rest := by
  rw [scan, ofChar?, takeWhile_digits n h, scan_digits]
  rfl

theorem scan_referred (n : Nat) {rest : List Char} (h : NoDigit rest) :
    scan ('%' :: (Spec.digits n ++ rest)) = .referred (Spec.digits n) :: scan rest := by
  rw [scan, ofChar?, takeWhile_digits n h, scan_digits]
  rfl

end Scan

end Mark

namespace Spec

mutual

/-- The marks of a tree, from left to right. -/
def marks : Spec → List Mark
  | scalar _ => []
  | pointer e | array e _ | vector e _ => e.marks
  | record fields => marksAll fields
  | define number fields => .defined (digits number) :: marksAll fields
  | reference number => [.referred (digits number)]
  | function params ret _ => marksAll params ++ ret.marks

def marksAll : List Spec → List Mark
  | [] => []
  | s :: rest => s.marks ++ marksAll rest

end

open Mark (scan scan_cons scan_append)

theorem noDigit_spelling (s : Spec) (rest : List Char) : NoDigit (s.spelling ++ rest) := by
  obtain ⟨tail, hSpelling⟩ := s.exists_spelling_eq
  rw [hSpelling]
  exact noDigit_cons.mpr s.opening.char_ne_digit

theorem noDigit_append {specs : List Spec} {rest : List Char} (h : NoDigit rest) :
    NoDigit (spellings specs ++ rest) := by
  cases specs with
  | nil => exact h
  | cons s specs =>
    rw [spellings, List.append_assoc]
    exact s.noDigit_spelling _

theorem noDigit_varargMark (variadic : Bool) (s : Spec) (rest : List Char) :
    NoDigit (varargMark variadic ++ (s.spelling ++ rest)) := by
  cases variadic with
  | false => exact s.noDigit_spelling rest
  | true => exact noDigit_cons.mpr (by decide)

theorem plain_noParams (params : List Spec) (variadic : Bool) :
    ∀ c ∈ noParams params variadic, Mark.Plain c := by
  unfold noParams
  split
  · exact List.forall_mem_singleton.mpr (by decide)
  · exact List.forall_mem_nil _

theorem plain_varargMark (variadic : Bool) : ∀ c ∈ varargMark variadic, Mark.Plain c := by
  cases variadic with
  | false => exact List.forall_mem_nil _
  | true => exact List.forall_mem_singleton.mpr (by decide)

mutual

theorem scan_spelling (s : Spec) {rest : List Char} (h : NoDigit rest) :
    scan (s.spelling ++ rest) = s.marks ++ scan rest := by
  cases s with
  | scalar k => exact scan_cons (by cases k <;> decide) rest
  | pointer e =>
    rw [spelling, marks, List.cons_append, scan_cons (by decide), e.scan_spelling h]
  | array e n =>
    have hCount : NoDigit ('x' :: (digits n.toNat ++ ']' :: rest)) := noDigit_cons.mpr rfl
    simp only [spelling, marks, List.cons_append, List.append_assoc, List.nil_append]
    rw [scan_cons (by decide), e.scan_spelling hCount, scan_cons (by decide), Mark.scan_digits,
      scan_cons (by decide)]
  | vector e n =>
    have hCount : NoDigit ('x' :: (digits n.toNat ++ '>' :: rest)) := noDigit_cons.mpr rfl
    simp only [spelling, marks, List.cons_append, List.append_assoc, List.nil_append]
    rw [scan_cons (by decide), e.scan_spelling hCount, scan_cons (by decide), Mark.scan_digits,
      scan_cons (by decide)]
  | record fields =>
    have hClose : NoDigit ('}' :: rest) := noDigit_cons.mpr rfl
    simp only [spelling, marks, List.cons_append, List.append_assoc, List.nil_append]
    rw [scan_cons (by decide), scan_spellings fields hClose, scan_cons (by decide)]
  | define number fields =>
    have hOpen : NoDigit ('{' :: (spellings fields ++ '}' :: rest)) := noDigit_cons.mpr rfl
    have hClose : NoDigit ('}' :: rest) := noDigit_cons.mpr rfl
    simp only [spelling, marks, List.cons_append, List.append_assoc, List.nil_append]
    rw [Mark.scan_defined number hOpen, scan_cons (by decide), scan_spellings fields hClose,
      scan_cons (by decide)]
  | reference number => exact Mark.scan_referred number h
  | function params ret variadic =>
    have hClose : NoDigit (')' :: rest) := noDigit_cons.mpr rfl
    simp only [spelling, marks, List.cons_append, List.append_assoc, List.nil_append]
    rw [scan_cons (by decide), scan_append (plain_noParams params variadic),
      scan_spellings params (noDigit_varargMark variadic ret _),
      scan_append (plain_varargMark variadic), ret.scan_spelling hClose, scan_cons (by decide)]

theorem scan_spellings (specs : List Spec) {rest : List Char} (h : NoDigit rest) :
    scan (spellings specs ++ rest) = marksAll specs ++ scan rest := by
  cases specs with
  | nil => rfl
  | cons s specs =>
    rw [spellings, marksAll, List.append_assoc, s.scan_spelling (noDigit_append h),
      scan_spellings specs h, List.append_assoc]

end

/-- The marks of a tree can be read off its text. -/
theorem scan_text (s : Spec) : scan s.text.toList = s.marks := by
  have hScan := s.scan_spelling noDigit_nil
  rw [List.append_nil, scan, List.append_nil] at hScan
  rw [text, String.toList_ofList, hScan]

end Spec

end CompactType
