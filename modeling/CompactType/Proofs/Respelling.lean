import CompactType.Proofs.Comparison
import CompactType.Proofs.Lockstep
import CompactType.TypeTable.Parse
import Mathlib.Algebra.GroupWithZero.Nat

/-!
# Texts spelled differently

Integer letters have two spellings, and a number may be written with zeros in front. A text that is
respelled in this way is read in lockstep with the original one: only offsets move, by the zeros
before them.
-/

set_option autoImplicit false

namespace CompactType

theorem Numeral.padded {run : List Char} {number : Nat} (h : Numeral run number)
    (zeros : Nat) : Numeral (List.replicate zeros '0' ++ run) number where
  ne_nil := List.append_ne_nil_of_right_ne_nil _ h.ne_nil
  isDigit c hc := by
    obtain hc | hc := List.mem_append.mp hc
    · rw [List.eq_of_mem_replicate hc]
      rfl
    · exact h.isDigit c hc
  value_eq := by
    rw [Nat.ofDigitChars_append, Nat.ofDigitChars_replicate_zero, Nat.mul_zero, h.value_eq]

namespace Parse

variable {σ H : Type}

/-- The letters of one integer in its two spellings. -/
inductive Lowers : Char → Char → Prop where
  | char : Lowers 'B' 'b'
  | short : Lowers 'H' 'h'
  | int : Lowers 'I' 'i'
  | long : Lowers 'L' 'l'

namespace Lowers

variable {c c' : Char}

theorem alike (h : Lowers c c') : Alike c c' := by
  cases h with
  | char => exact @Alike.letter .uchar .char rfl
  | short => exact @Alike.letter .ushort .short rfl
  | int => exact @Alike.letter .uint .int rfl
  | long => exact @Alike.letter .ulong .long rfl

theorem behind_eq (h : Lowers c c') : Place.behind c = .within := by
  cases h <;> rfl

theorem not_digit (h : Lowers c c') : c.isDigit = false ∧ c'.isDigit = false := by
  cases h <;> decide

end Lowers

/-- Zeros put in front of a run of digits, by the offset at which the run ends. -/
structure Padding where
  stop : Nat
  zeros : Nat

/-- Where an offset is in the padded text. The zeros of a run count from its end on. -/
def shifted (paddings : List Padding) (pos : Nat) : Nat :=
  pos + ((paddings.filter fun p => p.stop ≤ pos).map Padding.zeros).sum

/-- The second text respells the first one, of which the given number of bytes is before. A number
can be padded only behind a character that it belongs to, and as a whole. -/
inductive Respells : Place → Nat → List Char → List Char → List Padding → Prop where
  | nil {place : Place} {pos : Nat} : Respells place pos [] [] []
  | kept {place : Place} {pos : Nat} {c : Char} {rest rest' : List Char}
    {paddings : List Padding} :
    Respells (.behind c) (pos + c.utf8Size) rest rest' paddings →
    Respells place pos (c :: rest) (c :: rest') paddings
  | lowered {place : Place} {pos : Nat} {c c' : Char} {rest rest' : List Char}
    {paddings : List Padding} :
    Lowers c c' → Respells .within (pos + 1) rest rest' paddings →
    Respells place pos (c :: rest) (c' :: rest') paddings
  | padded {pos number zeros : Nat} {run rest rest' : List Char} {paddings : List Padding} :
    Numeral run number → NoDigit rest →
    Respells .within (pos + run.length) rest rest' paddings →
    Respells .marked pos (run ++ rest) (List.replicate zeros '0' ++ run ++ rest')
      (⟨pos + run.length, zeros⟩ :: paddings)

theorem Place.behind_of_isDigit {c : Char} (h : c.isDigit = true) : behind c = .within := by
  have hNot {d : Char} (hd : d.isDigit = false) : c ≠ d := by
    rintro rfl
    rw [hd] at h
    cases h
  simp [behind, hNot (d := '=') rfl, hNot (d := '%') rfl, hNot (d := 'x') rfl, hNot (d := '}') rfl]

namespace Respells

variable {pos : Nat} {text text' : List Char} {paddings : List Padding}

theorem within_or_padded {place : Place} (h : Respells place pos text text' paddings) :
    Respells .within pos text text' paddings ∨ place = .marked ∧
      ∃ number zeros run rest rest' later, text = run ++ rest ∧
        text' = List.replicate zeros '0' ++ run ++ rest' ∧
        paddings = ⟨pos + run.length, zeros⟩ :: later ∧ Numeral run number ∧ NoDigit rest ∧
        Respells .within (pos + run.length) rest rest' later := by
  cases h with
  | nil => exact .inl .nil
  | kept h => exact .inl (.kept h)
  | lowered hLowers h => exact .inl (.lowered hLowers h)
  | padded hRun hRest h => exact .inr ⟨rfl, _, _, _, _, _, _, rfl, rfl, rfl, hRun, hRest, h⟩

theorem forget (h : Respells .closed pos text text' paddings) :
    Respells .within pos text text' paddings := by
  refine h.within_or_padded.resolve_right ?_
  rintro ⟨⟨⟩, -⟩

theorem lt_stop {place : Place} (h : Respells place pos text text' paddings) :
    ∀ p ∈ paddings, pos < p.stop := by
  induction h with
  | nil => exact List.forall_mem_nil _
  | kept _ ih => exact fun p hp => lt_of_le_of_lt (Nat.le_add_right _ _) (ih p hp)
  | lowered _ _ ih => exact fun p hp => Nat.lt_of_succ_lt (ih p hp)
  | padded hRun _ _ ih =>
    have hLength := List.length_pos_iff.mpr hRun.ne_nil
    refine List.forall_mem_cons.mpr ⟨Nat.lt_add_of_pos_right hLength, fun p hp => ?_⟩
    exact lt_of_le_of_lt (Nat.le_add_right _ _) (ih p hp)

theorem heads (h : Respells .within pos text text' paddings) :
    Option.Rel Alike text.head? text'.head? := by
  cases h with
  | nil => exact .none
  | kept => exact .some (.refl _)
  | lowered hLowers => exact .some hLowers.alike

theorem noDigit (h : Respells .within pos text text' paddings) (hText : NoDigit text) :
    NoDigit text' := by
  cases h with
  | nil => exact noDigit_nil
  | kept => exact noDigit_cons.mpr (noDigit_cons.mp hText)
  | lowered hLowers => exact noDigit_cons.mpr hLowers.not_digit.2

theorem digits_kept (h : Respells .within pos text text' paddings) :
    text'.takeWhile Char.isDigit = text.takeWhile Char.isDigit ∧
    Respells .within (pos + (text.takeWhile Char.isDigit).length)
      (text.dropWhile Char.isDigit) (text'.dropWhile Char.isDigit) paddings := by
  induction text generalizing pos text' with
  | nil =>
    cases h with
    | nil => exact ⟨rfl, .nil⟩
  | cons c rest ih =>
    cases h with
    | kept h =>
      cases hc : c.isDigit with
      | true =>
        rw [Place.behind_of_isDigit hc, utf8Size_of_isDigit hc] at h
        obtain ⟨hRun, hRest⟩ := ih h
        simp only [List.takeWhile_cons, List.dropWhile_cons, hc, if_true, hRun, true_and,
          List.length_cons]
        rwa [Nat.add_right_comm, Nat.add_assoc] at hRest
      | false =>
        simp only [List.takeWhile_cons, List.dropWhile_cons, hc, Bool.false_eq_true, if_false,
          true_and]
        exact .kept h
    | lowered hLowers h =>
      obtain ⟨hc, hc'⟩ := hLowers.not_digit
      simp only [List.takeWhile_cons, List.dropWhile_cons, hc, hc', Bool.false_eq_true, if_false,
        true_and]
      exact .lowered hLowers h

/-- Behind a character that a number follows the digits may have zeros in front, of which there is
a record then. -/
theorem digits (h : Respells .marked pos text text' paddings) :
    ∃ zeros read later, paddings = read ++ later ∧ (read.map Padding.zeros).sum = zeros ∧
      (∀ p ∈ read, p.stop = pos + (text.takeWhile Char.isDigit).length) ∧
      (text.takeWhile Char.isDigit = [] → zeros = 0) ∧
      text'.takeWhile Char.isDigit = List.replicate zeros '0' ++ text.takeWhile Char.isDigit ∧
      Respells .within (pos + (text.takeWhile Char.isDigit).length)
        (text.dropWhile Char.isDigit) (text'.dropWhile Char.isDigit) later := by
  obtain h | ⟨-, number, zeros, run, rest, rest', later, rfl, rfl, rfl, hRun, hRest, h⟩ :=
    h.within_or_padded
  · exact ⟨0, [], _, rfl, rfl, List.forall_mem_nil _, fun _ => rfl, h.digits_kept⟩
  · have hRest' := h.noDigit hRest
    rw [hRun.takeWhile_append hRest, hRun.dropWhile_append hRest,
      (hRun.padded zeros).takeWhile_append hRest', (hRun.padded zeros).dropWhile_append hRest']
    exact ⟨zeros, [_], later, rfl, Nat.add_zero _, List.forall_mem_singleton.mpr rfl,
      fun hNil => absurd hNil hRun.ne_nil, rfl, h⟩

end Respells

/-- Cursors at the same place of a text and of a respelled one. -/
structure Beside (paddings : List Padding) (place : Place) (c c' : Cursor Char) : Prop where
  spelled : ∃ passed ahead, paddings = passed ++ ahead ∧ (∀ p ∈ passed, p.stop ≤ c.pos) ∧
    c'.pos = c.pos + (passed.map Padding.zeros).sum ∧ Respells place c.pos c.rest c'.rest ahead

namespace Beside

variable {paddings : List Padding} {place : Place} {c c' : Cursor Char}

theorem pos_eq (h : Beside paddings place c c') : c'.pos = shifted paddings c.pos := by
  obtain ⟨passed, ahead, rfl, hPassed, hPos, hAhead⟩ := h
  have hLater : (ahead.filter fun p => p.stop ≤ c.pos) = [] := by
    simpa using hAhead.lt_stop
  have hBefore : (passed.filter fun p => p.stop ≤ c.pos) = passed := by
    simpa using hPassed
  rw [shifted, List.filter_append, hBefore, hLater, List.append_nil, hPos]

theorem forget (h : Beside paddings .closed c c') : Beside paddings .within c c' := by
  obtain ⟨passed, ahead, hPaddings, hPassed, hPos, hAhead⟩ := h
  exact ⟨passed, ahead, hPaddings, hPassed, hPos, hAhead.forget⟩

theorem heads (h : Beside paddings .within c c') : Option.Rel Alike c.peek? c'.peek? := by
  obtain ⟨_, _, _, _, _, hAhead⟩ := h
  exact hAhead.heads

theorem next (h : Beside paddings .within c c') {a a' : Char} {rest rest' : List Char}
    (hSize : a.utf8Size = 1) (hRest : c.rest = a :: rest) (hRest' : c'.rest = a' :: rest') :
    Beside paddings (.behind a) ⟨c.pos + 1, rest⟩ ⟨c'.pos + 1, rest'⟩ := by
  obtain ⟨passed, ahead, hPaddings, hPassed, hPos, hAhead⟩ := h
  rw [hRest, hRest'] at hAhead
  refine ⟨passed, ahead, hPaddings, fun p hp => Nat.le_succ_of_le (hPassed p hp), ?_, ?_⟩
  · simp only [hPos, Nat.add_right_comm]
  · cases hAhead with
    | kept hAhead => rwa [hSize] at hAhead
    | lowered hLowers hAhead => rwa [hLowers.behind_eq]

theorem digits (h : Beside paddings .marked c c') :
    ((c'.takeRun Char.isDigit).1 = [] ↔ (c.takeRun Char.isDigit).1 = []) ∧
    Nat.ofDigitChars 10 (c'.takeRun Char.isDigit).1 0 =
      Nat.ofDigitChars 10 (c.takeRun Char.isDigit).1 0 ∧
    Beside paddings .within (c.takeRun Char.isDigit).2 (c'.takeRun Char.isDigit).2 := by
  obtain ⟨passed, ahead, rfl, hPassed, hPos, hAhead⟩ := h
  obtain ⟨zeros, read, later, rfl, hSum, hRead, hNone, hRun, hLater⟩ := hAhead.digits
  simp only [Cursor.takeRun, hRun]
  refine ⟨⟨fun hNil => (List.append_eq_nil_iff.mp hNil).2, fun hNil => ?_⟩, ?_, ?_⟩
  · rw [hNil, hNone hNil]
    rfl
  · rw [Nat.ofDigitChars_append, Nat.ofDigitChars_replicate_zero, Nat.mul_zero]
  · refine ⟨passed ++ read, later, (List.append_assoc _ _ _).symm, fun p hp => ?_, ?_, hLater⟩
    · obtain hp | hp := List.mem_append.mp hp
      · exact Nat.le_add_right_of_le (hPassed p hp)
      · exact (hRead p hp).le
    · simp only [hPos, List.map_append, List.sum_append, List.length_append,
        List.length_replicate, hSum]
      omega

end Beside

/-- States of the same parse over a text and over a respelled one. -/
structure Respelled (paddings : List Padding) (place : Place) (s t : State σ H) : Prop where
  beside : Beside paddings place s.cursor t.cursor
  opened_eq : t.opened = s.opened
  store_eq : t.store = s.store
  calls_eq : Journal.calls t.journal = Journal.calls s.journal

def respelling (F : Factory σ H) (paddings : List Padding) : Lockstep F F where
  move := shifted paddings
  Level := Respelled paddings
  Stopped _ _ _ := False
  stopped_mono h _ := h
  pos_eq h := h.beside.pos_eq
  opened_eq h := h.opened_eq
  forget h := { h with beside := h.beside.forget }
  heads h := h.beside.heads
  eat h hc hRest hRest' := { h with beside := h.beside.next hc.utf8Size_eq hRest hRest' }
  read h hRest hRest' :=
    { h with
      beside := h.beside.next (Symbol.utf8Size_char _) hRest hRest'
      calls_eq := by simp only [State.afterRead, Journal.calls_push, h.calls_eq, Event.call?] }
  digits h := ⟨h.beside.digits.1, h.beside.digits.2.1, { h with beside := h.beside.digits.2.2 }⟩
  assigned number name h :=
    { h with calls_eq := by simp only [Journal.calls_push, h.calls_eq, Event.call?] }
  register handle h := { h with opened_eq := by simp only [h.opened_eq] }
  classOf handle h := by rw [h.store_eq]
  make r h := by
    rw [h.store_eq]
    exact ⟨rfl, { h with
      store_eq := rfl
      calls_eq := by simp only [Journal.calls_push, h.calls_eq] }⟩
  setBody handle fields h hs ht := by
    subst hs ht
    rw [h.store_eq]
    exact .inl ⟨rfl, { h with
      beside := h.beside.forget
      store_eq := rfl
      calls_eq := by simp only [Journal.calls_push, h.calls_eq] }⟩

def respelledFailure (spec : String) (paddings : List Padding) (d : Diagnostic) : Diagnostic :=
  ⟨⟨d.cause, shifted paddings d.pos⟩, spec⟩

/-- A respelled text makes the factory do the same, and ends in the same way: with the same handle,
or with a failure of the same cause at the offset that the zeros before it have moved. Neither a
count nor an id is too large because of zeros in front. -/
theorem run_respelled (F : Factory σ H) (config : Config) (store : σ) {spec spec' : String}
    {paddings : List Padding} (h : Respells .within 0 spec.toList spec'.toList paddings) :
    Journal.calls (run F config spec' store).journal =
        Journal.calls (run F config spec store).journal ∧
      (run F config spec' store).store = (run F config spec store).store ∧
      (run F config spec' store).outcome =
        (run F config spec store).outcome.mapError (respelledFailure spec' paddings) := by
  have hStart : Respelled paddings .within (start spec store : State σ H) (start spec' store) :=
    ⟨⟨[], paddings, rfl, List.forall_mem_nil _, rfl, h⟩, rfl, rfl, rfl⟩
  have hEnds := ends_whole (respelling F paddings) config hStart
  rw [calls_whole, calls_whole]
  unfold run
  generalize (whole F config).run (start spec store) = left at hEnds ⊢
  generalize (whole F config).run (start spec' store) = right at hEnds ⊢
  cases hEnds with
  | ok _ hLevel hAnswers =>
    obtain ⟨rfl, rfl⟩ := hAnswers
    exact ⟨hLevel.calls_eq, hLevel.store_eq, rfl⟩
  | error hLevel => exact ⟨hLevel.calls_eq, hLevel.store_eq, rfl⟩
  | stopped hStopped => exact hStopped.elim

theorem run_respelled_reference :
    Respells .within 0 "(<Bx2>%7)".toList "(<bx002>%07)".toList [⟨5, 2⟩, ⟨8, 1⟩] ∧
    (run TypeTable.factory {} "(<Bx2>%7)" TypeTable.initial).outcome =
      .error ⟨⟨.undefinedTypeId 7, 7⟩, "(<Bx2>%7)"⟩ ∧
    (run TypeTable.factory {} "(<bx002>%07)" TypeTable.initial).outcome =
      .error ⟨⟨.undefinedTypeId 7, 9⟩, "(<bx002>%07)"⟩ ∧
    Journal.calls (run TypeTable.factory {} "(<bx002>%07)" TypeTable.initial).journal =
      [.made (.scalar .i8) 1, .made (.vector 1 2) 9] := by
  have hTwo : Numeral ['2'] 2 := Numeral.toDigits 2
  have hSeven : Numeral ['7'] 7 := Numeral.toDigits 7
  have hRespells :
      Respells .within 0 "(<Bx2>%7)".toList "(<bx002>%07)".toList [⟨5, 2⟩, ⟨8, 1⟩] := by
    have hReference : Respells .marked 7 ['7', ')'] ['0', '7', ')'] [⟨8, 1⟩] :=
      @Respells.padded 7 7 1 ['7'] [')'] [')'] [] hSeven (noDigit_cons.mpr rfl) (.kept .nil)
    have hCount : Respells .marked 4 "2>%7)".toList "002>%07)".toList [⟨5, 2⟩, ⟨8, 1⟩] :=
      @Respells.padded 4 2 2 ['2'] ">%7)".toList ">%07)".toList [⟨8, 1⟩] hTwo
        (noDigit_cons.mpr rfl) (.kept (.kept hReference))
    exact .kept (.kept (.lowered .char (.kept hCount)))
  have hOutcome : (run TypeTable.factory {} "(<Bx2>%7)" TypeTable.initial).outcome =
      .error ⟨⟨.undefinedTypeId 7, 7⟩, "(<Bx2>%7)"⟩ := by decide +kernel
  have hCalls : Journal.calls (run TypeTable.factory {} "(<Bx2>%7)" TypeTable.initial).journal =
      [.made (.scalar .i8) 1, .made (.vector 1 2) 9] := by decide +kernel
  obtain ⟨hSameCalls, -, hMoved⟩ :=
    run_respelled TypeTable.factory {} TypeTable.initial hRespells
  rw [hOutcome] at hMoved
  exact ⟨hRespells, hOutcome, hMoved, hSameCalls.trans hCalls⟩

end Parse

end CompactType
