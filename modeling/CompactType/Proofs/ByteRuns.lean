import CompactType.Cursor
import Mathlib.Order.Bounds.Basic

/-!
# Runs of bytes

A cursor over the bytes of a text moves byte by byte, so that it may stand inside a character. The
run that it takes is the longest one that is accepted, and is text again if it is not empty and
begins and ends between characters.
-/

set_option autoImplicit false

namespace CompactType

section Decoding

variable {bytes : ByteArray} {text : String}

theorem isSome_fromUTF8?_iff : (String.fromUTF8? bytes).isSome = true ↔ bytes.IsValidUTF8 := by
  rw [String.fromUTF8?]
  split
  · next h => exact iff_of_true rfl h
  · next h => exact iff_of_false Bool.false_ne_true h

theorem toUTF8_of_fromUTF8? (h : String.fromUTF8? bytes = some text) : text.toUTF8 = bytes := by
  rw [String.fromUTF8?] at h
  split at h
  · cases h
    rfl
  · cases h

theorem isValidUTF8_push_ascii {b : UInt8} (h : b < 128) :
    (ByteArray.empty.push b).IsValidUTF8 := by
  have hByte : b.toNat < 128 := h
  have hSize : (Char.ofUInt8 b).utf8Size = 1 := by
    rw [Char.utf8Size_eq_one_iff, UInt32.le_iff_toNat_le]
    change b.toUInt32.toNat ≤ 127
    rw [UInt8.toNat_toUInt32]
    omega
  have hSame : (Char.ofUInt8 b).toUInt8 = b := UInt8.toUInt8_toUInt32 b
  have hPush := ByteArray.isValidUTF8_empty.push hSize
  rwa [hSame] at hPush

theorem extract_single {i : Nat} {b : UInt8} (h : bytes.data[i]? = some b) :
    bytes.extract i (i + 1) = ByteArray.empty.push b := by
  obtain ⟨hIndex, hByte⟩ := Array.getElem?_eq_some_iff.mp h
  apply ByteArray.ext
  rw [ByteArray.data_extract, Array.extract_succ_right (Nat.lt_succ_self i) hIndex, hByte,
    Array.extract_empty_of_stop_le_start (Nat.le_refl i)]
  rfl

theorem isValid_of_ascii {i : Nat} {b : UInt8} (hByte : text.toUTF8.data[i]? = some b)
    (hAscii : b < 128) :
    String.Pos.Raw.IsValid text ⟨i⟩ ∧ String.Pos.Raw.IsValid text ⟨i + 1⟩ := by
  obtain ⟨hIndex, -⟩ := Array.getElem?_eq_some_iff.mp hByte
  have hSize : i + 1 ≤ text.utf8ByteSize := hIndex
  have hValid : (text.toUTF8.extract i (i + 1)).IsValidUTF8 := by
    rw [extract_single hByte]
    exact isValidUTF8_push_ascii hAscii
  obtain hSame | hEnds :=
    (String.Pos.Raw.isValidUTF8_extract_iff ⟨i⟩ ⟨i + 1⟩ (Nat.le_succ i) hSize).mp hValid
  · cases hSame
  · exact hEnds

end Decoding

namespace Cursor

section Moves

variable {α : Type} {c d e : Cursor α} {units more : List α}

/-- The second cursor has moved over the units, which are unread for the first one. -/
structure Passes (c : Cursor α) (units : List α) (d : Cursor α) : Prop where
  rest_eq : c.rest = units ++ d.rest
  pos_eq : d.pos = c.pos + units.length

theorem Passes.refl (c : Cursor α) : c.Passes [] c := ⟨rfl, rfl⟩

theorem Passes.trans (h : c.Passes units d) (h' : d.Passes more e) :
    c.Passes (units ++ more) e where
  rest_eq := by rw [h.rest_eq, h'.rest_eq, List.append_assoc]
  pos_eq := by rw [h'.pos_eq, h.pos_eq, List.length_append, Nat.add_assoc]

theorem Passes.le_pos (h : c.Passes units d) : c.pos ≤ d.pos := by
  rw [h.pos_eq]
  exact Nat.le_add_right _ _

theorem Passes.length_eq (h : c.Passes units d) : d.length = c.length := by
  rw [length, length, h.rest_eq, h.pos_eq, List.length_append, Nat.add_assoc]

theorem exists_passes_advance (c : Cursor α) : ∃ units, c.Passes units c.advance := by
  obtain ⟨pos, rest⟩ := c
  cases rest with
  | nil => exact ⟨[], .refl _⟩
  | cons unit rest => exact ⟨[unit], rfl, rfl⟩

theorem passes_takeRun (c : Cursor α) (accepts : α → Bool) :
    c.Passes (c.takeRun accepts).1 (c.takeRun accepts).2 :=
  ⟨List.takeWhile_append_dropWhile.symm, rfl⟩

end Moves

/-- What moves a cursor over bytes. -/
inductive Step where
  | advance
  | eat (byte : UInt8)
  | takeDigits
  | takeText (accepts : UInt8 → Bool)

def step (c : Cursor UInt8) : Step → Cursor UInt8
  | .advance => c.advance
  | .eat byte => (c.eat byte).2
  | .takeDigits => c.takeDigits.2
  | .takeText accepts => (c.takeText accepts).2

def after (c : Cursor UInt8) (steps : List Step) : Cursor UInt8 := steps.foldl step c

/-- Steps from the start of the text lead to the cursor. -/
def Reached (text : String) (c : Cursor UInt8) : Prop := ∃ steps, (ofBytes text).after steps = c

theorem exists_passes_step (c : Cursor UInt8) (s : Step) : ∃ units, c.Passes units (c.step s) := by
  cases s with
  | advance => exact c.exists_passes_advance
  | eat byte =>
    rw [step, eat]
    split
    · exact c.exists_passes_advance
    · exact ⟨[], .refl c⟩
  | takeDigits => exact ⟨_, c.passes_takeRun isDigitByte⟩
  | takeText accepts => exact ⟨_, c.passes_takeRun accepts⟩

theorem exists_passes_after (c : Cursor UInt8) (steps : List Step) :
    ∃ units, c.Passes units (c.after steps) := by
  induction steps generalizing c with
  | nil => exact ⟨[], .refl c⟩
  | cons s steps ih =>
    obtain ⟨first, hFirst⟩ := c.exists_passes_step s
    obtain ⟨rest, hRest⟩ := ih (c.step s)
    exact ⟨first ++ rest, hFirst.trans hRest⟩

/-- All bytes of the text between the two positions are accepted. -/
def AllAccepted (text : String) (accepts : UInt8 → Bool) (start stop : Nat) : Prop :=
  ∀ i, start ≤ i → i < stop → ∃ b ∈ text.toUTF8.data[i]?, accepts b = true

/-- The longest stretch of accepted bytes goes from the start to the stop. It is the answer if it
is not empty and cuts no character at either end, and else there is no answer. -/
structure TakesStretch (text : String) (accepts : UInt8 → Bool) (start : Nat)
    (answer : Option String) (stop : Nat) : Prop where
  longest : IsGreatest {n | start ≤ n ∧ AllAccepted text accepts start n} stop
  isSome_iff : answer.isSome = true ↔
    start < stop ∧ String.Pos.Raw.IsValid text ⟨start⟩ ∧ String.Pos.Raw.IsValid text ⟨stop⟩
  bytes_eq : ∀ run, answer = some run → run.toUTF8 = text.toUTF8.extract start stop

/-- A run of bytes below 128 is always text, so there is no answer only where nothing is taken. -/
theorem TakesStretch.eq_none_iff {text : String} {accepts : UInt8 → Bool} {start stop : Nat}
    {answer : Option String} (h : TakesStretch text accepts start answer stop)
    (hAscii : ∀ b, accepts b = true → b < 128) : answer = none ↔ stop = start := by
  obtain ⟨⟨hLe, hAccepted⟩, -⟩ := h.longest
  rw [← Option.not_isSome_iff_eq_none, h.isSome_iff]
  constructor
  · intro hLost
    by_contra hMoved
    have hLess : start < stop := lt_of_le_of_ne hLe (Ne.symm hMoved)
    obtain ⟨first, hFirst, hFirstAccepts⟩ := hAccepted start le_rfl hLess
    obtain ⟨last, hLast, hLastAccepts⟩ :=
      hAccepted (stop - 1) (Nat.le_sub_one_of_lt hLess) (Nat.sub_one_lt_of_lt hLess)
    have hBegins := (isValid_of_ascii hFirst (hAscii first hFirstAccepts)).1
    have hEnds := (isValid_of_ascii hLast (hAscii last hLastAccepts)).2
    rw [Nat.sub_add_cancel (Nat.one_le_of_lt hLess)] at hEnds
    exact hLost ⟨hLess, hBegins, hEnds⟩
  · rintro rfl ⟨hLess, -⟩
    exact lt_irrefl _ hLess

section Texts

variable {text : String} {read units : List UInt8} {c d : Cursor UInt8}

theorem Passes.toList_eq (h : (ofBytes text).Passes read c) :
    text.toUTF8.data.toList = read ++ c.rest ∧ c.pos = read.length :=
  ⟨h.rest_eq, h.pos_eq.trans (Nat.zero_add _)⟩

theorem Passes.pos_le (h : (ofBytes text).Passes read c) : c.pos ≤ text.utf8ByteSize :=
  calc c.pos
    _ ≤ c.length := c.pos_le_length
    _ = (ofBytes text).length := h.length_eq
    _ = text.toUTF8.data.size := by rw [ofBytes, length_ofList, Array.length_toList]
    _ = text.utf8ByteSize := text.size_toByteArray

theorem Passes.getElem?_eq (h : (ofBytes text).Passes read c) (n : Nat) :
    text.toUTF8.data[c.pos + n]? = c.rest[n]? := by
  obtain ⟨hBytes, hPos⟩ := h.toList_eq
  rw [← Array.getElem?_toList, hBytes, hPos, List.getElem?_append_right (Nat.le_add_right _ _),
    Nat.add_sub_cancel_left]

theorem Passes.extract_eq (h : (ofBytes text).Passes read c) (hMove : c.Passes units d) :
    text.toUTF8.extract c.pos d.pos = ⟨units.toArray⟩ := by
  obtain ⟨hBytes, hPos⟩ := h.toList_eq
  apply ByteArray.ext
  rw [ByteArray.data_extract, ← Array.toList_inj, Array.toList_extract, List.extract_eq_take_drop,
    hBytes, hMove.pos_eq, hPos, hMove.rest_eq, List.drop_left, Nat.add_sub_cancel_left,
    List.take_left]

theorem Passes.accepted_takeRun (h : (ofBytes text).Passes read c) (accepts : UInt8 → Bool) :
    AllAccepted text accepts c.pos (c.takeRun accepts).2.pos := by
  intro i hStart hStop
  obtain ⟨n, rfl⟩ := Nat.exists_eq_add_of_le hStart
  have hMove := c.passes_takeRun accepts
  rw [hMove.pos_eq] at hStop
  have hRun : n < (c.takeRun accepts).1.length := Nat.lt_of_add_lt_add_left hStop
  rw [h.getElem?_eq, hMove.rest_eq, List.getElem?_append_left hRun, List.getElem?_eq_getElem hRun]
  exact ⟨_, rfl, List.all_eq_true.mp List.all_takeWhile _ (List.getElem_mem hRun)⟩

theorem Passes.le_of_accepted (h : (ofBytes text).Passes read c) {accepts : UInt8 → Bool}
    {stop : Nat} (hAccepted : AllAccepted text accepts c.pos stop) :
    stop ≤ (c.takeRun accepts).2.pos := by
  have hMove := c.passes_takeRun accepts
  by_contra hStop
  rw [hMove.pos_eq, Nat.not_le] at hStop
  obtain ⟨b, hByte, hAccepts⟩ := hAccepted _ (Nat.le_add_right _ _) hStop
  rw [h.getElem?_eq, hMove.rest_eq, List.getElem?_append_right (Nat.le_refl _), Nat.sub_self,
    ← List.head?_eq_getElem?] at hByte
  have hRefuses := List.head?_dropWhile_not accepts c.rest
  rw [show (c.rest.dropWhile accepts).head? = some b from hByte] at hRefuses
  exact Bool.false_ne_true (hRefuses.symm.trans hAccepts)

theorem Passes.longest_takeRun (h : (ofBytes text).Passes read c) (accepts : UInt8 → Bool) :
    IsGreatest {n | c.pos ≤ n ∧ AllAccepted text accepts c.pos n} (c.takeRun accepts).2.pos := by
  constructor
  · exact ⟨(c.passes_takeRun accepts).le_pos, h.accepted_takeRun accepts⟩
  · rintro stop ⟨-, hAccepted⟩
    exact h.le_of_accepted hAccepted

theorem Passes.takeText_eq (h : (ofBytes text).Passes read c) (accepts : UInt8 → Bool) :
    c.takeText accepts =
      (if c.pos < (c.takeRun accepts).2.pos then
        String.fromUTF8? (text.toUTF8.extract c.pos (c.takeRun accepts).2.pos)
      else none, (c.takeRun accepts).2) := by
  have hMove := c.passes_takeRun accepts
  rw [h.extract_eq hMove, hMove.pos_eq]
  change (if (c.takeRun accepts).1.isEmpty then none
    else String.fromUTF8? ⟨(c.takeRun accepts).1.toArray⟩, (c.takeRun accepts).2) = _
  cases (c.takeRun accepts).1 with
  | nil => simp
  | cons b run => simp

theorem Passes.isSome_takeText_iff (h : (ofBytes text).Passes read c) (accepts : UInt8 → Bool) :
    (c.takeText accepts).1.isSome = true ↔ c.pos < (c.takeRun accepts).2.pos ∧
      String.Pos.Raw.IsValid text ⟨c.pos⟩ ∧
      String.Pos.Raw.IsValid text ⟨(c.takeRun accepts).2.pos⟩ := by
  have hEnd := (h.trans (c.passes_takeRun accepts)).pos_le
  rw [h.takeText_eq]
  by_cases hMoved : c.pos < (c.takeRun accepts).2.pos
  · have hApart : (⟨c.pos⟩ : String.Pos.Raw) ≠ ⟨(c.takeRun accepts).2.pos⟩ :=
      fun hSame => hMoved.ne (congrArg String.Pos.Raw.byteIdx hSame)
    have hEnds := String.Pos.Raw.isValidUTF8_extract_iff (s := text) ⟨c.pos⟩
      ⟨(c.takeRun accepts).2.pos⟩ hMoved.le hEnd
    rw [if_pos hMoved, isSome_fromUTF8?_iff, and_iff_right hMoved]
    exact hEnds.trans (or_iff_right hApart)
  · rw [if_neg hMoved]
    exact iff_of_false Bool.false_ne_true fun hEnds => hMoved hEnds.1

theorem Passes.toUTF8_eq_of_takeText (h : (ofBytes text).Passes read c) {accepts : UInt8 → Bool}
    {run : String} (hRun : (c.takeText accepts).1 = some run) :
    run.toUTF8 = text.toUTF8.extract c.pos (c.takeRun accepts).2.pos := by
  rw [h.takeText_eq] at hRun
  split at hRun
  · exact toUTF8_of_fromUTF8? hRun
  · cases hRun

theorem Passes.takesStretch (h : (ofBytes text).Passes read c) (accepts : UInt8 → Bool) :
    TakesStretch text accepts c.pos (c.takeText accepts).1 (c.takeText accepts).2.pos where
  longest := h.longest_takeRun accepts
  isSome_iff := h.isSome_takeText_iff accepts
  bytes_eq _ hRun := h.toUTF8_eq_of_takeText hRun

end Texts

/-- From wherever steps have led, a cursor only moves on, and no farther than the end of the text.
The run that it takes is the longest one, and is text exactly if it is not empty and cuts no
character, which a run of bytes below 128 never does. -/
theorem Reached.takes_longest {text : String} {c : Cursor UInt8} (h : Reached text c)
    (steps : List Step) (accepts : UInt8 → Bool) :
    c.pos ≤ (c.after steps).pos ∧ (c.after steps).pos ≤ text.utf8ByteSize ∧
    TakesStretch text accepts c.pos (c.takeText accepts).1 (c.takeText accepts).2.pos ∧
    ((∀ b, accepts b = true → b < 128) →
      ((c.takeText accepts).1 = none ↔ (c.takeText accepts).2.pos = c.pos)) := by
  obtain ⟨before, rfl⟩ := h
  obtain ⟨read, hRead⟩ := (ofBytes text).exists_passes_after before
  obtain ⟨units, hMove⟩ := ((ofBytes text).after before).exists_passes_after steps
  have hStretch := hRead.takesStretch accepts
  exact ⟨hMove.le_pos, (hRead.trans hMove).pos_le, hStretch, hStretch.eq_none_iff⟩

/-- The cursor stands on the second byte of a letter, where no digit is found. -/
theorem takes_longest_inside_letter :
    Reached "é7" ⟨1, [169, 55]⟩ ∧ (∀ b, isDigitByte b = true → b < 128) ∧
    1 ≤ (after ⟨1, [169, 55]⟩ [.advance, .takeDigits]).pos ∧
    (after ⟨1, [169, 55]⟩ [.advance, .takeDigits]).pos ≤ "é7".utf8ByteSize ∧
    TakesStretch "é7" isDigitByte 1 (takeText ⟨1, [169, 55]⟩ isDigitByte).1
      (takeText ⟨1, [169, 55]⟩ isDigitByte).2.pos ∧
    ((takeText ⟨1, [169, 55]⟩ isDigitByte).1 = none ↔
      (takeText ⟨1, [169, 55]⟩ isDigitByte).2.pos = 1) := by
  have hReached : Reached "é7" ⟨1, [169, 55]⟩ := ⟨[.advance], rfl⟩
  have hDigits : ∀ b, isDigitByte b = true → b < 128 := by
    intro b hb
    have hBounds : 48 ≤ b ∧ b ≤ 57 := by simpa [isDigitByte] using hb
    exact UInt8.lt_of_le_of_lt hBounds.2 (by decide)
  obtain ⟨hForward, hWithin, hStretch, hNone⟩ :=
    hReached.takes_longest [.advance, .takeDigits] isDigitByte
  exact ⟨hReached, hDigits, hForward, hWithin, hStretch, hNone hDigits⟩

example : takeText ⟨1, [169, 55]⟩ (128 ≤ ·) = (none, ⟨2, [55]⟩) := rfl

end Cursor

end CompactType
