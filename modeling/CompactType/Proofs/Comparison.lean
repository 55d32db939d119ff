import CompactType.Proofs.Discipline
import CompactType.Proofs.Tandem
import Mathlib.Data.String.Basic

/-!
# Whole parses compared

A parse reads the type that the text starts with and then has to be at the end. Of two parses in
tandem either both come to the same end, or the first text is over too soon for the second one, or
the first parse is cut off.
-/

set_option autoImplicit false

namespace CompactType.Parse

variable {σ τ H : Type}

theorem utf8Len_eq_length {text : List Char} (h : ∀ c ∈ text, c.utf8Size = 1) :
    String.utf8Len text = text.length := by
  induction text with
  | nil => rfl
  | cons c text ih =>
    rw [String.utf8Len_cons, List.length_cons, h c List.mem_cons_self,
      ih fun d hd => h d (List.mem_cons_of_mem c hd)]

theorem length_le_utf8ByteSize (text : List Char) :
    text.length ≤ (String.ofList text).utf8ByteSize := by
  rw [String.utf8ByteSize_ofList]
  induction text with
  | nil => exact Nat.zero_le _
  | cons c text ih =>
    have hSize := c.utf8Size_pos
    rw [String.utf8Len_cons, List.length_cons]
    omega

section Run

variable (F : Factory σ H) (config : Config) (spec : String) (store : σ)

theorem calls_whole :
    Journal.calls (run F config spec store).journal =
      Journal.calls (final ((whole F config).run (start spec store))).journal := by
  unfold run
  cases (whole F config).run (start spec store) with
  | error fault s => exact calls_ending _ _
  | ok handle s => simp [final, Journal.calls_push, Event.call?]

theorem calls_run :
    Journal.calls (run F config spec store).journal =
      Journal.calls (final ((firstType F config).run (start spec store))).journal := by
  rw [calls_whole, run_whole]
  cases (firstType F config).run (start spec store) with
  | error => rfl
  | ok handle s =>
    simp only
    split
    · rfl
    · rfl

theorem reaches_firstType :
    Reaches config.maxDepth config.maxDepth (start spec store) (fun _ _ => True)
      ((firstType F config).run (start spec store)) :=
  (forwardElements_element F config config.maxDepth).elementType (Nat.zero_add _).ge (by trivial) F
    config (start spec store) rfl

variable {F config spec store} {s : State σ H}

theorem outcome_of_ended {handle : H}
    (h : (firstType F config).run (start spec store) = .ok handle s) (hRest : s.cursor.rest = []) :
    (run F config spec store).outcome = .ok handle := by
  simp [run, run_whole, h, Cursor.atEnd, hRest]

theorem outcome_of_trailing {handle : H}
    (h : (firstType F config).run (start spec store) = .ok handle s) (hRest : s.cursor.rest ≠ []) :
    (run F config spec store).outcome = .error ⟨⟨.trailingInput, s.cursor.pos⟩, spec⟩ := by
  simp [run, run_whole, h, Cursor.atEnd, hRest]

theorem outcome_of_error {fault : Fault}
    (h : (firstType F config).run (start spec store) = .error fault s) :
    (run F config spec store).outcome = .error ⟨fault, spec⟩ := by
  simp [run, run_whole, h]

theorem Onward.pos_add_length (h : Onward (start spec store) s) :
    s.cursor.pos + s.cursor.rest.length = spec.toList.length :=
  h.length_eq.trans (Nat.zero_add _)

theorem Onward.room (h : Onward (start spec store) s) {text tail : List Char}
    (hRest : s.cursor.rest = text ++ tail) : s.cursor.pos + tail.length ≤ spec.toList.length := by
  have hLength := h.pos_add_length
  rw [hRest, List.length_append] at hLength
  omega

theorem bounded_of_error {diagnostic : Diagnostic}
    (h : (run F config spec store).outcome = .error diagnostic) :
    Bounded config.maxDepth config.maxDepth spec.toList.length diagnostic.toFault := by
  have hReaches := reaches_firstType F config spec store
  generalize hRun : (firstType F config).run (start spec store) = result at hReaches
  cases hReaches with
  | error hOnward hBounded =>
    cases (outcome_of_error hRun).symm.trans h
    exact ⟨hBounded.pos_le.trans (hOnward.room (List.append_nil _).symm), hBounded.too_deep⟩
  | @ok _ s hOnward _ =>
    by_cases hRest : s.cursor.rest = []
    · cases (outcome_of_ended hRun hRest).symm.trans h
    · cases (outcome_of_trailing hRun hRest).symm.trans h
      exact Flat.bounded trivial (hOnward.room (List.append_nil _).symm)

end Run

variable {A : Side σ H} {B : Side τ H}

theorem tandem_firstType (hComparable : Comparable A B)
    (hDepth : A.config.maxDepth ≤ B.config.maxDepth) :
    Tandem A B .within (firstType A.factory A.config) (firstType B.factory B.config)
      fun p a b => p = .found ∧ a = b := by
  obtain ⟨more, hMore⟩ := Nat.exists_eq_add_of_le hDepth
  have hElements := comparing_elements hComparable hMore (grows_element _ _ more)
    A.config.maxDepth
  rw [← hMore] at hElements
  exact hElements.firstType

/-- How two parses compare. The faults of the first one lie in the common text. -/
inductive Compared (A : Side σ H) (B : Side τ H) (spec spec' : String) (left : Run σ H)
    (right : Run τ H) : Prop where
  | ok {handle : H} :
    left.outcome = .ok handle → right.outcome = .ok handle → A.tail = [] → B.tail = [] →
    CallsRenamed (Named A.config B.config) (Journal.calls left.journal)
      (Journal.calls right.journal) →
    Compared A B spec spec' left right
  | error {fault : Fault} :
    left.outcome = .error ⟨fault, spec⟩ → right.outcome = .error ⟨fault, spec'⟩ →
    fault.pos + A.tail.length ≤ spec.toList.length →
    CallsRenamed (Named A.config B.config) (Journal.calls left.journal)
      (Journal.calls right.journal) →
    Compared A B spec spec' left right
  | overrun {handle : H} :
    left.outcome = .ok handle →
    right.outcome = .error ⟨⟨.trailingInput, spec.toList.length⟩, spec'⟩ →
    A.tail = [] → B.tail ≠ [] →
    CallsRenamed (Named A.config B.config) (Journal.calls left.journal)
      (Journal.calls right.journal) →
    Compared A B spec spec' left right
  | cut {fault : Fault} {calls : List (Call H)} :
    left.outcome = .error ⟨fault, spec⟩ → Cut A B fault →
    CallsRenamed (Named A.config B.config) (Journal.calls left.journal) calls →
    calls <+: Journal.calls right.journal → Compared A B spec spec' left right

/-- Two parses of texts that begin alike, of which the second one may nest deeper. -/
theorem compared_runs (hComparable : Comparable A B)
    (hDepth : A.config.maxDepth ≤ B.config.maxDepth) {text : List Char} (hSeam : Seam text B.tail)
    {spec spec' : String} (hSpec : spec.toList = text ++ A.tail)
    (hSpec' : spec'.toList = text ++ B.tail) :
    Compared A B spec spec' (run A.factory A.config spec A.store)
      (run B.factory B.config spec' B.store) := by
  have hStart : Abreast A B (start spec A.store) (start spec' B.store) :=
    ⟨⟨rfl, text, hSpec, hSpec', hSeam⟩, rfl, .nil, rfl, rfl⟩
  have hCloses := (tandem_firstType hComparable hDepth).closes _ _ hStart
  have hReaches := reaches_firstType A.factory A.config spec A.store
  have hLeftCalls := calls_run A.factory A.config spec A.store
  have hRightCalls := calls_run B.factory B.config spec' B.store
  generalize hLeft : (firstType A.factory A.config).run (start spec A.store) = left
    at hCloses hReaches hLeftCalls
  generalize hRight : (firstType B.factory B.config).run (start spec' B.store) = right
    at hCloses hRightCalls
  cases hCloses with
  | early _ hOpen hAnswers _ =>
    rw [hAnswers.1] at hOpen
    exact hOpen.elim
  | cut hCut hBehind =>
    obtain ⟨calls, hPrefix, hRenamed⟩ := hBehind
    exact .cut (outcome_of_error hLeft) hCut (hLeftCalls ▸ hRenamed) (hRightCalls ▸ hPrefix)
  | error h =>
    obtain ⟨more, hMore, -⟩ := h.parallel.common
    cases hReaches with
    | error hOnward hBounded =>
      exact .error (outcome_of_error hLeft) (outcome_of_error hRight)
        ((Nat.add_le_add_right hBounded.pos_le _).trans (hOnward.room hMore))
        (hLeftCalls ▸ hRightCalls ▸ h.calls)
  | @ok _ handle _ s t h hAnswers =>
    obtain ⟨-, rfl⟩ := hAnswers
    obtain ⟨more, hMore, hMore', -⟩ := h.parallel.common
    have hCalls := hLeftCalls ▸ hRightCalls ▸ h.calls
    cases hReaches with
    | ok hOnward _ =>
      by_cases hRest : s.cursor.rest = []
      · obtain ⟨rfl, hTail⟩ := List.append_eq_nil_iff.mp (hMore ▸ hRest)
        by_cases hTail' : B.tail = []
        · exact .ok (outcome_of_ended hLeft hRest) (outcome_of_ended hRight (hMore'.trans hTail'))
            hTail hTail' hCalls
        · have hEnd : s.cursor.pos = spec.toList.length := by
            simpa [hRest] using hOnward.pos_add_length
          have hTrailing := outcome_of_trailing hRight (by rw [hMore']; exact hTail')
          rw [← h.parallel.pos_eq, hEnd] at hTrailing
          exact .overrun (outcome_of_ended hLeft hRest) hTrailing hTail hTail' hCalls
      · have hRest' : t.cursor.rest ≠ [] := by
          obtain hSpent | hPeek := h.spent_or_peek?_eq hComparable.tails
          · exact absurd hSpent.rest_eq hRest
          · intro hNil
            simp only [Cursor.peek?, hNil, List.head?_nil] at hPeek
            exact hRest (List.head?_eq_none_iff.mp hPeek)
        have hTrailing := outcome_of_trailing hRight hRest'
        rw [← h.parallel.pos_eq] at hTrailing
        exact .error (outcome_of_trailing hLeft hRest) hTrailing (hOnward.room hMore) hCalls

/-- The parse failed because types nest too deep. -/
def TooDeep (outcome : Except Diagnostic H) : Prop :=
  ∃ d pos spec, outcome = .error ⟨⟨.nestingTooDeep d, pos⟩, spec⟩

section SameText

variable {F : Factory σ H} {G : Factory τ H} {config config' : Config} {s : σ} {t : τ}

/-- Of two parses of one text either nothing but the names differs, or the first one has the lower
limit of nesting and is cut off. -/
theorem same_or_cut (h : AnswerAlike (Named config config') F s G t)
    (hDepth : config.maxDepth ≤ config'.maxDepth) (spec : String) :
    (CallsRenamed (Named config config') (Journal.calls (run F config spec s).journal)
        (Journal.calls (run G config' spec t).journal) ∧
      (run G config' spec t).outcome = (run F config spec s).outcome) ∨
    config.maxDepth < config'.maxDepth ∧ TooDeep (run F config spec s).outcome ∧
      ∃ calls, CallsRenamed (Named config config')
          (Journal.calls (run F config spec s).journal) calls ∧
        calls <+: Journal.calls (run G config' spec t).journal := by
  let A : Side σ H := ⟨F, config, s, []⟩
  let B : Side τ H := ⟨G, config', t, []⟩
  have hComparable : Comparable A B := ⟨h, .ended []⟩
  have hSeam : Seam spec.toList B.tail := fun _ _ _ => noDigit_nil
  have hText : spec.toList = spec.toList ++ [] := (List.append_nil _).symm
  cases compared_runs hComparable hDepth hSeam hText hText with
  | ok hLeft hRight _ _ hCalls | error hLeft hRight _ hCalls =>
    exact .inl ⟨hCalls, hRight.trans hLeft.symm⟩
  | overrun _ _ _ hTail => exact absurd rfl hTail
  | @cut fault calls hLeft hCut hCalls hPrefix =>
    cases hCut with
    | text _ hTail => exact absurd rfl hTail
    | depth hLess hCause =>
      obtain ⟨cause, pos⟩ := fault
      obtain rfl : cause = _ := hCause
      exact .inr ⟨hLess, ⟨_, _, _, hLeft⟩, calls, hCalls, hPrefix⟩

theorem runs_eq (h : AnswerAlike (Named config config) F s G t) (spec : String) :
    (run G config spec t).outcome = (run F config spec s).outcome ∧
      Journal.calls (run G config spec t).journal =
        Journal.calls (run F config spec s).journal := by
  obtain ⟨hCalls, hOutcome⟩ | ⟨hLess, -⟩ := same_or_cut h le_rfl spec
  · exact ⟨hOutcome, (hCalls.eq (named_le_eq config)).symm⟩
  · exact absurd hLess (lt_irrefl _)

end SameText

end CompactType.Parse
