import CompactType.Factory.Recorder
import CompactType.Proofs.Comparison

/-!
# Texts that begin alike

A parse is a single pass from left to right. What it does while it reads a text does not depend on
what follows, unless a number is continued, and after a complete type or a character without
meaning nothing that follows can matter.
-/

set_option autoImplicit false

namespace CompactType.Parse

variable {σ H : Type} {F : Factory σ H} {config : Config} {store : σ}

theorem seam_concat {c : Char} (hc : c.isDigit = false) (text more : List Char) :
    Seam (text ++ [c]) more := by
  intro d hd hDigit
  obtain rfl : c = d := by simpa using hd
  exact absurd hDigit (by simp [hc])

theorem Seam.cons {c : Char} {text more : List Char} (hc : c.isDigit = false)
    (h : Seam text more) : Seam (c :: text) more := by
  cases text with
  | nil => exact seam_concat hc [] more
  | cons d text =>
    intro e he
    exact h e (by simpa using he)

/-- A type ends with a number only if it ends with a reference, so a struct is declared before. -/
theorem Makes.seam {calls calls' : List (Call H)} {text : List Char} {handle : H}
    (h : Makes F config store calls text handle calls') (hNone : declarations calls = [])
    (more : List Char) : Seam text more := by
  induction text generalizing handle calls' with
  | nil => exact seam_nil more
  | cons c text ih =>
    cases h with
    | scalar letter => exact (seam_nil more).cons (Symbol.char_ne_digit _)
    | pointer hElem => exact (ih hElem).cons rfl
    | array | vector | define | record | function =>
      simp only [← List.cons_append, ← List.append_assoc]
      exact seam_concat rfl _ more
    | reference _ hDeclared => simp [hNone] at hDeclared

theorem Seam.of_accepted {spec : String} {handle : H}
    (h : (run F config spec store).outcome = .ok handle) (more : List Char) :
    Seam spec.toList more := by
  obtain ⟨calls, waiting, -, -, -, hEnding⟩ := exists_conforms F config spec store
  rw [h] at hEnding
  cases hEnding with
  | ok _ hMakes => exact hMakes.seam rfl more

def Side.ahead (F : Factory σ H) (config : Config) (store : σ) (tail : List Char) : Side σ H :=
  ⟨F, config, store, tail⟩

variable (F config store)

theorem compared_append {text tail tail' : List Char} (hTails : Tails tail tail')
    (hSeam : Seam text tail') {spec spec' : String} (hSpec : spec.toList = text ++ tail)
    (hSpec' : spec'.toList = text ++ tail') :
    Compared (Side.ahead F config store tail) (Side.ahead F config store tail') spec spec'
      (run F config spec store) (run F config spec' store) := by
  have hComparable : Comparable (Side.ahead F config store tail)
      (Side.ahead F config store tail') := ⟨.refl (named_le_eq _) F store, hTails⟩
  exact compared_runs hComparable le_rfl hSeam hSpec hSpec'

theorem calls_isPrefix {s t : String} (hSeam : Seam s.toList t.toList) :
    Journal.calls (run F config s store).journal <+:
      Journal.calls (run F config (s ++ t) store).journal := by
  cases compared_append F config store (.ended t.toList) hSeam (List.append_nil s.toList).symm
    String.toList_append with
  | ok _ _ _ _ hCalls | error _ _ _ hCalls | overrun _ _ _ _ hCalls =>
    exact hCalls.eq (named_le_eq _) ▸ List.prefix_rfl
  | cut _ _ hCalls hPrefix => exact hCalls.eq (named_le_eq _) ▸ hPrefix

variable {F config store}

theorem run_append_of_accepted {s t : String} {handle : H}
    (h : (run F config s store).outcome = .ok handle) (hMore : t ≠ "") :
    Journal.calls (run F config (s ++ t) store).journal =
        Journal.calls (run F config s store).journal ∧
      (run F config (s ++ t) store).outcome =
        .error ⟨⟨.trailingInput, s.toList.length⟩, s ++ t⟩ := by
  have hTail : t.toList ≠ [] := by simpa using hMore
  cases compared_append F config store (.ended t.toList) (.of_accepted h t.toList)
    (List.append_nil s.toList).symm String.toList_append with
  | overrun _ hRight _ _ hCalls => exact ⟨(hCalls.eq (named_le_eq _)).symm, hRight⟩
  | ok _ _ _ hEnd => exact absurd hEnd hTail
  | error hLeft | cut hLeft =>
    rw [hLeft] at h
    cases h

theorem run_append_of_foreign {s : String} {before after : List Char} {c : Char}
    (hText : s.toList = before ++ c :: after) (hc : Foreign c) (t : String) :
    ∃ fault, (run F config s store).outcome = .error ⟨fault, s⟩ ∧ fault.pos ≤ before.length ∧
      Journal.calls (run F config (s ++ t) store).journal =
        Journal.calls (run F config s store).journal ∧
      (run F config (s ++ t) store).outcome = .error ⟨fault, s ++ t⟩ := by
  have hText' : (s ++ t).toList = before ++ c :: (after ++ t.toList) := by
    rw [String.toList_append, hText, List.append_assoc, List.cons_append]
  have hSeam : Seam before (c :: (after ++ t.toList)) := fun _ _ _ => noDigit_cons.mpr hc.2
  have hTails := Tails.barred hc after (after ++ t.toList)
  cases compared_append F config store hTails hSeam hText hText' with
  | error hLeft hRight hPos hCalls =>
    refine ⟨_, hLeft, ?_, (hCalls.eq (named_le_eq _)).symm, hRight⟩
    rw [hText, List.length_append] at hPos
    exact Nat.le_of_add_le_add_right hPos
  | ok _ _ hTail | overrun _ _ hTail => cases hTail
  | cut _ hCut =>
    cases hCut with
    | text hTail => cases hTail
    | depth hLess => exact absurd hLess (lt_irrefl _)

theorem utf8Size_of_not_foreign {c : Char} (h : ¬Foreign c) : c.utf8Size = 1 := by
  cases hSymbol : Symbol.ofChar? c with
  | some symbol => exact Symbol.char_of_ofChar? hSymbol ▸ symbol.utf8Size_char
  | none => exact utf8Size_of_isDigit (by simpa [Foreign, hSymbol] using h)

theorem length_of_accepted {spec : String} {handle : H}
    (h : (run F config spec store).outcome = .ok handle) :
    spec.toList.length = spec.utf8ByteSize := by
  have hSize : ∀ c ∈ spec.toList, c.utf8Size = 1 := by
    intro c hc
    obtain ⟨before, after, hText⟩ := List.append_of_mem hc
    by_contra hOther
    have hForeign : Foreign c := by
      by_contra hNot
      exact hOther (utf8Size_of_not_foreign hNot)
    obtain ⟨fault, hFails, -⟩ := run_append_of_foreign (F := F) hText hForeign ""
    rw [hFails] at h
    cases h
  rw [← String.utf8Len_toList, utf8Len_eq_length hSize]

/-- A parse reads its text once, from left to right. What is made for a text is made for every
longer one, if no number is continued. An accepted text is not the beginning of another, and a
character without meaning is the last one that matters. -/
theorem run_append (F : Factory σ H) (config : Config) (store : σ) (s t : String) :
    (Seam s.toList t.toList →
      Journal.calls (run F config s store).journal <+:
        Journal.calls (run F config (s ++ t) store).journal) ∧
    (∀ handle, (run F config s store).outcome = .ok handle → t ≠ "" →
      Journal.calls (run F config (s ++ t) store).journal =
          Journal.calls (run F config s store).journal ∧
        (run F config (s ++ t) store).outcome =
          .error ⟨⟨.trailingInput, s.utf8ByteSize⟩, s ++ t⟩) ∧
    (∀ handle handle', (run F config s store).outcome = .ok handle →
      (run F config (s ++ t) store).outcome = .ok handle' → t = "") ∧
    ∀ before c after, s.toList = before ++ c :: after → Foreign c →
      ∃ fault, (run F config s store).outcome = .error ⟨fault, s⟩ ∧
        fault.pos ≤ (String.ofList before).utf8ByteSize ∧
        Journal.calls (run F config (s ++ t) store).journal =
          Journal.calls (run F config s store).journal ∧
        (run F config (s ++ t) store).outcome = .error ⟨fault, s ++ t⟩ := by
  refine ⟨calls_isPrefix F config store, ?_, ?_, ?_⟩
  · intro handle hAccepted hMore
    rw [← length_of_accepted hAccepted]
    exact run_append_of_accepted hAccepted hMore
  · intro handle handle' hAccepted hLonger
    by_contra hMore
    rw [(run_append_of_accepted hAccepted hMore).2] at hLonger
    cases hLonger
  · intro before c after hText hc
    obtain ⟨fault, hFails, hPos, hLonger⟩ := run_append_of_foreign (F := F) hText hc t
    exact ⟨fault, hFails, hPos.trans (length_le_utf8ByteSize before), hLonger⟩

/-- Nothing may follow a pointer, and nothing behind a character without meaning is read. -/
theorem run_append_pointer :
    (run (Recorder.factory {}) {} "*i" Recorder.empty).outcome = .ok 1 ∧
    (run (Recorder.factory {}) {} ("*i" ++ "%0") Recorder.empty).outcome =
      .error ⟨⟨.trailingInput, 2⟩, "*i" ++ "%0"⟩ ∧
    Foreign '?' ∧
    ∃ fault, (run (Recorder.factory {}) {} "\x7b*i?" Recorder.empty).outcome =
        .error ⟨fault, "\x7b*i?"⟩ ∧ fault.pos ≤ 3 ∧
      (run (Recorder.factory {}) {} ("\x7b*i?" ++ "\x7d") Recorder.empty).outcome =
        .error ⟨fault, "\x7b*i?" ++ "\x7d"⟩ := by
  have hAccepted : (run (Recorder.factory {}) {} "*i" Recorder.empty).outcome = .ok 1 := by
    decide +kernel
  have hForeign : Foreign '?' := by decide
  obtain ⟨-, hTrailing, -, -⟩ := run_append (Recorder.factory {}) {} Recorder.empty "*i" "%0"
  obtain ⟨-, -, -, hBarred⟩ :=
    run_append (Recorder.factory {}) {} Recorder.empty "\x7b*i?" "\x7d"
  obtain ⟨fault, hFails, hPos, -, hLonger⟩ := hBarred ['{', '*', 'i'] '?' [] (by decide) hForeign
  exact ⟨hAccepted, (hTrailing 1 hAccepted (by decide)).2, hForeign, fault, hFails, hPos, hLonger⟩

end CompactType.Parse
