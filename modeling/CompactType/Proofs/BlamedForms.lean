import CompactType.Proofs.Forward
import CompactType.Proofs.Placement
import CompactType.Proofs.Soundness

/-!
# Faults of the forms

Every fault of a form is blamed on what the text shows at its place. Faults inside the form are
those of the element parser; the others are told by what was read before and by what comes next.
-/

set_option autoImplicit false

namespace CompactType.Parse

/-- An element parser whose faults are blamed on the text. What it reads is spelled, and only at the
end of the text it finds nothing. -/
structure Blaming (config : Config) (depth : Nat) (sub : ElementParser (List Draft) Spec) :
    Prop where
  sound : Sound sub depth
  forward : ForwardElements config.maxDepth depth sub
  at_end : ∀ s s', sub.run s = .ok none s' → s.cursor.rest = []
  blames : ∀ text before s fault s', Situated text before s → sub.run s = .error fault s' →
    Blames config text fault

section Checks

variable {config : Config} {text before behind : List Char} {p : Placed Spec}
  {placed : List (Placed Spec)} {s s₁ s' : State (List Draft) Spec} {fault : Fault}

theorem Shows.ne_nil {chunk : List Char} {e : Element Spec} (h : Shows chunk e) : chunk ≠ [] := by
  cases e with
  | vararg =>
    obtain rfl : chunk = ['&'] := h
    simp
  | type handle =>
    obtain ⟨n, m, t, hSpells, -⟩ := h
    obtain ⟨c, rest, rfl, -⟩ := hSpells.exists_cons
    simp

theorem Shows.head?_of_vararg {chunk rest : List Char} (h : Shows chunk .vararg) :
    (chunk ++ rest).head? = some '&' := by
  obtain rfl : chunk = ['&'] := h
  rfl

theorem Shows.startsType {chunk rest : List Char} {handle : Spec} {property : TypeClass → Prop}
    (h : Shows chunk (.type handle)) (hProperty : property handle.typeClass) :
    StartsType property (chunk ++ rest) := by
  obtain ⟨n, m, t, hSpells, rfl⟩ := h
  exact ⟨n, m, chunk, rest, t, rfl, hSpells, t.typeClass_outline ▸ hProperty⟩

theorem Shows.head?_of_void {chunk rest : List Char} {handle : Spec}
    (h : Shows chunk (.type handle)) (hVoid : handle.typeClass = .void) :
    (chunk ++ rest).head? = some 'v' := by
  obtain ⟨n, m, t, hSpells, rfl⟩ := h
  rw [t.typeClass_outline] at hVoid
  obtain ⟨rfl, -⟩ := hSpells.eq_of_void hVoid
  rfl

theorem valued_blames {onMarker onType : Cause} (hs : Located text behind s)
    (hLaid : Laid before placed behind) (hp : p ∈ placed)
    (h : (valued Spec.factory onMarker onType p).run s₁ = .error fault s')
    (hMarker : ∀ front after, after.head? = some '&' → Evident config front after onMarker)
    (hType : ∀ front after, StartsType (fun k => k.isValue = false) after →
      Evident config front after onType) :
    Blames config text fault := by
  match p with
  | ⟨.vararg, _⟩ =>
    cases h
    exact hs.blames_of_laid hLaid hp fun _ _ _ hShows => hMarker _ _ hShows.head?_of_vararg
  | ⟨.type t, _⟩ =>
    rw [valued, run_classOf_bind] at h
    split at h
    · cases h
    · next hValue =>
      cases h
      refine hs.blames_of_laid hLaid hp fun front chunk rest hShows => hType _ _ ?_
      exact hShows.startsType (Bool.eq_false_iff.mpr hValue)

/-- The returned type stands last, so what follows it is what ends the list. -/
theorem returned_blames (hs : Located text behind s) (hLaid : Laid before (placed ++ [p]) behind)
    (hEnd : s.cursor.rest = [] ∨ s.cursor.rest.head? = some ')')
    (h : (returned Spec.factory p).run s₁ = .error fault s') : Blames config text fault := by
  match p with
  | ⟨.vararg, _⟩ =>
    cases h
    obtain ⟨front, chunk, rfl, hShows, hPos⟩ := hLaid.of_concat
    obtain rfl : chunk = ['&'] := hShows
    refine ⟨front, '&' :: s.cursor.rest, ?_, hPos, ?_, .inr ⟨s.cursor.rest, rfl, hEnd⟩⟩
    · rw [hs.text_eq, List.append_assoc]
      rfl
    · exact (List.forall_mem_append.mp hs.lexical).1
  | ⟨.type t, _⟩ =>
    rw [returned, run_classOf_bind] at h
    split at h
    · next hFunction =>
      cases h
      refine hs.blames_of_laid hLaid List.mem_concat_self fun front chunk rest hShows => ?_
      exact hShows.startsType (.inr (.inr ⟨rfl, hFunction⟩))
    · cases h

theorem dropLoneVoid_blames {checked : List (Placed Spec)} (hs : Located text behind s)
    (hLaid : Laid before placed behind) (hChecked : ∀ p ∈ checked, p ∈ placed)
    (h : (dropLoneVoid Spec.factory checked).run s₁ = .error fault s') :
    Blames config text fault := by
  match checked with
  | [] => cases h
  | ⟨.vararg, _⟩ :: _ => cases h
  | ⟨.type t, pos⟩ :: rest =>
    simp only [dropLoneVoid, run_classOf_bind] at h
    split at h
    · cases h
    · next hVoid =>
      split at h
      · cases h
      · cases h
        have hp := hChecked _ List.mem_cons_self
        refine hs.blames_of_laid hLaid hp fun front chunk rest hShows => ?_
        exact hShows.head?_of_void (Decidable.not_not.mp hVoid)

end Checks

section Forms

variable {config : Config} {depth : Nat} {sub : ElementParser (List Draft) Spec}
  {text before : List Char} {s s' : State (List Draft) Spec} {fault : Fault}

theorem Blaming.element_ok (hSub : Blaming config depth sub) (hs : Situated text before s)
    {e : Element Spec} (h : sub.run s = .ok (some e) s') :
    ∃ chunk, s.cursor.rest = chunk ++ s'.cursor.rest ∧ Shows chunk e ∧
      Situated text (before ++ chunk) s' := by
  obtain ⟨hs', hReads⟩ := hSub.sound s _ s' hs.aligned h
  have hLength := hSub.forward.length_eq h
  match e with
  | .type handle =>
    obtain ⟨chunk, t, hSpells, -, rfl, hRest⟩ := hReads
    refine ⟨chunk, hRest, ⟨_, _, t, hSpells, rfl⟩, hs.read hRest hLength hSpells.lexical, hs', ?_⟩
    rw [hSpells.eq_add_count, hs.length_eq, List.count_append]
  | .vararg =>
    obtain ⟨hRest, hStore⟩ := hReads
    have hLexical : ∀ c ∈ ['&'], Lexical c :=
      List.forall_mem_singleton.mpr (lexical_char .ampersand)
    refine ⟨['&'], hRest, rfl, hs.read hRest hLength hLexical, hs', ?_⟩
    rw [← hStore, hs.length_eq]
    simp

theorem Blaming.elementType_ok (hSub : Blaming config depth sub) (hs : Situated text before s)
    {missing : Cause} {handle : Spec} (h : (elementType sub missing).run s = .ok handle s') :
    ∃ chunk, s.cursor.rest = chunk ++ s'.cursor.rest ∧ Shows chunk (.type handle) ∧
      Situated text (before ++ chunk) s' := by
  rw [elementType, run_here_bind] at h
  obtain ⟨answer, s₁, hRun, h⟩ := run_bind_eq_ok.mp h
  obtain _ | ⟨_⟩ | _ := answer
  · cases h
  · cases h
    exact hSub.element_ok hs hRun
  · cases h

theorem Blaming.elementType (hSub : Blaming config depth sub) (hs : Situated text before s)
    {missing : Cause} (hMissing : Evident config before [] missing)
    (h : (elementType sub missing).run s = .error fault s') : Blames config text fault := by
  rw [Parse.elementType, run_here_bind] at h
  obtain hFault | ⟨answer, s₁, hRun, h⟩ := run_bind_eq_error.mp h
  · exact hSub.blames _ _ _ _ _ hs hFault
  · obtain _ | ⟨_⟩ | _ := answer
    · cases h
      exact hs.blames (by rw [hSub.at_end _ _ hRun]; exact hMissing)
    · cases h
    · cases h
      obtain ⟨_, hRest, hShows, -⟩ := hSub.element_ok hs hRun
      exact hs.blames (by rw [hRest]; exact hShows.head?_of_vararg)

/-- A sequence is over at its closing character or at the end of the text. There is room for all
elements because each of them takes a character. -/
theorem Blaming.sequenceWithin_ok (hSub : Blaming config depth sub) (hs : Situated text before s)
    {closing : Char} {bound : Nat} (hRoom : s.cursor.rest.length < bound)
    {placed : List (Placed Spec)}
    (h : (sequenceWithin sub closing bound).run s = .ok placed s') :
    ∃ behind, Laid before placed behind ∧ Situated text behind s' ∧
      (s'.cursor.rest = [] ∨ s'.cursor.rest.head? = some closing) := by
  induction bound generalizing before s placed with
  | zero => exact absurd hRoom (Nat.not_lt_zero _)
  | succ bound ih =>
    rw [sequenceWithin, run_looksAt_bind] at h
    split at h
    · next hClosing =>
      cases h
      refine ⟨before, .nil before, hs, .inr ?_⟩
      simpa [Cursor.looksAt, Cursor.peek?] using hClosing
    · rw [run_here_bind] at h
      obtain ⟨answer, s₁, hHead, h⟩ := run_bind_eq_ok.mp h
      cases answer with
      | none =>
        cases h
        have hEnd := hSub.at_end _ _ hHead
        obtain rfl : s' = s := (hSub.sound _ _ _ hs.aligned hHead).2
        exact ⟨before, .nil before, hs, .inl hEnd⟩
      | some e =>
        obtain ⟨rest, hTail, rfl⟩ := run_map_eq_ok.mp h
        obtain ⟨chunk, hRest, hShows, hs₁⟩ := hSub.element_ok hs hHead
        have hChunk : 0 < chunk.length := List.length_pos_iff.mpr hShows.ne_nil
        rw [hRest, List.length_append] at hRoom
        obtain ⟨behind, hLaid, hs', hEnd⟩ := ih hs₁ (by omega) hTail
        exact ⟨behind, .cons hShows hs.pos_eq hLaid, hs', hEnd⟩

theorem Blaming.sequence_ok (hSub : Blaming config depth sub) (hs : Situated text before s)
    {closing : Char} {placed : List (Placed Spec)}
    (h : (sequence sub closing).run s = .ok placed s') :
    ∃ behind, Laid before placed behind ∧ Situated text behind s' ∧
      (s'.cursor.rest = [] ∨ s'.cursor.rest.head? = some closing) := by
  rw [sequence, run_remaining_bind] at h
  exact hSub.sequenceWithin_ok hs (Nat.lt_succ_self _) h

theorem Blaming.sequence (hSub : Blaming config depth sub) (hs : Situated text before s)
    {closing : Char} (h : (sequence sub closing).run s = .error fault s') :
    Blames config text fault := by
  rw [Parse.sequence, run_remaining_bind] at h
  generalize s.cursor.rest.length + 1 = bound at h
  induction bound generalizing before s with
  | zero => cases h
  | succ bound ih =>
    rw [sequenceWithin, run_looksAt_bind] at h
    split at h
    · cases h
    · rw [run_here_bind] at h
      obtain hFault | ⟨answer, s₁, hHead, h⟩ := run_bind_eq_error.mp h
      · exact hSub.blames _ _ _ _ _ hs hFault
      · cases answer with
        | none => cases h
        | some e =>
          obtain ⟨chunk, -, -, hs₁⟩ := hSub.element_ok hs hHead
          exact ih hs₁ (run_map_eq_error h)

theorem Blaming.fields (hSub : Blaming config depth sub) (hs : Situated text before s)
    (hOpen : before.getLast? = some '{')
    (h : (fields Spec.factory sub).run s = .error fault s') : Blames config text fault := by
  obtain hFault | ⟨placed, s₁, hSequence, h⟩ := run_bind_eq_error.mp h
  · exact hSub.sequence hs hFault
  obtain ⟨behind, hLaid, hs₁, hEnd⟩ := hSub.sequence_ok hs hSequence
  split at h
  · next hEmpty =>
    cases h
    obtain rfl : placed = [] := List.isEmpty_iff.mp hEmpty
    cases hLaid
    exact hs₁.blames ⟨hOpen, hEnd⟩
  · obtain hFault | ⟨checked, s₂, hCheck, hClose⟩ := run_bind_eq_error.mp h
    · obtain ⟨p, hp, _, hField⟩ := mapM_eq_error hFault
      exact valued_blames hs₁.toLocated hLaid hp hField (fun _ _ hHead => hHead)
        fun _ _ hStarts => hStarts.imp fun _ hValue => .inl ⟨by simp, hValue⟩
    · obtain ⟨rfl, -⟩ := mapM_eq_ok (fun _ _ _ _ => valued_eq_ok) hCheck
      obtain hFault | ⟨_, _, _, ⟨⟩⟩ := run_bind_eq_error.mp hClose
      obtain ⟨rfl, hHead⟩ := close_eq_error hFault
      exact hs₁.blames (.inl ⟨by simp, hEnd.resolve_right hHead⟩)

theorem Blaming.record (hSub : Blaming config depth sub) (hs : Situated text before s)
    (hOpen : before.getLast? = some '{')
    (h : (record Spec.factory sub).run s = .error fault s') : Blames config text fault := by
  obtain hFault | ⟨_, _, _, h⟩ := run_bind_eq_error.mp h
  · exact hSub.fields hs hOpen hFault
  · cases h

theorem Blaming.crossedElement_ok (hSub : Blaming config depth sub) (hs : Situated text before s)
    {form : String} {allowed : TypeClass → Bool} {handle : Spec}
    (h : (crossedElement Spec.factory sub form allowed).run s = .ok handle s') :
    ∃ behind, behind.getLast? = some 'x' ∧ Situated text behind s' := by
  rw [crossedElement, run_here_bind] at h
  obtain ⟨elem, s₁, hElem, h⟩ := run_bind_eq_ok.mp h
  obtain ⟨chunk, -, -, hs₁⟩ := hSub.elementType_ok hs hElem
  rw [run_classOf_bind] at h
  obtain ⟨-, h⟩ := run_ite_eq_ok ((fails_fail _ _).bind _) h
  obtain ⟨found, s₂, hEat, h⟩ := run_bind_eq_ok.mp h
  obtain ⟨rfl, h⟩ := run_ite_eq_ok ((fails_failHere _).bind _) h
  cases h
  obtain ⟨hLocated, hSame⟩ := hs₁.toLocated.eat .cross hEat
  exact ⟨_, by simp [Symbol.char], hs₁.same hLocated hSame rfl⟩

theorem Blaming.crossedElement (hSub : Blaming config depth sub) (hs : Situated text before s)
    {form : String} {allowed : TypeClass → Bool}
    (hUnfit : ∀ k, allowed k = false → Unfit (form ++ " element") k)
    (h : (crossedElement Spec.factory sub form allowed).run s = .error fault s') :
    Blames config text fault := by
  rw [Parse.crossedElement, run_here_bind] at h
  obtain hFault | ⟨elem, s₁, hElem, h⟩ := run_bind_eq_error.mp h
  · exact hSub.elementType hs (by simp [Evident]) hFault
  obtain ⟨chunk, hRest, hShows, hs₁⟩ := hSub.elementType_ok hs hElem
  rw [run_classOf_bind] at h
  split at h
  · obtain ⟨⟨⟩⟩ | ⟨found, s₂, hEat, hFound⟩ := run_bind_eq_error.mp h
    cases found with
    | true => cases hFound
    | false =>
      obtain ⟨rfl, hHead⟩ := eat_eq_false hEat
      cases hFound
      exact hs₁.blames hHead
  · next hAllowed =>
    cases h
    refine hs.blames ?_
    rw [hRest]
    exact hShows.startsType (hUnfit _ (Bool.eq_false_iff.mpr hAllowed))

theorem Blaming.array (hSub : Blaming config depth sub) (hs : Situated text before s)
    (h : (array Spec.factory sub).run s = .error fault s') : Blames config text fault := by
  obtain hFault | ⟨elem, s₁, hElem, h⟩ := run_bind_eq_error.mp h
  · exact hSub.crossedElement hs (fun _ hValue => .inl ⟨by decide, hValue⟩) hFault
  obtain ⟨behind, hCross, hs₁⟩ := hSub.crossedElement_ok hs hElem
  rw [run_here_bind] at h
  obtain hFault | ⟨count, s₂, hNumber, h⟩ := run_bind_eq_error.mp h
  · obtain ⟨rfl, hNone⟩ := number_eq_error hFault
    exact hs₁.blames ⟨hCross, hNone⟩
  obtain ⟨run, hRest, hRun, hNoDigit, hs₂, -⟩ := hs₁.number hNumber
  obtain hFault | ⟨_, s₃, -, h⟩ := run_bind_eq_error.mp h
  · obtain ⟨rfl, hHead⟩ := close_eq_error hFault
    exact hs₂.blames (.inr ⟨by simp, hHead⟩)
  split at h
  · next hZero =>
    cases h
    subst hZero
    exact hs₁.blames ⟨hCross, run, _, hRest, hRun.ne_nil, hRun.eq_of_zero, hNoDigit⟩
  · cases h

theorem Blaming.vector (hSub : Blaming config depth sub) (hs : Situated text before s)
    (h : (vector Spec.factory sub).run s = .error fault s') : Blames config text fault := by
  obtain hFault | ⟨elem, s₁, hElem, h⟩ := run_bind_eq_error.mp h
  · exact hSub.crossedElement hs (fun _ hLane => .inr (.inl ⟨by decide, hLane⟩)) hFault
  obtain ⟨behind, hCross, hs₁⟩ := hSub.crossedElement_ok hs hElem
  rw [run_here_bind] at h
  obtain hFault | ⟨count, s₂, hNumber, h⟩ := run_bind_eq_error.mp h
  · obtain ⟨rfl, hNone⟩ := number_eq_error hFault
    exact hs₁.blames ⟨hCross, hNone⟩
  obtain ⟨run, hRest, hRun, hNoDigit, hs₂, -⟩ := hs₁.number hNumber
  split at h
  · next hZero =>
    cases h
    subst hZero
    exact hs₁.blames ⟨hCross, run, _, hRest, hRun.ne_nil, hRun.eq_of_zero, hNoDigit⟩
  · obtain hFault | ⟨_, s₃, -, h⟩ := run_bind_eq_error.mp h
    · obtain ⟨rfl, hHead⟩ := close_eq_error hFault
      exact hs₂.blames (.inr ⟨by simp, hHead⟩)
    · cases h

theorem Blaming.pointer (hSub : Blaming config depth sub) (hs : Situated text before s)
    (hStar : before.getLast? = some '*')
    (h : (pointer Spec.factory sub).run s = .error fault s') : Blames config text fault := by
  obtain hFault | ⟨_, _, _, h⟩ := run_bind_eq_error.mp h
  · have hMissing : Evident config before [] .missingPointee := ⟨hStar, rfl⟩
    exact hSub.elementType hs hMissing hFault
  · cases h

theorem reference_blames (hs : Situated text before s) (hPercent : before.getLast? = some '%')
    (h : (reference : Parser (List Draft) Spec Spec).run s = .error fault s') :
    Blames config text fault := by
  rw [reference, run_here_bind] at h
  obtain hFault | ⟨number, s₁, hNumber, h⟩ := run_bind_eq_error.mp h
  · obtain ⟨rfl, hNone⟩ := number_eq_error hFault
    exact hs.blames ⟨.inr hPercent, hNone⟩
  obtain ⟨run, hRest, hRun, hNoDigit, -, hSame⟩ := hs.number hNumber
  rw [run_opened?_bind] at h
  cases hOpened : s₁.opened[number]? with
  | some t =>
    rw [hOpened] at h
    cases h
  | none =>
    rw [hOpened] at h
    cases h
    rw [hSame.opened_eq, hs.aligned, Array.getElem?_eq_none_iff, size_references,
      hs.length_eq] at hOpened
    exact hs.blames ⟨hPercent, ⟨run, _, hRest, hRun, hNoDigit⟩, hOpened⟩

theorem Blaming.definition (hSub : Blaming config depth sub)
    (hs : Located text (before ++ ['=']) s) (hAligned : Aligned s)
    (hLength : s.store.length = before.count '=')
    (h : (definition Spec.factory config sub).run s = .error fault s') :
    Blames config text fault := by
  rw [Parse.definition, run_here_bind] at h
  obtain hFault | ⟨number, s₁, hNumber, h⟩ := run_bind_eq_error.mp h
  · obtain ⟨rfl, hNone⟩ := number_eq_error hFault
    exact hs.blames ⟨.inl (by simp), hNone⟩
  obtain ⟨run, hRest, hRun, hNoDigit, hs₁, hSame₁⟩ := hs.number hNumber
  have hNext : s₁.opened.size = before.count '=' := by
    rw [hSame₁.opened_eq, hAligned, size_references, hLength]
  rw [run_nextNumber_bind, hNext] at h
  split at h
  · next hNe =>
    cases h
    exact hs.blames ⟨by simp, ⟨run, _, hRest, hRun, hNoDigit⟩, by simp, hNe⟩
  · next hEq =>
    rw [Decidable.not_not] at hEq
    obtain ⟨⟨⟩⟩ | ⟨found, s₂, hEat, hBody⟩ := run_bind_eq_error.mp h
    cases found with
    | false =>
      obtain ⟨rfl, hHead⟩ := eat_eq_false hEat
      cases hBody
      exact hs₁.blames ⟨⟨before, run, by simp, hRun, hEq.symm⟩, hNoDigit, hHead⟩
    | true =>
      obtain ⟨hs₂, hSame₂⟩ := hs₁.eat .openBrace hEat
      rw [if_pos rfl, run_request_bind, run_register_bind, run_emit_bind] at hBody
      obtain hFault | ⟨handles, s₃, -, hCompleted⟩ := run_bind_eq_error.mp hBody
      · have hOpen : (before ++ ['='] ++ run ++ ['{']).getLast? = some '{' := List.getLast?_concat
        refine hSub.fields ?_ hOpen hFault
        refine ⟨⟨hs₂.text_eq, hs₂.pos_eq, hs₂.lexical⟩, ?_, ?_⟩
        · simp only [Aligned, Spec.factory, Spec.make, List.length_append, List.length_singleton]
          rw [← references_push, hSame₂.opened_eq, hSame₁.opened_eq, hAligned, hSame₂.store_eq,
            hSame₁.store_eq]
        · have hStore : s₂.store.length = before.count '=' := by
            rw [hSame₂.store_eq, hSame₁.store_eq, hLength]
          simp [Spec.factory, Spec.make, hStore, hRun.count_eq]
      · obtain hComplete | ⟨_, _, _, ⟨⟩⟩ := run_bind_eq_error.mp hCompleted
        rw [run_complete] at hComplete
        cases hComplete

theorem Blaming.function (hSub : Blaming config depth sub) (hs : Situated text before s)
    (h : (function Spec.factory sub).run s = .error fault s') : Blames config text fault := by
  obtain hFault | ⟨placed, s₁, hSequence, hChecks⟩ := run_bind_eq_error.mp h
  · exact hSub.sequence hs hFault
  obtain ⟨behind, hLaid, hs₁, hEnd⟩ := hSub.sequence_ok hs hSequence
  match hReverse : placed.reverse with
  | [] | [_] =>
    rw [hReverse] at hChecks
    cases hChecks
    exact hs₁.blames hEnd
  | last :: next :: more =>
    rw [hReverse] at hChecks
    have hPlaced : placed = (next :: more).reverse ++ [last] := by
      rw [← placed.reverse_reverse, hReverse, List.reverse_cons]
    have hMem (p : Placed Spec) (hp : p ∈ (splitVararg (next :: more)).2) : p ∈ placed := by
      rw [← List.mem_reverse, hReverse]
      exact List.mem_cons_of_mem _ (mem_splitVararg hp)
    obtain hFault | ⟨r, s₂, hReturned, hDropped⟩ := run_bind_eq_error.mp hChecks
    · exact returned_blames hs₁.toLocated (hPlaced ▸ hLaid) hEnd hFault
    obtain hFault | ⟨kept, s₃, hDrop, hParams⟩ := run_bind_eq_error.mp hDropped
    · exact dropLoneVoid_blames hs₁.toLocated hLaid hMem hFault
    obtain ⟨hState₃, hKept⟩ := dropLoneVoid_eq_ok hDrop
    obtain hFault | ⟨params, s₄, hMap, hClose⟩ := run_bind_eq_error.mp hParams
    · obtain ⟨p, hp, _, hParam⟩ := mapM_eq_error hFault
      obtain rfl | ⟨rfl, -⟩ := hKept
      · exact valued_blames hs₁.toLocated hLaid (hMem p (List.mem_reverse.mp hp)) hParam
          (fun _ _ hHead => .inl hHead) fun _ _ hStarts => .inr hStarts
      · cases hp
    obtain hFault | ⟨_, _, _, ⟨⟩⟩ := run_bind_eq_error.mp hClose
    obtain ⟨rfl, hHead⟩ := close_eq_error hFault
    obtain ⟨rfl, -⟩ := mapM_eq_ok (fun _ _ _ _ => valued_eq_ok) hMap
    obtain ⟨rfl, -⟩ := returned_eq_ok hReturned
    subst hState₃
    exact hs₁.blames (.inl ⟨by simp, hEnd.resolve_right hHead⟩)

theorem Blaming.afterSymbol (hSub : Blaming config depth sub) (hs : Situated text before s)
    {symbol : Symbol} {rest : List Char} (hRest : s.cursor.rest = symbol.char :: rest)
    (h : (afterSymbol Spec.factory config sub s.cursor.pos symbol).run (s.afterRead symbol rest) =
      .error fault s') : Blames config text fault := by
  have hLocated : Located text (before ++ [symbol.char]) (s.afterRead symbol rest) := by
    refine hs.read hRest ?_ (List.forall_mem_singleton.mpr (lexical_char symbol))
    simp only [Cursor.length, State.afterRead, hRest, List.length_cons]
    omega
  have hSituated (hEquals : [symbol.char].count '=' = 0) :
      Situated text (before ++ [symbol.char]) (s.afterRead symbol rest) :=
    hs.same hLocated ⟨rfl, rfl⟩ hEquals
  have hLast : (before ++ [symbol.char]).getLast? = some symbol.char := List.getLast?_concat
  have hNone (hClosing : symbol.isClosing = true) (n m : Nat) (more : List Char) (t : Spec) :
      ¬Spells n (symbol.char :: more) t m :=
    not_spells_of_isClosing hClosing
  cases symbol with
  | openBrace => exact hSub.record (hSituated rfl) hLast (run_map_eq_error h)
  | openBracket => exact hSub.array (hSituated rfl) (run_map_eq_error h)
  | less => exact hSub.vector (hSituated rfl) (run_map_eq_error h)
  | star => exact hSub.pointer (hSituated rfl) hLast (run_map_eq_error h)
  | openParen => exact hSub.function (hSituated rfl) (run_map_eq_error h)
  | equals => exact hSub.definition hLocated hs.aligned hs.length_eq (run_map_eq_error h)
  | percent => exact reference_blames (hSituated rfl) hLast (run_map_eq_error h)
  | ampersand => cases h
  | scalar letter => cases h
  | closeBrace | closeBracket | greater | closeParen | cross =>
    cases h
    exact hs.blames ⟨congrArg List.head? hRest, hNone rfl⟩

theorem Blaming.dispatch (hSub : Blaming config depth sub) :
    Blaming config (depth + 1) (dispatch Spec.factory config sub) where
  sound := hSub.sound.dispatch config
  forward := hSub.forward.dispatch Spec.factory config
  at_end _ _ := rest_eq_nil_of_dispatch
  blames text before s fault s' hs h := by
    have hCases := dispatches Spec.factory config sub s
    generalize (Parse.dispatch Spec.factory config sub).run s = result at hCases h
    cases hCases with
    | nothing => cases h
    | unknown hRest hc =>
      cases h
      exact hs.blames ⟨congrArg List.head? hRest, fun _ _ _ _ => not_spells_of_unknown hc⟩
    | symbol hRest => exact hSub.afterSymbol hs hRest h

end Forms

theorem blaming_element (config : Config) (depth : Nat) :
    Blaming config depth (element Spec.factory config depth) := by
  induction depth with
  | zero =>
    refine ⟨sound_element config 0, forwardElements_element Spec.factory config 0, nofun, ?_⟩
    intro text before s fault s' hs h
    cases h
    exact hs.blames_nesting config.maxDepth
  | succ depth ih => exact ih.dispatch

end CompactType.Parse
