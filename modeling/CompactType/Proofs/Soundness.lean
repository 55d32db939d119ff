import CompactType.Proofs.ReadSteps

/-!
# What is read is spelled

Whenever the parser that builds trees answers, the text that it read spells a tree of the grammar
whose outline is the answer.
-/

set_option autoImplicit false

namespace CompactType.Parse

section Forms

variable {sub : ElementParser (List Draft) Spec} {depth : Nat} {s s' : State (List Draft) Spec}

/-- A form that starts with the character is read from behind it. -/
def Yields (depth : Nat) (c : Char) (s : State (List Draft) Spec) (handle : Spec)
    (s' : State (List Draft) Spec) : Prop :=
  Aligned s' ∧ ∃ text t, Spells s.store.length (c :: text) t s'.store.length ∧
    t.nesting ≤ depth + 1 ∧ handle = t.outline ∧ s.cursor.rest = text ++ s'.cursor.rest

theorem Sound.fields (hSub : Sound sub depth) {handles : List Spec} (hs : Aligned s)
    (h : (fields Spec.factory sub).run s = .ok handles s') :
    Aligned s' ∧ ∃ text specs, SpellsAll s.store.length text specs s'.store.length ∧
      Spec.nestings specs ≤ depth ∧ handles = Spec.outlines specs ∧ specs ≠ [] ∧
      (∀ t ∈ specs, t.typeClass.isValue = true) ∧
      s.cursor.rest = text ++ '}' :: s'.cursor.rest := by
  obtain ⟨placed, s₁, hSequence, h⟩ := run_bind_eq_ok.mp h
  obtain ⟨hs₁, hRead⟩ := hSub.sequence hs hSequence
  obtain ⟨hEmpty, h⟩ := run_ite_not_eq_ok ((fails_failHere _).bind _) h
  obtain ⟨checked, s₂, hCheck, h⟩ := run_bind_eq_ok.mp h
  obtain ⟨_, s₃, hClose, hReturn⟩ := run_bind_eq_ok.mp h
  cases hReturn
  obtain ⟨rfl, hElements, hValue⟩ := mapM_eq_ok (fun _ _ _ _ => valued_eq_ok) hCheck
  obtain ⟨hRest, hSame⟩ := close_eq_ok hClose
  rw [hElements] at hRead
  obtain ⟨text, specs, hSpells, hDepth, rfl, hText⟩ := hRead.exists_spellsAll
  refine ⟨hSame.aligned hs₁, text, specs, hSame.store_eq ▸ hSpells, hDepth, rfl, ?_,
    Spec.isValue_of_outlines hValue, by rw [hText, hRest]⟩
  rintro rfl
  simp [List.map_eq_nil_iff.mp hElements] at hEmpty

theorem Sound.record (hSub : Sound sub depth) {handle : Spec} (hs : Aligned s)
    (h : (record Spec.factory sub).run s = .ok handle s') : Yields depth '{' s handle s' := by
  obtain ⟨handles, s₁, hFields, h⟩ := run_bind_eq_ok.mp h
  obtain ⟨hs₁, text, specs, hSpells, hDepth, rfl, hNonempty, hValue, hText⟩ :=
    hSub.fields hs hFields
  obtain ⟨rfl, hCursor, hSame⟩ := request_eq_ok (fun _ => rfl) h
  refine ⟨hSame.aligned hs₁, text ++ ['}'], .record specs, ?_, Nat.succ_le_succ hDepth, rfl, ?_⟩
  · exact Spells.record (hSame.store_eq ▸ hSpells) hNonempty hValue
  · rw [hText, hCursor, List.append_assoc, List.singleton_append]

theorem Sound.crossedElement (hSub : Sound sub depth) {form : String}
    {allowed : TypeClass → Bool} {handle : Spec} (hs : Aligned s)
    (h : (crossedElement Spec.factory sub form allowed).run s = .ok handle s') :
    Aligned s' ∧ ∃ text t, Spells s.store.length text t s'.store.length ∧ t.nesting ≤ depth ∧
      handle = t.outline ∧ allowed t.typeClass = true ∧
      s.cursor.rest = text ++ 'x' :: s'.cursor.rest := by
  rw [CompactType.Parse.crossedElement, run_here_bind] at h
  obtain ⟨elem, s₁, hElem, h⟩ := run_bind_eq_ok.mp h
  obtain ⟨hs₁, text, t, hSpells, hDepth, rfl, hText⟩ := hSub.elementType hs hElem
  rw [run_classOf_bind] at h
  obtain ⟨hAllowed, h⟩ := run_ite_eq_ok ((fails_fail _ _).bind _) h
  obtain ⟨found, s₂, hEat, h⟩ := run_bind_eq_ok.mp h
  obtain ⟨rfl, h⟩ := run_ite_eq_ok ((fails_failHere _).bind _) h
  cases h
  obtain ⟨hRest, hSame⟩ := eat_eq_ok hEat
  refine ⟨hSame.aligned hs₁, text, t, hSame.store_eq ▸ hSpells, hDepth, rfl, ?_, ?_⟩
  · rw [← t.typeClass_outline]
    exact hAllowed
  · rw [hText, hRest]

theorem Sound.array (hSub : Sound sub depth) {handle : Spec} (hs : Aligned s)
    (h : (array Spec.factory sub).run s = .ok handle s') : Yields depth '[' s handle s' := by
  obtain ⟨elem, s₁, hElem, h⟩ := run_bind_eq_ok.mp h
  obtain ⟨hs₁, text, t, hSpells, hDepth, rfl, hValue, hText⟩ := hSub.crossedElement hs hElem
  rw [run_here_bind] at h
  obtain ⟨count, s₂, hNumber, h⟩ := run_bind_eq_ok.mp h
  obtain ⟨run, hRun, hLimit, hDigits, hSame₁⟩ := number_eq_ok hNumber
  obtain ⟨_, s₃, hClose, h⟩ := run_bind_eq_ok.mp h
  obtain ⟨hBracket, hSame₂⟩ := close_eq_ok hClose
  obtain ⟨hZero, h⟩ := run_ite_not_eq_ok ((fails_fail _ _).bind _) h
  obtain ⟨rfl, hCursor, hSame₃⟩ := request_eq_ok (fun _ => rfl) h
  have hStore : s'.store = s₁.store := by
    rw [hSame₃.store_eq, hSame₂.store_eq, hSame₁.store_eq]
  refine ⟨hSame₃.aligned (hSame₂.aligned (hSame₁.aligned hs₁)), text ++ 'x' :: (run ++ [']']),
    .array t (UInt64.ofNat count), ?_, Nat.succ_le_succ hDepth, rfl, ?_⟩
  · exact Spells.array (hStore ▸ hSpells) hValue hRun (Nat.pos_of_ne_zero hZero) hLimit
  · rw [hText, hDigits, hBracket, hCursor]
    simp

theorem Sound.vector (hSub : Sound sub depth) {handle : Spec} (hs : Aligned s)
    (h : (vector Spec.factory sub).run s = .ok handle s') : Yields depth '<' s handle s' := by
  obtain ⟨elem, s₁, hElem, h⟩ := run_bind_eq_ok.mp h
  obtain ⟨hs₁, text, t, hSpells, hDepth, rfl, hLane, hText⟩ := hSub.crossedElement hs hElem
  rw [run_here_bind] at h
  obtain ⟨count, s₂, hNumber, h⟩ := run_bind_eq_ok.mp h
  obtain ⟨run, hRun, hLimit, hDigits, hSame₁⟩ := number_eq_ok hNumber
  obtain ⟨hZero, h⟩ := run_ite_not_eq_ok ((fails_fail _ _).bind _) h
  obtain ⟨_, s₃, hClose, h⟩ := run_bind_eq_ok.mp h
  obtain ⟨hBracket, hSame₂⟩ := close_eq_ok hClose
  obtain ⟨rfl, hCursor, hSame₃⟩ := request_eq_ok (fun _ => rfl) h
  have hStore : s'.store = s₁.store := by
    rw [hSame₃.store_eq, hSame₂.store_eq, hSame₁.store_eq]
  refine ⟨hSame₃.aligned (hSame₂.aligned (hSame₁.aligned hs₁)), text ++ 'x' :: (run ++ ['>']),
    .vector t (UInt32.ofNat count), ?_, Nat.succ_le_succ hDepth, rfl, ?_⟩
  · exact Spells.vector (hStore ▸ hSpells) hLane hRun (Nat.pos_of_ne_zero hZero) hLimit
  · rw [hText, hDigits, hBracket, hCursor]
    simp

theorem Sound.pointer (hSub : Sound sub depth) {handle : Spec} (hs : Aligned s)
    (h : (pointer Spec.factory sub).run s = .ok handle s') : Yields depth '*' s handle s' := by
  obtain ⟨elem, s₁, hElem, h⟩ := run_bind_eq_ok.mp h
  obtain ⟨hs₁, text, t, hSpells, hDepth, rfl, hText⟩ := hSub.elementType hs hElem
  obtain ⟨rfl, hCursor, hSame⟩ := request_eq_ok (fun _ => rfl) h
  refine ⟨hSame.aligned hs₁, text, .pointer t, ?_, Nat.succ_le_succ hDepth, rfl, ?_⟩
  · exact Spells.pointer (hSame.store_eq ▸ hSpells)
  · rw [hText, hCursor]

theorem reference_yields {handle : Spec} (hs : Aligned s)
    (h : (reference : Parser (List Draft) Spec Spec).run s = .ok handle s') :
    Yields depth '%' s handle s' := by
  rw [reference, run_here_bind] at h
  obtain ⟨number, s₁, hNumber, h⟩ := run_bind_eq_ok.mp h
  obtain ⟨run, hRun, hLimit, hDigits, hSame⟩ := number_eq_ok hNumber
  have hs₁ : Aligned s₁ := hSame.aligned hs
  rw [run_opened?_bind] at h
  cases hOpened : s₁.opened[number]? with
  | none =>
    rw [hOpened] at h
    cases h
  | some t =>
    rw [hOpened] at h
    rw [hs₁] at hOpened
    have hLess : number < s₁.store.length := by
      have hSize := (Array.getElem?_eq_some_iff.mp hOpened).1
      rwa [size_references] at hSize
    rw [getElem?_references hLess] at hOpened
    cases hOpened
    cases h
    refine ⟨hs₁, run, .reference number, ?_, Nat.succ_le_succ (Nat.zero_le _), rfl, hDigits⟩
    rw [← hSame.store_eq]
    exact Spells.reference hRun hLess

theorem Sound.definition (hSub : Sound sub depth) {config : Config} {handle : Spec}
    (hs : Aligned s) (h : (definition Spec.factory config sub).run s = .ok handle s') :
    Yields depth '=' s handle s' := by
  rw [CompactType.Parse.definition, run_here_bind] at h
  obtain ⟨number, s₁, hNumber, h⟩ := run_bind_eq_ok.mp h
  obtain ⟨run, hRun, hLimit, hDigits, hSame₁⟩ := number_eq_ok hNumber
  rw [run_nextNumber_bind] at h
  obtain ⟨hNext, h⟩ := run_ite_not_eq_ok ((fails_fail _ _).bind _) h
  obtain ⟨found, s₂, hEat, h⟩ := run_bind_eq_ok.mp h
  obtain ⟨rfl, hBody⟩ := run_ite_eq_ok ((fails_failHere _).bind _) h
  obtain ⟨hBrace, hSame₂⟩ := eat_eq_ok hEat
  have hs₁ := hSame₁.aligned hs
  have hCount : number = s.store.length := by
    rw [Decidable.not_not, hs₁, size_references, hSame₁.store_eq] at hNext
    exact hNext
  subst hCount
  rw [run_request_bind, run_register_bind, run_emit_bind] at hBody
  obtain ⟨handles, s₃, hFields, hClosed⟩ := run_bind_eq_ok.mp hBody
  obtain ⟨hs₃, text, specs, hSpells, hDepth, rfl, hNonempty, hValue, hText⟩ := hSub.fields (by
    simp only [Aligned, Spec.factory, Spec.make, List.length_append, List.length_singleton]
    rw [← references_push, hSame₂.opened_eq, hs₁, hSame₂.store_eq, hSame₁.store_eq]) hFields
  obtain ⟨_, s₄, hComplete, hReturn⟩ := run_bind_eq_ok.mp hClosed
  cases hReturn
  rw [run_complete] at hComplete
  cases hComplete
  have hStore : s₂.store = s.store := by rw [hSame₂.store_eq, hSame₁.store_eq]
  refine ⟨?_, run ++ '{' :: (text ++ ['}']), .define s.store.length specs, ?_,
    Nat.succ_le_succ hDepth, ?_, ?_⟩
  · rw [Aligned]
    simp only [Spec.factory, Spec.length_setBody]
    exact hs₃
  · simp only [Spec.factory, Spec.length_setBody]
    refine Spells.define hRun hLimit ?_ hNonempty hValue
    simpa [Spec.factory, Spec.make, hStore] using hSpells
  · simp [Spec.factory, Spec.make, hStore, Spec.outline]
  · rw [hDigits, hBrace]
    simp only [] at hText
    rw [hText]
    simp

theorem ReadsType.of_void {handle : Spec} (h : ReadsType depth s handle s')
    (hVoid : handle.typeClass = .void) :
    s.cursor.rest = 'v' :: s'.cursor.rest ∧ s'.store.length = s.store.length := by
  obtain ⟨text, t, hSpells, -, rfl, hText⟩ := h
  rw [Spec.typeClass_outline] at hVoid
  obtain ⟨rfl, hLength⟩ := hSpells.eq_of_void hVoid
  exact ⟨hText, hLength⟩

/-- What stands before the type that a function returns, as the parameters that it amounts to. -/
inductive ReadsParams (depth : Nat) (s : State (List Draft) Spec) :
    List Spec → Bool → State (List Draft) Spec → Prop where
  | params {handles : List Spec} {s' : State (List Draft) Spec} :
    ReadsAll depth s (handles.map Element.type) s' → handles ≠ [] →
    ReadsParams depth s handles false s'
  | variadic {handles : List Spec} {s' : State (List Draft) Spec} :
    ReadsAll depth s (handles.map Element.type ++ [.vararg]) s' →
    ReadsParams depth s handles true s'
  | void {handle : Spec} {s' : State (List Draft) Spec} :
    ReadsAll depth s [.type handle] s' → handle.typeClass = .void →
    ReadsParams depth s [] false s'
  | voidVariadic {handle : Spec} {s' : State (List Draft) Spec} :
    ReadsAll depth s [.type handle, .vararg] s' → handle.typeClass = .void →
    ReadsParams depth s [] true s'

theorem readsParams_of_split {before kept : List (Placed Spec)} {params : List Spec}
    {s₁ s₂ : State (List Draft) Spec}
    (hRead : ReadsAll depth s (before.reverse.map Placed.element) s') (hBefore : before ≠ [])
    (hDrop : (dropLoneVoid Spec.factory (splitVararg before).2).run s₁ = .ok kept s₂)
    (hParams : kept.reverse.map Placed.element = params.map Element.type) :
    ReadsParams depth s params (splitVararg before).1 s' := by
  match before with
  | [] => exact absurd rfl hBefore
  | ⟨.vararg, mark⟩ :: rest =>
    rw [List.reverse_cons, List.map_append] at hRead
    obtain ⟨-, rfl | ⟨rfl, handle, hVoid, hClass⟩⟩ := dropLoneVoid_eq_ok hDrop
    · exact .variadic (hParams ▸ hRead)
    · obtain rfl : params = [] := by simpa using hParams.symm
      obtain ⟨p, rfl, hp⟩ := List.map_eq_singleton_iff.mp hVoid
      exact .voidVariadic (by simpa [hp] using hRead) hClass
  | ⟨.type t, start⟩ :: rest =>
    obtain ⟨-, rfl | ⟨rfl, handle, hVoid, hClass⟩⟩ := dropLoneVoid_eq_ok hDrop
    · refine .params (hParams ▸ hRead) ?_
      rintro rfl
      simp [splitVararg] at hParams
    · obtain rfl : params = [] := by simpa using hParams.symm
      obtain ⟨p, hp, hElement⟩ := List.map_eq_singleton_iff.mp hVoid
      rw [show (⟨.type t, start⟩ : Placed Spec) :: rest = [p] from hp] at hRead
      exact .void (by simpa [hElement] using hRead) hClass

theorem ReadsParams.yields {params : List Spec} {variadic : Bool} {r : Spec}
    {s₁ s₂ : State (List Draft) Spec} (h : ReadsParams depth s params variadic s₁)
    (hValue : ∀ t ∈ params, t.typeClass.isValue = true) (hRet : ReadsType depth s₁ r s₂)
    (hr : r.typeClass ≠ .function) (hClose : s₂.cursor.rest = ')' :: s'.cursor.rest)
    (hStore : s'.store.length = s₂.store.length) (hs' : Aligned s') :
    Yields depth '(' s (.function params r variadic) s' := by
  obtain ⟨result, t, hSpells, hNesting, rfl, hResult⟩ := hRet
  rw [Spec.typeClass_outline] at hr
  rw [hClose] at hResult
  rw [← hStore] at hSpells
  cases h with
  | params hRead hNonempty =>
    obtain ⟨text, specs, hList, hDepth, rfl, hText⟩ := hRead.exists_spellsAll
    refine ⟨hs', text ++ (result ++ [')']), .function specs t false, ?_,
      Spec.nesting_function_le_iff.mpr ⟨hDepth, hNesting⟩, rfl, by simp [hText, hResult]⟩
    exact Spells.function hList (by rintro rfl; exact hNonempty rfl)
      (Spec.isValue_of_outlines hValue) hSpells hr
  | variadic hRead =>
    obtain ⟨s₀, hParams, hLast⟩ := hRead.exists_append
    obtain ⟨hMark, hSame⟩ := hLast.singleton
    obtain ⟨text, specs, hList, hDepth, rfl, hText⟩ := hParams.exists_spellsAll
    refine ⟨hs', text ++ '&' :: (result ++ [')']), .function specs t true, ?_,
      Spec.nesting_function_le_iff.mpr ⟨hDepth, hNesting⟩, rfl, by simp [hText, hMark, hResult]⟩
    exact Spells.variadic hList (Spec.isValue_of_outlines hValue) (hSame ▸ hSpells) hr
  | void hRead hVoid =>
    obtain ⟨hText, hLength⟩ := ReadsType.of_void hRead.singleton hVoid
    refine ⟨hs', 'v' :: (result ++ [')']), .function [] t false, ?_,
      Spec.nesting_function_le_iff.mpr ⟨Nat.zero_le _, hNesting⟩, rfl, by simp [hText, hResult]⟩
    exact Spells.nullary (hLength ▸ hSpells) hr
  | voidVariadic hRead hVoid =>
    cases hRead with
    | cons hHead hTail =>
      obtain ⟨hText, hLength⟩ := ReadsType.of_void hHead hVoid
      obtain ⟨hMark, hSame⟩ := hTail.singleton
      refine ⟨hs', 'v' :: '&' :: (result ++ [')']), .function [] t true, ?_,
        Spec.nesting_function_le_iff.mpr ⟨Nat.zero_le _, hNesting⟩, rfl,
        by simp [hText, hMark, hResult]⟩
      rw [← hSame, hLength] at hSpells
      exact Spells.nullaryVariadic hSpells hr

theorem Sound.function (hSub : Sound sub depth) {handle : Spec} (hs : Aligned s)
    (h : (function Spec.factory sub).run s = .ok handle s') : Yields depth '(' s handle s' := by
  obtain ⟨placed, s₁, hSequence, h⟩ := run_bind_eq_ok.mp h
  obtain ⟨hs₁, hRead⟩ := hSub.sequence hs hSequence
  match hReverse : placed.reverse with
  | [] | [_] =>
    rw [hReverse] at h
    exact absurd h (fails_failHere _ _ _ _)
  | last :: next :: more =>
    rw [hReverse] at h
    have hPlaced : placed = (next :: more).reverse ++ [last] := by
      rw [← placed.reverse_reverse, hReverse, List.reverse_cons]
    rw [hPlaced, List.map_append, List.map_singleton] at hRead
    obtain ⟨s₀, hBefore, hLast⟩ := hRead.exists_append
    obtain ⟨r, _, hReturned, h⟩ := run_bind_eq_ok.mp h
    obtain ⟨kept, _, hDrop, h⟩ := run_bind_eq_ok.mp h
    obtain ⟨params, _, hParams, h⟩ := run_bind_eq_ok.mp h
    obtain ⟨_, s₂, hClose, hRequest⟩ := run_bind_eq_ok.mp h
    obtain ⟨rfl, hElement, hr⟩ := returned_eq_ok hReturned
    obtain ⟨hDropped, -⟩ := dropLoneVoid_eq_ok hDrop
    obtain ⟨hChecked, hElements, hValue⟩ := mapM_eq_ok (fun _ _ _ _ => valued_eq_ok) hParams
    obtain ⟨hParen, hSame⟩ := close_eq_ok hClose
    obtain ⟨rfl, hCursor, hSame'⟩ := request_eq_ok (fun _ => rfl) hRequest
    rw [hElement] at hLast
    rw [hChecked, hDropped] at hParen hSame
    exact (readsParams_of_split hBefore (by simp) hDrop hElements).yields hValue hLast.singleton hr
      (by rw [hParen, hCursor]) (by rw [hSame'.store_eq, hSame.store_eq])
      (hSame'.aligned (hSame.aligned hs₁))

theorem Yields.reads {symbol : Symbol} {c : Char} {rest : List Char} {handle : Spec}
    (hRest : s.cursor.rest = c :: rest) (h : Yields depth c (s.afterRead symbol rest) handle s') :
    Aligned s' ∧ Reads (depth + 1) s (.type handle) s' := by
  obtain ⟨hs', text, t, hSpells, hNesting, rfl, hText⟩ := h
  refine ⟨hs', c :: text, t, hSpells, hNesting, rfl, ?_⟩
  rw [hRest, List.cons_append, ← hText]
  rfl

theorem Sound.dispatch (hSub : Sound sub depth) (config : Config) :
    Sound (dispatch Spec.factory config sub) (depth + 1) := by
  intro s answer s' hs h
  have hCases := dispatches Spec.factory config sub s
  generalize (Parse.dispatch Spec.factory config sub).run s = result at hCases h
  cases hCases with
  | nothing =>
    cases h
    exact ⟨hs, rfl⟩
  | unknown => cases h
  | @symbol symbol rest hRest =>
    have hs₁ : Aligned (s.afterRead symbol rest) := hs
    cases symbol with
    | openBrace =>
      obtain ⟨handle, hForm, rfl⟩ := run_map_eq_ok.mp h
      exact (hSub.record hs₁ hForm).reads hRest
    | openBracket =>
      obtain ⟨handle, hForm, rfl⟩ := run_map_eq_ok.mp h
      exact (hSub.array hs₁ hForm).reads hRest
    | less =>
      obtain ⟨handle, hForm, rfl⟩ := run_map_eq_ok.mp h
      exact (hSub.vector hs₁ hForm).reads hRest
    | star =>
      obtain ⟨handle, hForm, rfl⟩ := run_map_eq_ok.mp h
      exact (hSub.pointer hs₁ hForm).reads hRest
    | openParen =>
      obtain ⟨handle, hForm, rfl⟩ := run_map_eq_ok.mp h
      exact (hSub.function hs₁ hForm).reads hRest
    | equals =>
      obtain ⟨handle, hForm, rfl⟩ := run_map_eq_ok.mp h
      exact (hSub.definition hs₁ hForm).reads hRest
    | percent =>
      obtain ⟨handle, hForm, rfl⟩ := run_map_eq_ok.mp h
      exact (reference_yields hs₁ hForm).reads hRest
    | ampersand =>
      cases h
      exact ⟨hs, hRest, rfl⟩
    | scalar letter =>
      obtain ⟨handle, hForm, rfl⟩ := run_map_eq_ok.mp h
      obtain ⟨rfl, hCursor, hSame⟩ := request_eq_ok (fun _ => rfl) hForm
      have hStore : s'.store = s.store := hSame.store_eq
      refine ⟨hSame.aligned hs₁, [(Symbol.scalar letter).char], .scalar letter.scalar, ?_,
        Nat.succ_le_succ (Nat.zero_le _), rfl, ?_⟩
      · rw [hStore]
        exact Spells.scalar letter
      · rw [hRest, hCursor]
        rfl
    | closeBrace | closeBracket | greater | closeParen | cross => cases h

end Forms

theorem sound_element (config : Config) (depth : Nat) :
    Sound (element Spec.factory config depth) depth := by
  induction depth with
  | zero =>
    intro s answer s' _ h
    cases h
  | succ depth ih => exact ih.dispatch config

/-- Whatever is accepted is spelled. -/
theorem exists_spells_of_outcome {config : Config} {spec : String} {handle : Spec}
    (h : (run Spec.factory config spec []).outcome = .ok handle) :
    ∃ t m, Spells 0 spec.toList t m ∧ t.nesting ≤ config.maxDepth := by
  unfold run at h
  split at h
  · next hRun =>
    obtain ⟨_, s, hElement, hEnd⟩ := run_bind_eq_ok.mp hRun
    have hStart : Aligned (start spec []) := rfl
    obtain ⟨-, text, t, hSpells, hNesting, -, hText⟩ :=
      (sound_element config config.maxDepth).elementType hStart hElement
    rw [run_atEnd_bind] at hEnd
    obtain ⟨hClosed, -⟩ := run_ite_eq_ok ((fails_failHere _).bind _) hEnd
    rw [Cursor.atEnd, List.isEmpty_iff] at hClosed
    rw [hClosed, List.append_nil] at hText
    exact ⟨t, _, hText ▸ hSpells, hNesting⟩
  · cases h

end CompactType.Parse
