import CompactType.Proofs.Layers

/-!
# Types with a printed form

A type can be printed if the types inside it, down to named structs, are all in the table and none
of them contains itself. Its printed form stays the same while the table grows.
-/

set_option autoImplicit false

namespace CompactType.TypeTable

open Relation (ReflTransGen TransGen)

/-- The types that are met while the type is printed are in the table, and none is inside itself. -/
def Printable (t : TypeTable) (id : Nat) : Prop :=
  ∀ a, ReflTransGen t.Inner id a → a < t.size ∧ ¬TransGen t.Inner a a

section TextOf

variable {text text' : Nat → Except Refusal String}

theorem mapM_eq_ok_iff {ids : List Nat} {parts : List String} :
    ids.mapM text = .ok parts ↔ List.Forall₂ (fun b s => text b = .ok s) ids parts := by
  induction ids generalizing parts with
  | nil => simp [pure, Except.pure, eq_comm]
  | cons b ids ih =>
    rw [List.mapM_cons, List.forall₂_cons_left_iff]
    constructor
    · intro h
      cases hHead : text b with
      | error refusal =>
        rw [hHead] at h
        cases h
      | ok s =>
        cases hTail : ids.mapM text with
        | error refusal =>
          rw [hHead, hTail] at h
          cases h
        | ok rest =>
          rw [hHead, hTail] at h
          cases h
          exact ⟨s, rest, rfl, ih.mp hTail, rfl⟩
    · rintro ⟨s, rest, hHead, hTail, rfl⟩
      rw [hHead, ih.mpr hTail]
      rfl

theorem exists_mapM_eq_ok {ids : List Nat} (h : ∀ b ∈ ids, ∃ s, text b = .ok s) :
    ∃ parts, ids.mapM text = .ok parts := by
  induction ids with
  | nil => exact ⟨[], rfl⟩
  | cons b ids ih =>
    obtain ⟨s, hHead⟩ := h b List.mem_cons_self
    obtain ⟨rest, hTail⟩ := ih fun c hc => h c (List.mem_cons_of_mem b hc)
    exact ⟨s :: rest, mapM_eq_ok_iff.mpr (.cons hHead (mapM_eq_ok_iff.mp hTail))⟩

theorem exists_of_mapM {ids : List Nat} {parts : List String} (h : ids.mapM text = .ok parts) :
    ∀ b ∈ ids, ∃ s, text b = .ok s := by
  have hAll := mapM_eq_ok_iff.mp h
  clear h
  induction hAll with
  | nil => simp
  | cons hHead _ ih => simpa [hHead] using ih

theorem mapM_mono {ids : List Nat} {parts : List String} (hText : ∀ b s, text b = .ok s →
    text' b = .ok s) (h : ids.mapM text = .ok parts) : ids.mapM text' = .ok parts :=
  mapM_eq_ok_iff.mpr ((mapM_eq_ok_iff.mp h).imp hText)

theorem exists_textOf {k : Kind} (h : k.isNamed = false → ∀ b ∈ k.parts, ∃ s, text b = .ok s) :
    ∃ s, textOf text k = .ok s := by
  cases k with
  | scalar k => exact ⟨_, rfl⟩
  | pointer e | array e _ | vector e _ =>
    obtain ⟨s, hs⟩ := h rfl e (by simp [Kind.parts])
    simp [textOf, hs, pure, Except.pure, bind, Except.bind]
  | struct name fields =>
    cases name with
    | some name => exact ⟨_, rfl⟩
    | none =>
      obtain ⟨parts, hParts⟩ := exists_mapM_eq_ok (h rfl)
      rw [Kind.parts] at hParts
      simp [textOf, hParts, pure, Except.pure, bind, Except.bind]
  | function params ret variadic =>
    obtain ⟨parts, hParts⟩ :=
      exists_mapM_eq_ok fun b hb => h rfl b (List.mem_append_left [ret] hb)
    obtain ⟨s, hs⟩ := h rfl ret (by simp [Kind.parts])
    simp [textOf, hParts, hs, pure, Except.pure, bind, Except.bind]

theorem exists_of_textOf {k : Kind} {s : String} (h : textOf text k = .ok s)
    (hNot : k.isNamed = false) : ∀ b ∈ k.parts, ∃ s, text b = .ok s := by
  cases k with
  | scalar k => simp [Kind.parts]
  | pointer e | array e _ | vector e _ =>
    cases he : text e with
    | ok s => simp [Kind.parts, he]
    | error refusal =>
      rw [textOf, he] at h
      cases h
  | struct name fields =>
    cases name with
    | some name => cases hNot
    | none =>
      cases hParts : (fields.getD []).mapM text with
      | ok parts => exact exists_of_mapM hParts
      | error refusal =>
        rw [textOf, hParts] at h
        cases h
  | function params ret variadic =>
    cases hParts : params.mapM text with
    | error refusal =>
      rw [textOf, hParts] at h
      cases h
    | ok parts =>
      cases hRet : text ret with
      | error refusal =>
        rw [textOf, hParts, hRet] at h
        cases h
      | ok s =>
        intro b hb
        obtain hb | hb := List.mem_append.mp hb
        · exact exists_of_mapM hParts b hb
        · exact ⟨s, List.mem_singleton.mp hb ▸ hRet⟩

theorem textOf_mono {k : Kind} {s : String} (hText : ∀ b s, text b = .ok s → text' b = .ok s)
    (h : textOf text k = .ok s) : textOf text' k = .ok s := by
  by_cases hNamed : k.isNamed = true
  · cases k with
    | struct name fields =>
      cases name with
      | some name => exact h
      | none => cases hNamed
    | _ => cases hNamed
  · have hParts := exists_of_textOf h (by simpa using hNamed)
    cases k with
    | scalar k => exact h
    | pointer e | array e _ | vector e _ =>
      obtain ⟨part, he⟩ := hParts e (by simp [Kind.parts])
      rw [textOf, he] at h
      rw [textOf, hText e part he]
      exact h
    | struct name fields =>
      cases name with
      | some name => cases hNamed rfl
      | none =>
        obtain ⟨parts, hAll⟩ := exists_mapM_eq_ok hParts
        rw [Kind.parts] at hAll
        rw [textOf, hAll] at h
        rw [textOf, mapM_mono hText hAll]
        exact h
    | function params ret variadic =>
      obtain ⟨parts, hAll⟩ :=
        exists_mapM_eq_ok fun b hb => hParts b (List.mem_append_left [ret] hb)
      obtain ⟨part, hRet⟩ := hParts ret (by simp [Kind.parts])
      rw [textOf, hAll, hRet] at h
      rw [textOf, mapM_mono hText hAll, hText ret part hRet]
      exact h

theorem exists_of_mapM_eq_error {ids : List Nat} {refusal : Refusal}
    (h : ids.mapM text = .error refusal) : ∃ b ∈ ids, text b = .error refusal := by
  induction ids with
  | nil => cases h
  | cons b ids ih =>
    rw [List.mapM_cons] at h
    cases hHead : text b with
    | error refusal' =>
      rw [hHead] at h
      cases h
      exact ⟨b, List.mem_cons_self, hHead⟩
    | ok s =>
      cases hTail : ids.mapM text with
      | error refusal' =>
        rw [hHead, hTail] at h
        cases h
        obtain ⟨c, hc, hText⟩ := ih hTail
        exact ⟨c, List.mem_cons_of_mem b hc, hText⟩
      | ok rest =>
        rw [hHead, hTail] at h
        cases h

theorem exists_of_textOf_eq_error {k : Kind} {refusal : Refusal}
    (h : textOf text k = .error refusal) : ∃ b, text b = .error refusal := by
  cases k with
  | scalar k => cases h
  | pointer e | array e _ | vector e _ =>
    cases he : text e with
    | ok s =>
      rw [textOf, he] at h
      cases h
    | error refusal' =>
      rw [textOf, he] at h
      cases h
      exact ⟨e, he⟩
  | struct name fields =>
    cases name with
    | some name => cases h
    | none =>
      cases hParts : (fields.getD []).mapM text with
      | ok parts =>
        rw [textOf, hParts] at h
        cases h
      | error refusal' =>
        rw [textOf, hParts] at h
        cases h
        obtain ⟨b, -, hb⟩ := exists_of_mapM_eq_error hParts
        exact ⟨b, hb⟩
  | function params ret variadic =>
    cases hParts : params.mapM text with
    | error refusal' =>
      rw [textOf, hParts] at h
      cases h
      obtain ⟨b, -, hb⟩ := exists_of_mapM_eq_error hParts
      exact ⟨b, hb⟩
    | ok parts =>
      cases hRet : text ret with
      | ok s =>
        rw [textOf, hParts, hRet] at h
        cases h
      | error refusal' =>
        rw [textOf, hParts, hRet] at h
        cases h
        exact ⟨ret, hRet⟩

end TextOf

variable {t t' : TypeTable} {id n : Nat} {label : String}

theorem textWithin_eq_ok (h : t.textWithin n id = .ok label) :
    ∃ k layers, n = layers + 1 ∧ t.kind? id = some k ∧
      textOf (t.textWithin layers) k = .ok label := by
  cases n with
  | zero => cases h
  | succ layers =>
    cases hKind : t.kind? id with
    | none =>
      simp only [TypeTable.textWithin, kind, hKind] at h
      cases h
    | some k => exact ⟨k, layers, rfl, rfl, textWithin_succ hKind ▸ h⟩

theorem exists_textWithin_of_inner {a b : Nat} (h : t.textWithin n a = .ok label)
    (hInner : t.Inner a b) : ∃ m < n, ∃ label', t.textWithin m b = .ok label' := by
  obtain ⟨k, layers, rfl, hKind, hText⟩ := textWithin_eq_ok h
  obtain ⟨k', hKind', hNot, hPart⟩ := hInner
  obtain rfl := Option.some.inj (hKind.symm.trans hKind')
  exact ⟨layers, Nat.lt_succ_self layers, exists_of_textOf hText hNot b hPart⟩

theorem exists_textWithin_of_transGen {a b : Nat} (h : t.textWithin n a = .ok label)
    (hBelow : TransGen t.Inner a b) : ∃ m < n, ∃ label', t.textWithin m b = .ok label' := by
  induction hBelow with
  | single hInner => exact exists_textWithin_of_inner h hInner
  | tail _ hInner ih =>
    obtain ⟨m, hm, _, hText⟩ := ih
    obtain ⟨m', hm', hText'⟩ := exists_textWithin_of_inner hText hInner
    exact ⟨m', hm'.trans hm, hText'⟩

theorem not_inside_of_textWithin (h : t.textWithin n id = .ok label) :
    ¬TransGen t.Inner id id := by
  intro hCycle
  induction n using Nat.strong_induction_on generalizing label with
  | _ n ih =>
    obtain ⟨m, hm, _, hText⟩ := exists_textWithin_of_transGen h hCycle
    exact ih m hm hText

theorem printable_of_text (h : t.text id = .ok label) : t.Printable id := by
  intro a hReach
  have hText : ∃ n label', t.textWithin n a = .ok label' := by
    obtain rfl | hBelow := Relation.reflTransGen_iff_eq_or_transGen.mp hReach
    · exact ⟨_, label, h⟩
    · obtain ⟨m, -, hText⟩ := exists_textWithin_of_transGen h hBelow
      exact ⟨m, hText⟩
  obtain ⟨n, label', hText⟩ := hText
  obtain ⟨k, -, -, hKind, -⟩ := textWithin_eq_ok hText
  exact ⟨lt_size_of_kind? hKind, not_inside_of_textWithin hText⟩

theorem Printable.exists_textWithin (h : t.Printable id) (hLayers : t.rank id < n) :
    ∃ label, t.textWithin n id = .ok label := by
  induction n generalizing id with
  | zero => omega
  | succ n ih =>
    obtain ⟨k, hKind⟩ := exists_kind?_of_lt (h id .refl).1
    rw [textWithin_succ hKind]
    apply exists_textOf
    intro hNot b hb
    have hInner : t.Inner id b := ⟨k, hKind, hNot, hb⟩
    obtain ⟨hLt, hAcyclic⟩ := h b (.single hInner)
    have hRank := rank_lt_of_inner hInner hLt hAcyclic
    exact ih (fun a hReach => h a (.head hInner hReach)) (by omega)

theorem exists_text_iff : (∃ label, t.text id = .ok label) ↔ t.Printable id := by
  constructor
  · rintro ⟨label, h⟩
    exact printable_of_text h
  · intro h
    have hRank := t.rank_le_size id
    exact h.exists_textWithin (by omega)

theorem textWithin_eq_error {refusal : Refusal} (h : t.textWithin n id = .error refusal) :
    refusal = .endless ∨ ∃ missing, refusal = .unknownId missing := by
  induction n generalizing id with
  | zero =>
    cases h
    exact .inl rfl
  | succ n ih =>
    cases hKind : t.kind? id with
    | none =>
      simp only [TypeTable.textWithin, kind, hKind] at h
      cases h
      exact .inr ⟨id, rfl⟩
    | some k =>
      rw [textWithin_succ hKind] at h
      obtain ⟨b, hb⟩ := exists_of_textOf_eq_error h
      exact ih hb

theorem Grows.textWithin (h : Grows t t') {m : Nat} (hLe : n ≤ m)
    (hText : t.textWithin n id = .ok label) : t'.textWithin m id = .ok label := by
  induction n generalizing id m label with
  | zero => cases hText
  | succ n ih =>
    obtain ⟨m, rfl⟩ := Nat.exists_eq_succ_of_ne_zero (n := m) (by omega)
    obtain ⟨k, _, hLayers, hKind, hText⟩ := textWithin_eq_ok hText
    cases hLayers
    obtain hSame | ⟨name, fields, rfl, hSet⟩ := h id k hKind
    · rw [textWithin_succ hSame]
      exact textOf_mono (fun b s => ih (by omega)) hText
    · rw [textWithin_succ hSet]
      exact hText

/-- What could be printed once is printed the same ever after. -/
theorem Grows.text (h : Grows t t') (hSize : t.size ≤ t'.size) (hText : t.text id = .ok label) :
    t'.text id = .ok label :=
  h.textWithin (Nat.succ_le_succ hSize) hText

end CompactType.TypeTable
