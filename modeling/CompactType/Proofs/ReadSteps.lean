import CompactType.Proofs.Drafts
import CompactType.Proofs.Leads

/-!
# What single steps read

A state is aligned if the structs defined so far are those with the first numbers. The steps of the
parser that builds trees keep it so, and what they take from the text is told by their answers.
-/

set_option autoImplicit false

namespace CompactType.Parse

/-- The structs defined so far are those with the first numbers. -/
def Aligned (s : State (List Draft) Spec) : Prop := s.opened = references s.store.length

/-- From the first state to the second one a type is read, of which the handle is the outline. -/
def ReadsType (depth : Nat) (s : State (List Draft) Spec) (handle : Spec)
    (s' : State (List Draft) Spec) : Prop :=
  ∃ text t, Spells s.store.length text t s'.store.length ∧ t.nesting ≤ depth ∧
    handle = t.outline ∧ s.cursor.rest = text ++ s'.cursor.rest

def Reads (depth : Nat) (s : State (List Draft) Spec) :
    Element Spec → State (List Draft) Spec → Prop
  | .type handle, s' => ReadsType depth s handle s'
  | .vararg, s' => s.cursor.rest = '&' :: s'.cursor.rest ∧ s.store.length = s'.store.length

inductive ReadsAll (depth : Nat) : State (List Draft) Spec → List (Element Spec) →
    State (List Draft) Spec → Prop where
  | nil (s : State (List Draft) Spec) : ReadsAll depth s [] s
  | cons {s s₁ s₂ : State (List Draft) Spec} {e : Element Spec} {rest : List (Element Spec)} :
    Reads depth s e s₁ → ReadsAll depth s₁ rest s₂ → ReadsAll depth s (e :: rest) s₂

/-- Whatever the element parser answers is read. -/
def Sound (sub : ElementParser (List Draft) Spec) (depth : Nat) : Prop :=
  ∀ s answer s', Aligned s → sub.run s = .ok answer s' →
    Aligned s' ∧ match answer with
      | none => s' = s
      | some e => Reads depth s e s'

namespace ReadsAll

variable {depth : Nat} {s s' : State (List Draft) Spec}

theorem exists_append {first second : List (Element Spec)}
    (h : ReadsAll depth s (first ++ second) s') :
    ∃ s₁, ReadsAll depth s first s₁ ∧ ReadsAll depth s₁ second s' := by
  induction first generalizing s with
  | nil => exact ⟨s, nil s, h⟩
  | cons e first ih =>
    cases h with
    | cons hHead hTail =>
      obtain ⟨s₁, hFirst, hSecond⟩ := ih hTail
      exact ⟨s₁, cons hHead hFirst, hSecond⟩

theorem exists_spellsAll {handles : List Spec}
    (h : ReadsAll depth s (handles.map Element.type) s') :
    ∃ text specs, SpellsAll s.store.length text specs s'.store.length ∧
      Spec.nestings specs ≤ depth ∧ handles = Spec.outlines specs ∧
      s.cursor.rest = text ++ s'.cursor.rest := by
  induction handles generalizing s with
  | nil =>
    cases h
    exact ⟨[], [], SpellsAll.nil, Nat.zero_le _, rfl, rfl⟩
  | cons handle handles ih =>
    cases h with
    | cons hHead hTail =>
      obtain ⟨text, specs, hSpells, hDepth, rfl, hRest⟩ := ih hTail
      obtain ⟨head, t, hFirst, hNesting, rfl, hHead⟩ := hHead
      exact ⟨head ++ text, t :: specs, SpellsAll.cons hFirst hSpells,
        Nat.max_le.mpr ⟨hNesting, hDepth⟩, rfl, by rw [hHead, hRest, List.append_assoc]⟩

theorem singleton {e : Element Spec} (h : ReadsAll depth s [e] s') : Reads depth s e s' := by
  cases h with
  | cons hHead hTail =>
    cases hTail
    exact hHead

end ReadsAll

section Steps

variable {sub : ElementParser (List Draft) Spec} {depth : Nat} {s s' : State (List Draft) Spec}

theorem Sound.sequenceWithin (hSub : Sound sub depth) {closing : Char} {bound : Nat}
    {placed : List (Placed Spec)} (hs : Aligned s)
    (h : (sequenceWithin sub closing bound).run s = .ok placed s') :
    Aligned s' ∧ ReadsAll depth s (placed.map Placed.element) s' := by
  induction bound generalizing s placed with
  | zero =>
    cases h
    exact ⟨hs, ReadsAll.nil _⟩
  | succ bound ih =>
    rw [CompactType.Parse.sequenceWithin, run_looksAt_bind] at h
    split at h
    · cases h
      exact ⟨hs, ReadsAll.nil _⟩
    · rw [run_here_bind] at h
      obtain ⟨answer, s₁, hHead, h⟩ := run_bind_eq_ok.mp h
      obtain ⟨hs₁, hRead⟩ := hSub s answer s₁ hs hHead
      cases answer with
      | none =>
        cases h
        obtain rfl : s' = s := hRead
        exact ⟨hs, ReadsAll.nil _⟩
      | some e =>
        obtain ⟨rest, hTail, rfl⟩ := run_map_eq_ok.mp h
        obtain ⟨hs', hRest⟩ := ih hs₁ hTail
        exact ⟨hs', ReadsAll.cons hRead hRest⟩

theorem Sound.sequence (hSub : Sound sub depth) {closing : Char} {placed : List (Placed Spec)}
    (hs : Aligned s) (h : (sequence sub closing).run s = .ok placed s') :
    Aligned s' ∧ ReadsAll depth s (placed.map Placed.element) s' := by
  rw [CompactType.Parse.sequence, run_remaining_bind] at h
  exact hSub.sequenceWithin hs h

theorem Sound.elementType (hSub : Sound sub depth) {missing : Cause} {handle : Spec}
    (hs : Aligned s) (h : (elementType sub missing).run s = .ok handle s') :
    Aligned s' ∧ ReadsType depth s handle s' := by
  rw [CompactType.Parse.elementType, run_here_bind] at h
  obtain ⟨answer, s₁, hRun, h⟩ := run_bind_eq_ok.mp h
  obtain ⟨hs₁, hRead⟩ := hSub s answer s₁ hs hRun
  match answer with
  | some (.type _) =>
    cases h
    exact ⟨hs₁, hRead⟩
  | some .vararg => cases h
  | none => cases h

/-- Between the two states nothing is defined. -/
structure SameDrafts (s s' : State (List Draft) Spec) : Prop where
  store_eq : s'.store = s.store
  opened_eq : s'.opened = s.opened

theorem SameDrafts.aligned (h : SameDrafts s s') (hs : Aligned s) : Aligned s' := by
  rw [Aligned, h.store_eq, h.opened_eq]
  exact hs

theorem eat_eq_ok {c : Char} (h : (eat c).run s = .ok true s') :
    s.cursor.rest = c :: s'.cursor.rest ∧ SameDrafts s s' := by
  obtain ⟨⟨pos, rest⟩, opened, store, journal⟩ := s
  rw [run_eat] at h
  cases rest with
  | nil => simp [Cursor.eat, Cursor.looksAt, Cursor.peek?] at h
  | cons d rest =>
    by_cases hc : d = c
    · subst hc
      simp only [Cursor.eat, Cursor.looksAt, Cursor.peek?, Cursor.advance, List.head?_cons,
        BEq.rfl, if_true] at h
      cases h
      exact ⟨rfl, rfl, rfl⟩
    · simp [Cursor.eat, Cursor.looksAt, Cursor.peek?, hc] at h

theorem close_eq_ok {c : Char} (h : (close c : Parser (List Draft) Spec Unit).run s = .ok () s') :
    s.cursor.rest = c :: s'.cursor.rest ∧ SameDrafts s s' := by
  obtain ⟨found, s₁, hEat, h⟩ := run_bind_eq_ok.mp h
  obtain ⟨rfl, h⟩ := run_ite_eq_ok (fails_failHere _) h
  cases h
  exact eat_eq_ok hEat

theorem number_eq_ok {limit value : Nat} {cause : Cause}
    (h : (number limit cause).run s = .ok value s') :
    ∃ run, Numeral run value ∧ value < limit ∧ s.cursor.rest = run ++ s'.cursor.rest ∧
      SameDrafts s s' := by
  rw [run_number] at h
  simp only at h
  split at h
  · cases h
  · next hRun =>
    rw [not_or, Nat.not_le] at hRun
    cases h
    refine ⟨_, ⟨hRun.1, ?_, rfl⟩, hRun.2, ?_, rfl, rfl⟩
    · intro c hc
      exact List.all_eq_true.mp List.all_takeWhile c hc
    · exact List.takeWhile_append_dropWhile.symm

theorem request_eq_ok {r : Request Spec} {handle : Spec}
    (hr : ∀ drafts, (Spec.make r drafts).2 = drafts)
    (h : (request Spec.factory r).run s = .ok handle s') :
    handle = (Spec.make r s.store).1 ∧ s'.cursor = s.cursor ∧ SameDrafts s s' := by
  rw [run_request] at h
  cases h
  exact ⟨rfl, rfl, hr s.store, rfl⟩

theorem mapM_eq_ok {check : Placed Spec → Parser (List Draft) Spec Spec}
    (hCheck : ∀ p handle s s', (check p).run s = .ok handle s' →
      s' = s ∧ p.element = .type handle ∧ handle.typeClass.isValue = true)
    {placed : List (Placed Spec)} {handles : List Spec}
    (h : (placed.mapM check).run s = .ok handles s') :
    s' = s ∧ placed.map Placed.element = handles.map Element.type ∧
      ∀ t ∈ handles, t.typeClass.isValue = true := by
  induction placed generalizing handles with
  | nil =>
    cases h
    exact ⟨rfl, rfl, by simp⟩
  | cons p placed ih =>
    rw [List.mapM_cons] at h
    obtain ⟨handle, s₁, hHead, hRest⟩ := run_bind_eq_ok.mp h
    obtain ⟨rfl, hElement, hValue⟩ := hCheck p handle _ _ hHead
    obtain ⟨rest, hTail, rfl⟩ := run_map_eq_ok.mp hRest
    obtain ⟨rfl, hElements, hValues⟩ := ih hTail
    exact ⟨rfl, by simp [hElement, hElements], by simpa using ⟨hValue, hValues⟩⟩

theorem valued_eq_ok {onMarker onType : Cause} {p : Placed Spec} {handle : Spec}
    (h : (valued Spec.factory onMarker onType p).run s = .ok handle s') :
    s' = s ∧ p.element = .type handle ∧ handle.typeClass.isValue = true := by
  match p with
  | ⟨.vararg, _⟩ => cases h
  | ⟨.type t, _⟩ =>
    rw [valued, run_classOf_bind] at h
    obtain ⟨hValue, h⟩ := run_ite_eq_ok ((fails_fail _ _).bind _) h
    cases h
    exact ⟨rfl, rfl, hValue⟩

theorem returned_eq_ok {p : Placed Spec} {handle : Spec}
    (h : (returned Spec.factory p).run s = .ok handle s') :
    s' = s ∧ p.element = .type handle ∧ handle.typeClass ≠ .function := by
  match p with
  | ⟨.vararg, _⟩ => cases h
  | ⟨.type t, _⟩ =>
    rw [returned, run_classOf_bind] at h
    obtain ⟨hFunction, h⟩ := run_ite_not_eq_ok ((fails_fail _ _).bind _) h
    cases h
    exact ⟨rfl, rfl, hFunction⟩

theorem dropLoneVoid_eq_ok {placed kept : List (Placed Spec)}
    (h : (dropLoneVoid Spec.factory placed).run s = .ok kept s') :
    s' = s ∧ (kept = placed ∨ kept = [] ∧ ∃ handle, placed.map Placed.element = [.type handle] ∧
      handle.typeClass = .void) := by
  match placed with
  | [] =>
    cases h
    exact ⟨rfl, .inl rfl⟩
  | ⟨.vararg, _⟩ :: _ =>
    cases h
    exact ⟨rfl, .inl rfl⟩
  | ⟨.type t, _⟩ :: rest =>
    simp only [dropLoneVoid, run_classOf_bind] at h
    split at h
    · cases h
      exact ⟨rfl, .inl rfl⟩
    · next hVoid =>
      obtain ⟨hRest, h⟩ := run_ite_eq_ok ((fails_fail _ _).bind _) h
      cases h
      obtain rfl : rest = [] := List.isEmpty_iff.mp hRest
      exact ⟨rfl, .inr ⟨rfl, t, rfl, Decidable.not_not.mp hVoid⟩⟩

end Steps

theorem mem_splitVararg {H : Type} {placed : List (Placed H)} {p : Placed H}
    (h : p ∈ (splitVararg placed).2) : p ∈ placed := by
  unfold splitVararg at h
  split at h
  · exact List.mem_cons_of_mem _ h
  · exact h

end CompactType.Parse
