import CompactType.Proofs.Comparison
import CompactType.Proofs.Lineage

/-!
# Encoding the types that parsing made

In a table that accepted texts only, every type has an encoding. Parsed again, it gives a type of
the same shape, or it is too deep: the encoding of a struct has inside it what the text may have had
beside it. So a limit that let the types in may shut them out.
-/

set_option autoImplicit false

namespace CompactType.TypeTable

open Relation (ReflTransGen TransGen)

/-- Tables got from the initial one by parsing texts under one configuration, all accepted. -/
inductive Accepted (config : Config) : TypeTable → Prop where
  | fresh : Accepted config initial
  | parsed {t : TypeTable} {spec : String} {id : Nat} : Accepted config t →
    (t.parse spec config).outcome = .ok id → Accepted config (t.parse spec config).store

variable {t t' : TypeTable} {config : Config} {root id : Nat}

section Kept

theorem Lawful.reaches_of_kept (h : Lawful t root) (hKept : ∀ a < t.size, t'.kind? a = t.kind? a)
    {a : Nat} (hReach : ReflTransGen t'.Refers root a) : ReflTransGen t.Refers root a := by
  induction hReach with
  | refl => exact .refl
  | tail _ hStep ih =>
    obtain ⟨k, hKind, hPart⟩ := hStep
    obtain ⟨k', hKind', -⟩ := h.obeys ih
    rw [hKept _ (lt_size_of_kind? hKind')] at hKind
    exact ih.tail ⟨k, hKind, hPart⟩

theorem Lawful.below_of_kept (h : Lawful t root) (hKept : ∀ a < t.size, t'.kind? a = t.kind? a)
    {a b : Nat} (hReach : ReflTransGen t.Refers root a) (hBelow : TransGen t'.Inner a b) :
    TransGen t.Inner a b ∧ ReflTransGen t.Refers root b := by
  have hInner {a b : Nat} (hReach : ReflTransGen t.Refers root a) (hInner : t'.Inner a b) :
      t.Inner a b ∧ ReflTransGen t.Refers root b := by
    obtain ⟨k, hKind, hNot, hPart⟩ := hInner
    obtain ⟨k', hKind', -⟩ := h.obeys hReach
    rw [hKept _ (lt_size_of_kind? hKind')] at hKind
    exact ⟨⟨k, hKind, hNot, hPart⟩, hReach.tail ⟨k, hKind, hPart⟩⟩
  induction hBelow with
  | single hStep => exact (hInner hReach hStep).imp_left .single
  | tail _ hStep ih => exact (hInner ih.2 hStep).imp_left ih.1.tail

theorem Lawful.of_kept (h : Lawful t root) (hKept : ∀ a < t.size, t'.kind? a = t.kind? a) :
    Lawful t' root where
  obeys hReach := by
    have hReach' := h.reaches_of_kept hKept hReach
    obtain ⟨k, hKind, hObeys⟩ := h.obeys hReach'
    refine ⟨k, (hKept _ (lt_size_of_kind? hKind)).trans hKind, hObeys.congr fun b hb => ?_⟩
    obtain ⟨k', hKind', -⟩ := h.obeys (hReach'.tail ⟨k, hKind, hb⟩)
    rw [classOf, classOf, hKept b (lt_size_of_kind? hKind')]
  acyclic hReach hCycle := by
    have hReach' := h.reaches_of_kept hKept hReach
    exact h.acyclic hReach' (h.below_of_kept hKept hReach' hCycle).1
  bounded := by
    refine (Set.encard_le_encard ?_).trans h.bounded
    rintro a ⟨hReach, name, body, hKind⟩
    have hReach' := h.reaches_of_kept hKept hReach
    obtain ⟨k, hKind', -⟩ := h.obeys hReach'
    exact ⟨hReach', name, body, (hKept a (lt_size_of_kind? hKind')).symm.trans hKind⟩

end Kept

section Accepted

theorem Accepted.reachable (h : Accepted config t) : t.Reachable := by
  induction h with
  | fresh => exact reachable_initial
  | @parsed t spec id _ _ ih => exact ih.after [.parse spec config]

theorem descending_initial : initial.Descending := by
  have hScalars : ∀ a < 9, ∀ k ∈ initial.kind? a, k.parts = [] := by decide
  intro a k hKind _ b hb
  rw [hScalars a (size_initial ▸ lt_size_of_kind? hKind) k hKind] at hb
  cases hb

theorem Accepted.descending (h : Accepted config t) : t.Descending := by
  induction h with
  | fresh => exact descending_initial
  | @parsed t spec id hAccepted _ ih =>
    obtain ⟨calls, waiting, -, hStore, hConforms, -⟩ :=
      Parse.exists_conforms factory config spec t
    rw [parse, hStore]
    exact (lineage_replay hAccepted.reachable.coherent ih hConforms).descending

/-- The types that come with a parse obey the rules. The named structs among them are those that
the text defines, of which there are no more than numbers. -/
theorem lawful_of_parse (hReachable : t.Reachable) (hDescending : t.Descending) {spec : String}
    (hOk : (t.parse spec config).outcome = .ok id) {a : Nat} (hNew : t.size ≤ a)
    (hLt : a < (t.parse spec config).store.size) : Lawful (t.parse spec config).store a := by
  obtain ⟨s, m, ids, hSpells, -⟩ := hReachable.indexed.holds_of_ok hOk
  obtain ⟨calls, waiting, -, hStore, hConforms, hEnding⟩ :=
    Parse.exists_conforms factory config spec t
  rw [parse] at hOk
  rw [hOk] at hEnding
  cases hEnding with
  | ok hNone hMakes =>
    subst hNone
    have hEffect := effect_replay hConforms
    have hLineage := lineage_replay hReachable.coherent hDescending hConforms
    rw [parse, hStore] at hLt ⊢
    have hClosed : (factory.replay t calls).ClosedUnder (· ∈ Parse.answers calls) := by
      intro a ha
      obtain ⟨k, hKind, hObeys, hParts⟩ := hLineage.closed a ha List.not_mem_nil
      exact ⟨k, hKind, hObeys, fun b hb =>
        ⟨hParts b hb, fun hNot => hLineage.descending a k hKind hNot b hb⟩⟩
    apply hClosed.lawful (l := newStructs t (factory.replay t calls))
      (hLineage.mem_answers a hLt hNew)
    · rintro b hb ⟨name, body, hKind⟩
      refine mem_newStructs.mpr ⟨hLineage.size_le b hb ⟨name, body, hKind⟩,
        lt_size_of_kind? hKind, ?_⟩
      rw [hKind]
      rfl
    · have hLimit := hSpells.le_limit (Nat.zero_le _)
      rwa [hSpells.eq_add_count, Nat.zero_add, ← hEffect.length_newStructs hMakes] at hLimit

theorem Accepted.lawful (h : Accepted config t) (hLt : id < t.size) : Lawful t id := by
  induction h with
  | fresh =>
    have hMem : id ∈ List.range 9 := List.mem_range.mpr (size_initial ▸ hLt)
    exact .of_closed hMem (by decide) (by decide)
  | @parsed t spec root hAccepted hOk ih =>
    by_cases hOld : id < t.size
    · obtain ⟨calls, waiting, -, hStore, hConforms, -⟩ :=
        Parse.exists_conforms factory config spec t
      rw [parse, hStore]
      exact (ih hOld).of_kept (effect_replay hConforms).kept
    · exact lawful_of_parse hAccepted.reachable hAccepted.descending hOk (Nat.le_of_not_lt hOld) hLt

end Accepted

theorem Indexed.parse_of_too_deep (h : t.Indexed) {w : String} {s : Spec} {m : Nat}
    (hSpells : Spells 0 w.toList s m) (hDeep : config.maxDepth < s.nesting) :
    ∃ pos, (t.parse w config).outcome =
      .error ⟨⟨.nestingTooDeep config.maxDepth, pos⟩, w⟩ := by
  let deeper : Config := { config with maxDepth := s.nesting }
  have hNames : Parse.Named config deeper ≤ Eq := by
    rintro _ _ ⟨number, rfl, rfl⟩
    rfl
  obtain ⟨s', m', hSpells', hNesting⟩ | ⟨diagnostic, hTrees, hError⟩ := h.spells_or_error w config
  · obtain ⟨rfl, -⟩ := spells_unique hSpells hSpells'
    omega
  · obtain ⟨-, hSame⟩ | ⟨-, ⟨d, pos, w', hCut⟩, -⟩ :=
      Parse.same_or_cut (.refl hNames Spec.factory []) hDeep.le w
    · have hOk := (Parse.run_drafts_of_spells hSpells (Nat.le_refl deeper.maxDepth)).1
      cases hTrees.symm.trans (hSame.symm.trans hOk)
    · obtain rfl : d = config.maxDepth := ((Parse.bounded_of_error hCut).too_deep d rfl).1
      obtain rfl : w' = w := Parse.spec_eq_of_error hCut
      obtain rfl := Except.error.inj (hTrees.symm.trans hCut)
      exact ⟨pos, hError⟩

/-- The type can be rebuilt from its encoding if the limit is not below the depth given, which is
that of the encoding. Otherwise the encoding is refused for its depth. -/
def RebuildsWithin (t : TypeTable) (root depth : Nat) : Prop :=
  ∃ w s, RebuiltFrom t root w s ∧ s.nesting = depth ∧
    ∀ d config, Reachable d → config.maxDepth < depth →
      ∃ pos, (d.parse w config).outcome = .error ⟨⟨.nestingTooDeep config.maxDepth, pos⟩, w⟩

/-- All types of a table that accepted texts only can be encoded. What is encoded can be parsed
again under any limit that its own depth does not exceed, be it that of the texts or another. -/
theorem Accepted.rebuildsWithin (h : Accepted config t) (hLt : id < t.size) :
    ∃ depth, RebuildsWithin t id depth := by
  obtain ⟨w, s, hRebuilt⟩ := (h.lawful hLt).exists_rebuiltFrom
  obtain ⟨m, hSpells⟩ := hRebuilt.exists_spells
  exact ⟨s.nesting, w, s, hRebuilt, rfl, fun d config' hReachable =>
    hReachable.indexed.parse_of_too_deep hSpells⟩

/-- A record of three structs side by side, of which the second and the third have the one before
as their field. -/
def sideBySide : TypeTable :=
  (initial.parse "\x7b=0\x7bi\x7d=1\x7b%0\x7d=2\x7b%1\x7d\x7d" { maxDepth := 3 }).store

theorem accepted_sideBySide : Accepted { maxDepth := 3 } sideBySide := by
  have hOk : (initial.parse "\x7b=0\x7bi\x7d=1\x7b%0\x7d=2\x7b%1\x7d\x7d"
      { maxDepth := 3 }).outcome = .ok 12 := by
    decide +kernel
  exact .parsed .fresh hOk

theorem rebuildsWithin_last :
    Accepted { maxDepth := 3 } sideBySide ∧ 11 < sideBySide.size ∧
      ∃ depth, RebuildsWithin sideBySide 11 depth := by
  have hLt : 11 < sideBySide.size := by decide +kernel
  exact ⟨accepted_sideBySide, hLt, accepted_sideBySide.rebuildsWithin hLt⟩

/-- The encoding of the last struct has the others inside, which is too deep for the limit under
which all three were accepted. -/
theorem not_reparsed_last :
    Accepted { maxDepth := 3 } sideBySide ∧ 11 < sideBySide.size ∧
      sideBySide.encode 11 = .ok "=0\x7b=1\x7b=2\x7bi\x7d\x7d\x7d" ∧
      (sideBySide.parse "=0\x7b=1\x7b=2\x7bi\x7d\x7d\x7d" { maxDepth := 3 }).outcome =
        .error ⟨⟨.nestingTooDeep 3, 9⟩, "=0\x7b=1\x7b=2\x7bi\x7d\x7d\x7d"⟩ :=
  ⟨accepted_sideBySide, by decide +kernel, by decide +kernel, by decide +kernel⟩

end CompactType.TypeTable
