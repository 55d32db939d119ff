import CompactType.Proofs.Completeness
import CompactType.Proofs.Mirror
import CompactType.Proofs.Soundness
import CompactType.TypeTable.History

/-!
# What a parse leaves in a table

A text is accepted into a table exactly if it spells a tree that is not nested too deeply. The type
returned then stands for that tree, and the structs that the tree defines are named by number.
-/

set_option autoImplicit false

namespace CompactType.TypeTable

/-- The type with the given id stands for the tree, whose structs have the ids in the list. They
are all different and named by their numbers. -/
structure Holds (t : TypeTable) (config : Config) (ids : List Nat) (id : Nat) (s : Spec) :
    Prop where
  nodup : ids.Nodup
  named : t.NamedBy ids config.structName
  denotes : Denotes t ids id s

theorem Indexed.parse_of_spells {t : TypeTable} (h : t.Indexed) {spec : String} {config : Config}
    {s : Spec} {m : Nat} (hSpells : Spells 0 spec.toList s m)
    (hNesting : s.nesting ≤ config.maxDepth) :
    ∃ id ids, (t.parse spec config).outcome = .ok id ∧ ids.length = m ∧
      Holds (t.parse spec config).store config ids id s := by
  obtain ⟨hOutcome, hStore⟩ := Parse.run_drafts_of_spells hSpells hNesting
  cases parse_matches h spec config with
  | error _ hRight => cases hOutcome.symm.trans hRight
  | @ok _ id handle hLeft hRight _ hKnown hRel =>
    obtain rfl : handle = s.outline := Except.ok.inj (hRight.symm.trans hOutcome)
    obtain ⟨ids, rfl, hMirrors⟩ := hRel
    rw [hStore] at hMirrors
    have hLength : ids.length = m := by
      rw [hMirrors.length_eq, ← hSpells.length_drafts config, Nat.zero_add]
    refine ⟨id, ids, hLeft, hLength, hMirrors.nodup, ?_, ?_⟩
    · intro n i hi
      have hn : n < (s.drafts config).length :=
        hMirrors.length_eq ▸ (List.getElem?_eq_some_iff.mp hi).1
      obtain ⟨i', body, hi', hKind, -⟩ := hMirrors.drafted (List.getElem?_eq_getElem hn)
      obtain ⟨fields, hDraft⟩ := hSpells.named_drafts config n _ (List.getElem?_eq_getElem hn)
      rw [hDraft, Nat.zero_add] at hKind
      cases hi.symm.trans hi'
      exact ⟨body, hKind⟩
    · apply hKnown.of_outline config hSpells.arranged
      intro n d hd
      obtain ⟨i, body, hi, hKind, hBody⟩ := hMirrors.drafted hd
      obtain ⟨fields, rfl⟩ := hSpells.named_drafts config n d hd
      cases hBody with
      | some hAll => exact ⟨i, _, _, fields, (Nat.zero_add n).symm ▸ hi, hKind, rfl, hAll⟩

/-- Either the text spells a tree, or the parse fails with a fault that is the same for all
tables. -/
theorem Indexed.spells_or_error {t : TypeTable} (h : t.Indexed) (spec : String)
    (config : Config) :
    (∃ s m, Spells 0 spec.toList s m ∧ s.nesting ≤ config.maxDepth) ∨
    ∃ diagnostic, (Parse.run Spec.factory config spec []).outcome = .error diagnostic ∧
      (t.parse spec config).outcome = .error diagnostic := by
  cases parse_matches h spec config with
  | error hLeft hRight => exact .inr ⟨_, hRight, hLeft⟩
  | ok _ hRight => exact .inl (Parse.exists_spells_of_outcome hRight)

theorem Indexed.apply {t : TypeTable} (h : t.Indexed) (operation : Operation) :
    (operation.apply t).Indexed := by
  cases operation with
  | intern k => exact h.intern k
  | make request => exact h.make request
  | complete id fields => exact h.setBody id fields
  | parse spec config => exact h.parse spec config

theorem Indexed.after {t : TypeTable} (h : t.Indexed) (operations : List Operation) :
    (t.after operations).Indexed := by
  induction operations generalizing t with
  | nil => exact h
  | cons operation rest ih => exact ih (h.apply operation)

theorem Reachable.indexed {t : TypeTable} (h : Reachable t) : t.Indexed := by
  obtain ⟨operations, rfl⟩ := h
  exact indexed_initial.after operations

end CompactType.TypeTable
