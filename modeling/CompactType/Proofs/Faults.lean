import CompactType.Proofs.BlamedForms
import CompactType.Proofs.Comparison
import CompactType.Proofs.Parsed

/-!
# Faults of a parse

A parse that fails points between two characters of its text, behind symbols and digits only, so
that the caret stands as many columns in as bytes were read. What the text shows there is the cause.
-/

set_option autoImplicit false

namespace CompactType

theorem columnAt_length {before : List Char} (h : ∀ c ∈ before, c.utf8Size = 1)
    (after : List Char) : columnAt (before ++ after) before.length = before.length := by
  induction before with
  | nil => exact columnAt_zero after
  | cons c before ih =>
    rw [List.forall_mem_cons] at h
    rw [List.cons_append, columnAt, List.length_cons, if_neg (Nat.succ_ne_zero _), h.1,
      Nat.add_sub_cancel, ih h.2]

namespace Parse

variable {config : Config} {spec : String} {diagnostic : Diagnostic}

theorem situated_start (spec : String) : Situated spec.toList [] (start spec []) where
  text_eq := rfl
  pos_eq := rfl
  lexical := List.forall_mem_nil _
  aligned := rfl
  length_eq := rfl

theorem located_of_firstType {handle : Spec} {s : State (List Draft) Spec}
    (h : (firstType Spec.factory config).run (start spec []) = .ok handle s) :
    ∃ before t m, Spells 0 before t m ∧ Located spec.toList before s := by
  have hSub := blaming_element config config.maxDepth
  obtain ⟨-, before, t, hSpells, -, -, hRest⟩ :=
    hSub.sound.elementType (situated_start spec).aligned h
  have hForward : Forward config.maxDepth 0 0 (firstType Spec.factory config) fun _ _ => True :=
    hSub.forward.elementType (Nat.zero_le _) (by trivial) Spec.factory config
  exact ⟨before, t, _, hSpells,
    (situated_start spec).read hRest (hForward.length_eq rfl h) hSpells.lexical⟩

theorem blames_of_error (h : (run Spec.factory config spec []).outcome = .error diagnostic) :
    Blames config spec.toList diagnostic.toFault := by
  cases hRun : (firstType Spec.factory config).run (start spec []) with
  | error fault s =>
    cases (outcome_of_error hRun).symm.trans h
    have hMissing : Evident config [] [] .emptySpec := ⟨rfl, rfl⟩
    exact (blaming_element config config.maxDepth).elementType (situated_start spec) hMissing hRun
  | ok handle s =>
    obtain ⟨before, t, m, hSpells, hLocated⟩ := located_of_firstType hRun
    by_cases hRest : s.cursor.rest = []
    · cases (outcome_of_ended hRun hRest).symm.trans h
    · cases (outcome_of_trailing hRun hRest).symm.trans h
      exact hLocated.blames ⟨⟨t, m, hSpells⟩, hRest⟩

/-- How far the nesting went is known from how far the whole run got. -/
theorem evident_of_error (h : (run Spec.factory config spec []).outcome = .error diagnostic) :
    ∃ before after, spec.toList = before ++ after ∧ before.length = diagnostic.pos ∧
      (∀ c ∈ before, Lexical c) ∧ Evident config before after diagnostic.cause := by
  obtain ⟨before, after, hText, hPos, hLexical, hCause⟩ := blames_of_error h
  refine ⟨before, after, hText, hPos, hLexical, ?_⟩
  obtain ⟨d, hDeep⟩ | hEvident := hCause
  · obtain ⟨rfl, hReached⟩ := (bounded_of_error h).too_deep d hDeep
    rw [← hPos] at hReached
    rw [hDeep]
    exact ⟨rfl, hReached⟩
  · exact hEvident

end Parse

namespace TypeTable

theorem Indexed.evident_of_error {t : TypeTable} (h : t.Indexed) {spec : String} {config : Config}
    {diagnostic : Diagnostic} (hError : (t.parse spec config).outcome = .error diagnostic) :
    ∃ before after, spec.toList = before ++ after ∧ before.length = diagnostic.pos ∧
      (∀ c ∈ before, Lexical c) ∧ Evident config before after diagnostic.cause := by
  cases parse_matches h spec config with
  | error hLeft hRight =>
    cases hLeft.symm.trans hError
    exact Parse.evident_of_error hRight
  | ok hLeft => cases hLeft.symm.trans hError

/-- A failed parse points at its cause. -/
theorem Reachable.error_evident {t : TypeTable} (h : t.Reachable) {spec : String} {config : Config}
    {diagnostic : Diagnostic} (hError : (t.parse spec config).outcome = .error diagnostic) :
    diagnostic.spec = spec ∧ diagnostic.pos ≤ spec.utf8ByteSize ∧
    String.Pos.Raw.IsValid spec ⟨diagnostic.pos⟩ ∧
    diagnostic.render = "error: " ++ diagnostic.message ++ " in type specification '" ++ spec ++
      "'\n    | " ++ spec ++ "\n    | " ++ String.ofList (List.replicate diagnostic.pos ' ') ++
      "^" ∧
    ∃ before after, spec = before ++ after ∧ before.utf8ByteSize = diagnostic.pos ∧
      (∀ c ∈ before.toList, Lexical c) ∧
      Evident config before.toList after.toList diagnostic.cause := by
  have hSpec : diagnostic.spec = spec := Parse.spec_eq_of_error hError
  obtain ⟨before, after, hText, hPos, hLexical, hEvident⟩ := h.indexed.evident_of_error hError
  have hOne : ∀ c ∈ before, c.utf8Size = 1 := fun c hc => (hLexical c hc).utf8Size_eq
  have hSplit : spec = String.ofList before ++ String.ofList after := by
    rw [← String.ofList_append, ← hText, String.ofList_toList]
  have hSize : (String.ofList before).utf8ByteSize = diagnostic.pos := by
    rw [String.utf8ByteSize_ofList, Parse.utf8Len_eq_length hOne, hPos]
  have hColumn : diagnostic.column = diagnostic.pos := by
    rw [Diagnostic.column, hSpec, hText, ← hPos, columnAt_length hOne]
  refine ⟨hSpec, ?_, ?_, ?_, String.ofList before, String.ofList after, hSplit, hSize, ?_, ?_⟩
  · rw [hSplit, String.utf8ByteSize_append, hSize]
    exact Nat.le_add_right _ _
  · rw [String.Pos.Raw.isValid_iff_exists_append]
    exact ⟨_, _, hSplit, by rw [← hSize]; rfl⟩
  · rw [Diagnostic.render, hColumn, hSpec]
  · rwa [String.toList_ofList]
  · rwa [String.toList_ofList, String.toList_ofList]

theorem error_evident_letter :
    initial.Reachable ∧
    (initial.parse "[ixé]" {}).outcome =
      .error ⟨⟨.invalidArraySize, 3⟩, "[ixé]"⟩ ∧
    ∃ before after, "[ixé]" = before ++ after ∧ before.utf8ByteSize = 3 ∧
      (∀ c ∈ before.toList, Lexical c) ∧
      Evident {} before.toList after.toList .invalidArraySize := by
  have hError : (initial.parse "[ixé]" {}).outcome =
      .error ⟨⟨.invalidArraySize, 3⟩, "[ixé]"⟩ := by decide +kernel
  obtain ⟨-, -, -, -, hBlamed⟩ := reachable_initial.error_evident hError
  exact ⟨reachable_initial, hError, hBlamed⟩

end TypeTable

end CompactType
