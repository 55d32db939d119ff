import CompactType.Proofs.Parsed
import CompactType.Proofs.Walk

/-!
# Parsing and encoding

Exactly the texts that spell a tree within the nesting allowed are accepted, and the type returned
stands for that tree. Its encoding is the canonical text, and what the table held before makes no
difference.
-/

set_option autoImplicit false

namespace CompactType.TypeTable

namespace Holds

variable {t : TypeTable} {config : Config} {ids : List Nat} {id : Nat} {s : Spec}

theorem text_eq (h : Holds t config ids id s) : t.text id = .ok (s.printed config.structName) :=
  h.denotes.text_eq h.named

theorem encode_eq (h : Holds t config ids id s) {m : Nat} {text : List Char}
    (hSpells : Spells 0 text s m) : t.encode id = .ok s.text := by
  rw [encode, h.denotes.describe_eq h.named h.nodup hSpells.arranged]
  rfl

end Holds

theorem spells_unique {text : List Char} {s s' : Spec} {m m' : Nat} (h : Spells 0 text s m)
    (h' : Spells 0 text s' m') : s = s' ∧ m = m' := by
  let config : Config := { maxDepth := max s.nesting s'.nesting }
  have hNesting : s.nesting ≤ config.maxDepth := Nat.le_max_left _ _
  have hNesting' : s'.nesting ≤ config.maxDepth := Nat.le_max_right _ _
  have hText : text = (String.ofList text).toList := String.toList_ofList.symm
  rw [hText] at h h'
  obtain ⟨id, ids, hOk, -, hHolds⟩ := indexed_initial.parse_of_spells h hNesting
  obtain ⟨id', ids', hOk', -, hHolds'⟩ := indexed_initial.parse_of_spells h' hNesting'
  obtain rfl : id = id' := Except.ok.inj (hOk.symm.trans hOk')
  have hDescribe := hHolds.denotes.describe_eq hHolds.named hHolds.nodup h.arranged
  have hDescribe' := hHolds'.denotes.describe_eq hHolds'.named hHolds'.nodup h'.arranged
  obtain rfl := Except.ok.inj (hDescribe.symm.trans hDescribe')
  exact ⟨rfl, (h.length_drafts config).symm.trans (h'.length_drafts config)⟩

theorem Indexed.holds_of_ok {t : TypeTable} (h : t.Indexed) {spec : String} {config : Config}
    {id : Nat} (hOk : (t.parse spec config).outcome = .ok id) :
    ∃ s m ids, Spells 0 spec.toList s m ∧ s.nesting ≤ config.maxDepth ∧ ids.length = m ∧
      Holds (t.parse spec config).store config ids id s := by
  obtain ⟨s, m, hSpells, hNesting⟩ | ⟨diagnostic, -, hError⟩ := h.spells_or_error spec config
  · obtain ⟨id', ids, hOk', hLength, hHolds⟩ := h.parse_of_spells hSpells hNesting
    obtain rfl : id = id' := Except.ok.inj (hOk.symm.trans hOk')
    exact ⟨s, m, ids, hSpells, hNesting, hLength, hHolds⟩
  · cases hOk.symm.trans hError

/-- A text is accepted into a new table exactly if it spells a tree that is not nested too deeply.
The type returned then stands for the tree that is spelled. -/
theorem parse_initial_ok (spec : String) (config : Config) :
    ((∃ id, (initial.parse spec config).outcome = .ok id) ↔
      ∃ s m, Spells 0 spec.toList s m ∧ s.nesting ≤ config.maxDepth) ∧
    ∀ id s m, (initial.parse spec config).outcome = .ok id → Spells 0 spec.toList s m →
      ∃ ids, ids.length = m ∧ Holds (initial.parse spec config).store config ids id s := by
  constructor
  · constructor
    · rintro ⟨id, hOk⟩
      obtain ⟨s, m, -, hSpells, hNesting, -⟩ := indexed_initial.holds_of_ok hOk
      exact ⟨s, m, hSpells, hNesting⟩
    · rintro ⟨s, m, hSpells, hNesting⟩
      obtain ⟨id, -, hOk, -⟩ := indexed_initial.parse_of_spells hSpells hNesting
      exact ⟨id, hOk⟩
  · intro id s m hOk hSpells
    obtain ⟨s', m', ids, hSpells', -, hLength, hHolds⟩ := indexed_initial.holds_of_ok hOk
    obtain ⟨rfl, rfl⟩ := spells_unique hSpells hSpells'
    exact ⟨ids, hLength, hHolds⟩

/-- How parses of one text into two tables compare. -/
inductive ParsesAlike (t t' : TypeTable) (spec : String) (config : Config) : Prop where
  | error {diagnostic : Diagnostic} :
    (t.parse spec config).outcome = .error diagnostic →
    (t'.parse spec config).outcome = .error diagnostic → ParsesAlike t t' spec config
  | ok {a b : Nat} {label encoded : String} :
    (t.parse spec config).outcome = .ok a → (t'.parse spec config).outcome = .ok b →
    (t.parse spec config).store.classOf a = (t'.parse spec config).store.classOf b →
    (t.parse spec config).store.text a = .ok label →
    (t'.parse spec config).store.text b = .ok label →
    (t.parse spec config).store.encode a = .ok encoded →
    (t'.parse spec config).store.encode b = .ok encoded → ParsesAlike t t' spec config

/-- What a table holds makes no difference to what is parsed into it. -/
theorem Reachable.parsesAlike {t : TypeTable} (h : Reachable t) (spec : String)
    (config : Config) : ParsesAlike t initial spec config := by
  obtain ⟨s, m, hSpells, hNesting⟩ | ⟨diagnostic, hTrees, hError⟩ :=
    h.indexed.spells_or_error spec config
  · obtain ⟨a, as, hOk, -, hHolds⟩ := h.indexed.parse_of_spells hSpells hNesting
    obtain ⟨b, bs, hOk', -, hHolds'⟩ := indexed_initial.parse_of_spells hSpells hNesting
    have hClass := hHolds.denotes.classOf_eq.trans hHolds'.denotes.classOf_eq.symm
    exact .ok hOk hOk' hClass hHolds.text_eq hHolds'.text_eq (hHolds.encode_eq hSpells)
      (hHolds'.encode_eq hSpells)
  · obtain ⟨s, m, hSpells, hNesting⟩ | ⟨diagnostic', hTrees', hError'⟩ :=
      indexed_initial.spells_or_error spec config
    · obtain ⟨hOk, -⟩ := Parse.run_drafts_of_spells hSpells hNesting
      cases hTrees.symm.trans hOk
    · obtain rfl := Except.error.inj (hTrees.symm.trans hTrees')
      exact .error hError hError'

theorem parsesAlike_after_failure :
    Reachable (initial.after
      [.parse "=0\x7b*%0" {}, .intern (.struct (some "typespec.struct.0") (some []))]) ∧
    ParsesAlike (initial.after
      [.parse "=0\x7b*%0" {}, .intern (.struct (some "typespec.struct.0") (some []))])
      initial "*=0\x7bb*%0\x7d" {} :=
  ⟨⟨_, rfl⟩, Reachable.parsesAlike ⟨_, rfl⟩ _ _⟩

/-- The encoding of what is parsed is the canonical text. -/
theorem Reachable.encode_parse {t : TypeTable} (h : Reachable t) {spec : String}
    {config : Config} {id : Nat} (hOk : (t.parse spec config).outcome = .ok id) :
    (t.parse spec config).store.encode id = .ok (canonicalText spec) ∧
      (canonicalText spec).utf8ByteSize ≤ spec.utf8ByteSize ∧
      ∀ t', Reachable t' → ∃ id',
        (t'.parse (canonicalText spec) config).outcome = .ok id' ∧
        (t'.parse (canonicalText spec) config).store.encode id' = .ok (canonicalText spec) := by
  obtain ⟨s, m, ids, hSpells, hNesting, -, hHolds⟩ := h.indexed.holds_of_ok hOk
  have hText : canonicalText spec = s.text := by
    rw [canonicalText, hSpells.canonicalChars_eq, Spec.text]
  have hCanonical : Spells 0 (canonicalText spec).toList s m := by
    rw [hText, Spec.text, String.toList_ofList]
    exact hSpells.canonical
  refine ⟨?_, utf8ByteSize_canonicalText_le spec, ?_⟩
  · rw [hText]
    exact hHolds.encode_eq hSpells
  · intro t' h'
    obtain ⟨id', ids', hOk', -, hHolds'⟩ := h'.indexed.parse_of_spells hCanonical hNesting
    refine ⟨id', hOk', ?_⟩
    rw [hHolds'.encode_eq hCanonical, hText]

theorem encode_parse_upper :
    (initial.parse "(v&[Bx007])" {}).outcome = .ok 10 ∧
      (initial.parse "(v&[Bx007])" {}).store.encode 10 = .ok "(&[bx7])" := by
  have hOk : (initial.parse "(v&[Bx007])" {}).outcome = .ok 10 := rfl
  have hText : canonicalText "(v&[Bx007])" = "(&[bx7])" := rfl
  have hEncode := (reachable_initial.encode_parse hOk).1
  exact ⟨hOk, hText ▸ hEncode⟩

/-- The text is the encoding of the type and spells the tree given. Wherever it is parsed without
being too deep, it gives a type of the same shape, with the same encoding. -/
structure RebuiltFrom (t : TypeTable) (root : Nat) (w : String) (s : Spec) : Prop where
  encode_eq : t.encode root = .ok w
  exists_spells : ∃ m, Spells 0 w.toList s m
  exists_parse (d : TypeTable) (config : Config) : Reachable d → s.nesting ≤ config.maxDepth →
    ∃ id, (d.parse w config).outcome = .ok id ∧
      SameShape t root (d.parse w config).store id ∧
      (d.parse w config).store.encode id = .ok w

theorem Lawful.exists_rebuiltFrom {t : TypeTable} {root : Nat} (h : Lawful t root) :
    ∃ w s, RebuiltFrom t root w s := by
  obtain ⟨s, ids, hEncode, hNodup, hDenotes, hSpells⟩ := h.exists_denotes
  have hText : Spells 0 s.text.toList s ids.length := by
    rw [Spec.text, String.toList_ofList]
    exact hSpells
  refine ⟨s.text, s, hEncode, ⟨ids.length, hText⟩, ?_⟩
  intro d config hReachable hNesting
  obtain ⟨id, ids', hOk, -, hHolds⟩ := hReachable.indexed.parse_of_spells hText hNesting
  exact ⟨id, hOk, sameShape_of_denotes hNodup hHolds.nodup rfl hDenotes hHolds.denotes hText,
    hHolds.encode_eq hText⟩

/-- The type has an encoding, and wherever that is parsed it gives a type of the same shape, with
the same encoding. -/
def Rebuilds (t : TypeTable) (root : Nat) : Prop := ∃ w s, RebuiltFrom t root w s

theorem Lawful.rebuilds {t : TypeTable} {root : Nat} (h : Lawful t root) : Rebuilds t root :=
  h.exists_rebuiltFrom

theorem rebuilds_list_node :
    Lawful (initial.after
      [.make (.declare "node"), .make (.pointer 9), .complete 9 [3, 10]]) 10 ∧
    Rebuilds (initial.after
      [.make (.declare "node"), .make (.pointer 9), .complete 9 [3, 10]]) 10 := by
  have hLawful : Lawful (initial.after
      [.make (.declare "node"), .make (.pointer 9), .complete 9 [3, 10]]) 10 :=
    .of_closed (l := [3, 9, 10]) (by decide) (by decide) (by decide)
  exact ⟨hLawful, hLawful.rebuilds⟩

end CompactType.TypeTable
