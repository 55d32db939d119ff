import CompactType.Proofs.Grounding
import CompactType.Proofs.Reencoding

/-!
# Printed forms inside one parse

The types of a table that was parsed into once stand for trees over the structs that the text
defines. These structs are numbered, and all named after the same pattern. So the printed form of a
type gives back its tree without the bodies of structs, and with the tree the type.
-/

set_option autoImplicit false

namespace CompactType.TypeTable

variable {t : TypeTable} {config : Config} {ids : List Nat} {calls : List (Call Nat)}
  {waiting : List Nat} {a b : Nat}

theorem exists_denotesAll {elems : List Nat} (h : ∀ e ∈ elems, ∃ s, Denotes t ids e s) :
    ∃ specs, DenotesAll t ids elems specs := by
  induction elems with
  | nil => exact ⟨[], .nil⟩
  | cons e elems ih =>
    obtain ⟨⟨s, hHead⟩, hRest⟩ := List.forall_mem_cons.mp h
    obtain ⟨specs, hTail⟩ := ih hRest
    exact ⟨s :: specs, .cons hHead hTail⟩

/-- If all named structs are listed and only they lack a body, every type stands for a tree. -/
theorem Descending.exists_denotes (h : t.Descending) (hListed : ∀ i, t.IsNamed i → i ∈ ids)
    (hBody : ∀ i, t.kind? i ≠ some (.struct none none)) (hLt : a < t.size) :
    ∃ s, Denotes t ids a s := by
  induction a using Nat.strong_induction_on with
  | _ a ih =>
    obtain ⟨k, hKind⟩ := exists_kind?_of_lt hLt
    have hPart (hNot : k.isNamed = false) (b : Nat) (hb : b ∈ k.parts) :
        ∃ s, Denotes t ids b s := by
      have hSmaller := h a k hKind hNot b hb
      exact ih b hSmaller (hSmaller.trans hLt)
    cases k with
    | scalar k => exact ⟨_, .scalar hKind⟩
    | pointer e =>
      obtain ⟨s, hElem⟩ := hPart rfl e List.mem_cons_self
      exact ⟨_, .pointer hKind hElem⟩
    | array e count =>
      obtain ⟨s, hElem⟩ := hPart rfl e List.mem_cons_self
      exact ⟨_, .array hKind hElem⟩
    | vector e count =>
      obtain ⟨s, hElem⟩ := hPart rfl e List.mem_cons_self
      exact ⟨_, .vector hKind hElem⟩
    | function params ret variadic =>
      obtain ⟨specs, hParams⟩ :=
        exists_denotesAll fun p hp => hPart rfl p (List.mem_append_left [ret] hp)
      obtain ⟨s, hRet⟩ := hPart rfl ret (List.mem_append_right _ (List.mem_singleton_self ret))
      exact ⟨_, .function hKind hParams hRet⟩
    | struct name body =>
      cases name with
      | some name =>
        obtain ⟨number, hNumber⟩ := List.mem_iff_getElem?.mp (hListed a ⟨name, body, hKind⟩)
        exact ⟨_, .reference hNumber hKind⟩
      | none =>
        cases body with
        | none => exact absurd hKind (hBody a)
        | some fields =>
          obtain ⟨specs, hFields⟩ := exists_denotesAll (hPart rfl)
          exact ⟨_, .record hKind hFields⟩

theorem Denotes.eq_of_text_eq (hCoherent : t.Coherent) (hNames : t.NamedBy ids config.structName)
    {s s' : Spec} (h : Denotes t ids a s) (h' : Denotes t ids b s') (hText : t.text a = t.text b) :
    a = b := by
  rw [h.text_eq hNames, h'.text_eq hNames] at hText
  have hOutline := Spec.outline_eq_of_printed_eq (Except.ok.inj hText)
  exact h.outline.unique hCoherent (hOutline ▸ h'.outline)

theorem kind?_initial_ne_struct (a : Nat) (name : Option String) (body : Option (List Nat)) :
    initial.kind? a ≠ some (.struct name body) := by
  have hAll : ∀ i < 9, ∀ k ∈ initial.kind? i, k.typeClass ≠ .struct := by decide
  intro hKind
  exact hAll a (size_initial ▸ lt_size_of_kind? hKind) _ hKind rfl

section Fresh

variable (h : Parse.Conforms factory config initial calls waiting)
include h

theorem size_le_of_struct {name : Option String} {body : Option (List Nat)}
    (hKind : (factory.replay initial calls).kind? a = some (.struct name body)) :
    initial.size ≤ a := by
  by_contra hOld
  rw [(effect_replay h).kept a (Nat.lt_of_not_le hOld)] at hKind
  exact kind?_initial_ne_struct a name body hKind

theorem mem_newStructs_of_isNamed (hNamed : (factory.replay initial calls).IsNamed a) :
    a ∈ newStructs initial (factory.replay initial calls) := by
  have hAny := any_isNamed_iff.mpr hNamed
  obtain ⟨name, body, hKind⟩ := hNamed
  exact mem_newStructs.mpr ⟨size_le_of_struct h hKind, lt_size_of_kind? hKind, hAny⟩

theorem kind?_ne_unnamed_incomplete (a : Nat) :
    (factory.replay initial calls).kind? a ≠ some (.struct none none) := by
  intro hKind
  have hLineage := lineage_replay coherent_initial descending_initial h
  have hAnswer := hLineage.mem_answers a (lt_size_of_kind? hKind) (size_le_of_struct h hKind)
  by_cases hWaits : a ∈ waiting
  · obtain ⟨name, hDeclared⟩ := exists_declared_of_waiting h hWaits
    cases hKind.symm.trans hDeclared
  · obtain ⟨k, hKind', hObeys, -⟩ := hLineage.closed a hAnswer hWaits
    obtain rfl := Option.some.inj (hKind.symm.trans hKind')
    exact hObeys

theorem exists_denotes_of_conforms (hLt : a < (factory.replay initial calls).size) :
    ∃ s, Denotes (factory.replay initial calls)
      (newStructs initial (factory.replay initial calls)) a s :=
  (lineage_replay coherent_initial descending_initial h).descending.exists_denotes
    (fun _ => mem_newStructs_of_isNamed h) (kind?_ne_unnamed_incomplete h) hLt

end Fresh

/-- After a text was parsed into the initial table, accepted or not, all types can be printed, and
no two types are printed in the same way. -/
theorem parse_legible (spec : String) (config : Config) :
    (∀ id < (initial.parse spec config).store.size,
      ∃ label, (initial.parse spec config).store.text id = .ok label) ∧
    ∀ a b, a < (initial.parse spec config).store.size →
      b < (initial.parse spec config).store.size → a ≠ b →
      (initial.parse spec config).store.text a ≠ (initial.parse spec config).store.text b := by
  obtain ⟨calls, waiting, -, hStore, hConforms, -⟩ :=
    Parse.exists_conforms factory config spec initial
  rw [parse, hStore]
  have hNames := (effect_replay hConforms).namedBy
  constructor
  · intro a hLt
    obtain ⟨s, h⟩ := exists_denotes_of_conforms hConforms hLt
    exact ⟨_, h.text_eq hNames⟩
  · intro a b ha hb hNe hText
    obtain ⟨s, h⟩ := exists_denotes_of_conforms hConforms ha
    obtain ⟨s', h'⟩ := exists_denotes_of_conforms hConforms hb
    exact hNe (h.eq_of_text_eq (coherent_initial.replay calls) hNames h' hText)

/-- Two parses can leave structs of the same name. -/
example :
    let t := initial.after [.parse "=0\x7bi\x7d" {}, .parse "=0\x7bl\x7d" {}]
    t.text 9 = .ok "%typespec.struct.0" ∧ t.text 10 = .ok "%typespec.struct.0" := by
  decide +kernel

end CompactType.TypeTable
