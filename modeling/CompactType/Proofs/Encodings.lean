import CompactType.Proofs.Coupling
import CompactType.Proofs.Unambiguous
import CompactType.Proofs.Walk
import CompactType.TypeTable.History

/-!
# Encodings and shapes

Well-made types have the same encoding exactly if they have the same shape, whatever else the
tables hold. A matching carries the tree of a type over to a type of the same shape; from the
encoding the tree is read in one way only.
-/

set_option autoImplicit false

namespace CompactType

section Lists

variable {α β : Type} {R : α → β → Prop} {l : List α} {l' : List β}

theorem exists_getElem?_of_forall₂ (h : List.Forall₂ R l l') {n : Nat} {a : α}
    (ha : l[n]? = some a) : ∃ b, l'[n]? = some b ∧ R a b := by
  have hRel := forall₂_getElem? h n
  rw [ha] at hRel
  generalize l'[n]? = found at hRel
  cases hRel with
  | some hRel => exact ⟨_, rfl, hRel⟩

theorem exists_mem_of_forall₂ (h : List.Forall₂ R l l') {a : α} (ha : a ∈ l) :
    ∃ b ∈ l', R a b := by
  obtain ⟨n, hn⟩ := List.getElem?_of_mem ha
  obtain ⟨b, hb, hRel⟩ := exists_getElem?_of_forall₂ h hn
  exact ⟨b, List.mem_of_getElem? hb, hRel⟩

theorem exists_forall₂ (h : ∀ a ∈ l, ∃ b, R a b) : ∃ l', List.Forall₂ R l l' := by
  induction l with
  | nil => exact ⟨[], .nil⟩
  | cons a l ih =>
    obtain ⟨⟨b, hb⟩, hRest⟩ := List.forall_mem_cons.mp h
    obtain ⟨l', hAll⟩ := ih hRest
    exact ⟨b :: l', .cons hb hAll⟩

end Lists

theorem Kind.Alike.exists_part {R : Nat → Nat → Prop} {k k' : Kind} (h : k.Alike R k') {c : Nat}
    (hc : c ∈ k.parts) : ∃ d, R c d := by
  cases h with
  | scalar => cases hc
  | pointer hElem | array _ hElem | vector _ hElem =>
    exact List.mem_singleton.mp hc ▸ ⟨_, hElem⟩
  | struct _ hFields =>
    cases hFields with
    | none => cases hc
    | some hAll =>
      obtain ⟨d, -, hRel⟩ := exists_mem_of_forall₂ hAll hc
      exact ⟨d, hRel⟩
  | function _ hParams hRet =>
    obtain hParam | hLast := List.mem_append.mp hc
    · obtain ⟨d, -, hRel⟩ := exists_mem_of_forall₂ hParams hParam
      exact ⟨d, hRel⟩
    · exact List.mem_singleton.mp hLast ▸ ⟨_, hRet⟩

namespace TypeTable

theorem exists_namedBy {t : TypeTable} {ids : List Nat} (h : ∀ i ∈ ids, t.IsNamed i) :
    ∃ name, t.NamedBy ids name := by
  have hNumber (n : Nat) : ∃ label, ∀ i, ids[n]? = some i →
      ∃ body, t.kind? i = some (.struct (some label) body) := by
    cases hId : ids[n]? with
    | none => exact ⟨"", nofun⟩
    | some i =>
      obtain ⟨label, body, hKind⟩ := h i (List.mem_of_getElem? hId)
      refine ⟨label, ?_⟩
      intro j hEq
      obtain rfl := Option.some.inj hEq
      exact ⟨body, hKind⟩
  choose name hName using hNumber
  exact ⟨name, hName⟩

namespace Matching

variable {t t' : TypeTable} {R : Nat → Nat → Prop} {a b : Nat} {ids ids' : List Nat}

theorem exists_kind? (h : Matching t t' R) (hRel : R a b) {k : Kind} (hKind : t.kind? a = some k) :
    ∃ k', t'.kind? b = some k' ∧ k.Alike R k' := by
  obtain ⟨k₀, k', hKind₀, hKind', hAlike⟩ := h.alike hRel
  obtain rfl := Option.some.inj (hKind.symm.trans hKind₀)
  exact ⟨k', hKind', hAlike⟩

theorem exists_struct (h : Matching t t' R) (hRel : R a b) {label : String}
    {body : Option (List Nat)} (hKind : t.kind? a = some (.struct (some label) body)) :
    ∃ label' body', t'.kind? b = some (.struct (some label') body') ∧
      Option.Rel (List.Forall₂ R) body body' := by
  obtain ⟨_, hKind', hAlike⟩ := h.exists_kind? hRel hKind
  cases hAlike with
  | struct hName hFields =>
    obtain ⟨label', rfl⟩ := Option.isSome_iff_exists.mp hName.symm
    exact ⟨label', _, hKind', hFields⟩

theorem exists_of_reaches (h : Matching t t' R) (hRel : R a b) {c : Nat}
    (hReach : Relation.ReflTransGen t.Refers a c) : ∃ d, R c d := by
  induction hReach with
  | refl => exact ⟨b, hRel⟩
  | tail _ hStep ih =>
    obtain ⟨d, hd⟩ := ih
    obtain ⟨k, hKind, hPart⟩ := hStep
    obtain ⟨_, -, hAlike⟩ := h.exists_kind? hd hKind
    exact hAlike.exists_part hPart

theorem nodup (h : Matching t t' R) (hIds : List.Forall₂ R ids ids') (hNodup : ids.Nodup)
    (hNamed : ∀ i ∈ ids, t.IsNamed i) : ids'.Nodup := by
  induction hIds with
  | nil => exact List.nodup_nil
  | cons hHead hTail ih =>
    obtain ⟨hNot, hNodup⟩ := List.nodup_cons.mp hNodup
    obtain ⟨hFirst, hRest⟩ := List.forall_mem_cons.mp hNamed
    refine List.nodup_cons.mpr ⟨?_, ih hNodup hRest⟩
    intro hMem
    obtain ⟨c, hc, hRel⟩ := exists_mem_of_forall₂ (List.Forall₂.flip (R := flip R) hTail) hMem
    exact hNot ((h.one_to_one hHead hRel hFirst).mpr rfl ▸ hc)

theorem isNamed (h : Matching t t' R) (hIds : List.Forall₂ R ids ids')
    (hNamed : ∀ i ∈ ids, t.IsNamed i) : ∀ i ∈ ids', t'.IsNamed i := by
  intro i hi
  obtain ⟨c, hc, hRel⟩ := exists_mem_of_forall₂ (List.Forall₂.flip (R := flip R) hIds) hi
  obtain ⟨label, body, hKind⟩ := hNamed c hc
  obtain ⟨label', body', hKind', -⟩ := h.exists_struct hRel hKind
  exact ⟨label', body', hKind'⟩

theorem getElem?_eq (h : Matching t t' R) (hIds : List.Forall₂ R ids ids') (hRel : R a b)
    (hNamed : t.IsNamed a) {number : Nat} (hId : ids[number]? = some a) :
    ids'[number]? = some b := by
  obtain ⟨c, hc, hRel'⟩ := exists_getElem?_of_forall₂ hIds hId
  obtain rfl : b = c := (h.one_to_one hRel hRel' hNamed).mp rfl
  exact hc

end Matching

mutual

/-- A type stands for the trees that a type matched with it stands for. -/
theorem Denotes.transport {t t' : TypeTable} {R : Nat → Nat → Prop} {ids ids' : List Nat}
    (hMatching : Matching t t' R) (hIds : List.Forall₂ R ids ids') {a b : Nat} {s : Spec}
    (h : Denotes t ids a s) (hRel : R a b) : Denotes t' ids' b s := by
  cases h with
  | scalar hKind =>
    obtain ⟨_, hKind', hAlike⟩ := hMatching.exists_kind? hRel hKind
    cases hAlike with
    | scalar => exact .scalar hKind'
  | pointer hKind hElem =>
    obtain ⟨_, hKind', hAlike⟩ := hMatching.exists_kind? hRel hKind
    cases hAlike with
    | pointer hPart => exact .pointer hKind' (hElem.transport hMatching hIds hPart)
  | array hKind hElem =>
    obtain ⟨_, hKind', hAlike⟩ := hMatching.exists_kind? hRel hKind
    cases hAlike with
    | array _ hPart => exact .array hKind' (hElem.transport hMatching hIds hPart)
  | vector hKind hElem =>
    obtain ⟨_, hKind', hAlike⟩ := hMatching.exists_kind? hRel hKind
    cases hAlike with
    | vector _ hPart => exact .vector hKind' (hElem.transport hMatching hIds hPart)
  | record hKind hFields =>
    obtain ⟨_, hKind', hAlike⟩ := hMatching.exists_kind? hRel hKind
    cases hAlike with
    | @struct _ name' _ _ hName hParts =>
      cases name' with
      | some => cases hName
      | none =>
        cases hParts with
        | some hParts => exact .record hKind' (hFields.transport hMatching hIds hParts)
  | define hId hKind hFields =>
    obtain ⟨_, _, hKind', hParts⟩ := hMatching.exists_struct hRel hKind
    cases hParts with
    | some hParts =>
      exact .define (hMatching.getElem?_eq hIds hRel ⟨_, _, hKind⟩ hId) hKind'
        (hFields.transport hMatching hIds hParts)
  | reference hId hKind =>
    obtain ⟨_, _, hKind', -⟩ := hMatching.exists_struct hRel hKind
    exact .reference (hMatching.getElem?_eq hIds hRel ⟨_, _, hKind⟩ hId) hKind'
  | function hKind hParams hRet =>
    obtain ⟨_, hKind', hAlike⟩ := hMatching.exists_kind? hRel hKind
    cases hAlike with
    | function _ hParts hPart =>
      exact .function hKind' (hParams.transport hMatching hIds hParts)
        (hRet.transport hMatching hIds hPart)
termination_by sizeOf s

theorem DenotesAll.transport {t t' : TypeTable} {R : Nat → Nat → Prop} {ids ids' : List Nat}
    (hMatching : Matching t t' R) (hIds : List.Forall₂ R ids ids') {elems elems' : List Nat}
    {specs : List Spec} (h : DenotesAll t ids elems specs) (hRel : List.Forall₂ R elems elems') :
    DenotesAll t' ids' elems' specs := by
  cases h with
  | nil =>
    cases hRel
    exact .nil
  | cons hHead hTail =>
    cases hRel with
    | cons hFirst hRest =>
      exact .cons (hHead.transport hMatching hIds hFirst) (hTail.transport hMatching hIds hRest)
termination_by sizeOf specs

end

theorem Matching.describe_eq {t t' : TypeTable} {R : Nat → Nat → Prop} {a b : Nat}
    {ids : List Nat} {s : Spec} (h : Matching t t' R) (hRel : R a b) (hMet : Met t a ids)
    (hDenotes : Denotes t ids a s) (hArranged : Arranged 0 s ids.length) :
    t'.describe b = .ok s := by
  obtain ⟨ids', hIds⟩ : ∃ ids', List.Forall₂ R ids ids' :=
    exists_forall₂ fun c hc => h.exists_of_reaches hRel (hMet.mem hc).1
  have hNamed : ∀ i ∈ ids, t.IsNamed i := fun i hi => (hMet.mem hi).2
  obtain ⟨name, hNames⟩ := exists_namedBy (h.isNamed hIds hNamed)
  exact (hDenotes.transport h hIds hRel).describe_eq hNames (h.nodup hIds hMet.nodup hNamed)
    hArranged

/-- Well-made types have encodings, which are the same exactly if the types have the same
shape. -/
theorem WellMade.encode_eq_iff {t t' : TypeTable} {a b : Nat} (h : WellMade t a)
    (h' : WellMade t' b) :
    (∃ w, t.encode a = .ok w) ∧ (∃ w, t'.encode b = .ok w) ∧
      (t.encode a = t'.encode b ↔ SameShape t a t' b) := by
  obtain ⟨s, ids, hDescribe, hMet, hDenotes, hArranged⟩ := h.exists_describe
  obtain ⟨s', ids', hDescribe', hMet', hDenotes', hArranged'⟩ := h'.exists_describe
  have hEncode := encode_of_describe hDescribe
  have hEncode' := encode_of_describe hDescribe'
  refine ⟨⟨_, hEncode⟩, ⟨_, hEncode'⟩, ?_⟩
  constructor
  · intro hEq
    have hText : s.text = s'.text := Except.ok.inj (hEncode.symm.trans (hEq.trans hEncode'))
    obtain rfl := hArranged.text_injective hArranged' hText
    exact sameShape_of_arranged hMet.nodup hMet'.nodup rfl hDenotes hDenotes' hArranged
  · rintro ⟨R, hMatching, hRel⟩
    have hSame := hMatching.describe_eq hRel hMet hDenotes hArranged
    exact hEncode.trans (encode_of_describe hSame).symm

/-- A list node, to which one type points. -/
def sharedNode : TypeTable :=
  initial.after [.make (.declare "node"), .make (.pointer 9), .complete 9 [3, 10]]

/-- A list node under another name, to which two types point. -/
def unsharedNode : TypeTable where
  entries := #[⟨0, .scalar .i32⟩, ⟨1, .struct (some "cell") (some [0, 2])⟩, ⟨2, .pointer 1⟩,
    ⟨3, .pointer 1⟩]
  interned := []

theorem sameShape_list_nodes :
    WellMade sharedNode 10 ∧ WellMade unsharedNode 3 ∧
      SameShape sharedNode 10 unsharedNode 3 := by
  have h : WellMade sharedNode 10 :=
    (Lawful.of_closed (l := [3, 9, 10]) (by decide) (by decide) (by decide)).toWellMade
  have h' : WellMade unsharedNode 3 :=
    (Lawful.of_closed (l := [0, 1, 2, 3]) (by decide) (by decide) (by decide)).toWellMade
  have hEncode : sharedNode.encode 10 = .ok "*=0\x7bi*%0\x7d" := rfl
  have hEncode' : unsharedNode.encode 3 = .ok "*=0\x7bi*%0\x7d" := rfl
  obtain ⟨-, -, hIff⟩ := h.encode_eq_iff h'
  exact ⟨h, h', hIff.mp (hEncode.trans hEncode'.symm)⟩

end TypeTable

end CompactType
