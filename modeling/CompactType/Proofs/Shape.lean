import CompactType.Proofs.Denotation

/-!
# Types of the same shape

Two types have the same shape if they cannot be told apart by following their kinds, names of
structs aside, and the named structs met on the way match one to one.
-/

set_option autoImplicit false

namespace CompactType

/-- Kinds that agree but for the names of structs, where the relation holds between the parts. -/
inductive Kind.Alike (R : Nat → Nat → Prop) : Kind → Kind → Prop where
  | scalar (k : Scalar) : Alike R (.scalar k) (.scalar k)
  | pointer {e e' : Nat} : R e e' → Alike R (.pointer e) (.pointer e')
  | array {e e' : Nat} (count : UInt64) : R e e' → Alike R (.array e count) (.array e' count)
  | vector {e e' : Nat} (count : UInt32) : R e e' → Alike R (.vector e count) (.vector e' count)
  | struct {name name' : Option String} {fields fields' : Option (List Nat)} :
    name.isSome = name'.isSome → Option.Rel (List.Forall₂ R) fields fields' →
    Alike R (.struct name fields) (.struct name' fields')
  | function {params params' : List Nat} {ret ret' : Nat} (variadic : Bool) :
    List.Forall₂ R params params' → R ret ret' →
    Alike R (.function params ret variadic) (.function params' ret' variadic)

namespace TypeTable

def IsNamed (t : TypeTable) (id : Nat) : Prop :=
  ∃ name body, t.kind? id = some (.struct (some name) body)

/-- A relation between the types of two tables that holds along their parts, one to one on named
structs. -/
structure Matching (t t' : TypeTable) (R : Nat → Nat → Prop) : Prop where
  alike {a b : Nat} : R a b → ∃ k k', t.kind? a = some k ∧ t'.kind? b = some k' ∧ k.Alike R k'
  one_to_one {a b c d : Nat} : R a b → R c d → t.IsNamed a → (a = c ↔ b = d)

def SameShape (t : TypeTable) (a : Nat) (t' : TypeTable) (b : Nat) : Prop :=
  ∃ R, Matching t t' R ∧ R a b

/-- The two types stand for the same tree. -/
def Agree (t : TypeTable) (ids : List Nat) (t' : TypeTable) (ids' : List Nat) (a b : Nat) : Prop :=
  ∃ s, Denotes t ids a s ∧ Denotes t' ids' b s

section Agree

variable {t t' : TypeTable} {ids ids' : List Nat} {a b : Nat}

theorem Agree.symm (h : Agree t ids t' ids' a b) : Agree t' ids' t ids b a := by
  obtain ⟨s, h, h'⟩ := h
  exact ⟨s, h', h⟩

theorem forall₂_agree {elems elems' : List Nat} {specs : List Spec}
    (h : DenotesAll t ids elems specs) (h' : DenotesAll t' ids' elems' specs) :
    List.Forall₂ (Agree t ids t' ids') elems elems' := by
  induction specs generalizing elems elems' with
  | nil =>
    cases h
    cases h'
    exact .nil
  | cons s specs ih =>
    cases h with
    | cons hHead hTail =>
      cases h' with
      | cons hHead' hTail' => exact .cons ⟨s, hHead, hHead'⟩ (ih hTail hTail')

theorem Agree.exists_number (h : Agree t ids t' ids' a b) (hNamed : t.IsNamed a) :
    ∃ n : Nat, ids[n]? = some a ∧ ids'[n]? = some b := by
  obtain ⟨s, h, h'⟩ := h
  obtain ⟨name, body, hKind⟩ := hNamed
  cases h with
  | define hId =>
    cases h' with
    | define hId' => exact ⟨_, hId, hId'⟩
  | reference hId =>
    cases h' with
    | reference hId' => exact ⟨_, hId, hId'⟩
  | scalar hKind' | pointer hKind' | array hKind' | vector hKind' | record hKind'
  | function hKind' => cases hKind.symm.trans hKind'

theorem Agree.isNamed (h : Agree t ids t' ids' a b) (hNamed : t.IsNamed a) : t'.IsNamed b := by
  obtain ⟨s, h, h'⟩ := h
  obtain ⟨name, body, hKind⟩ := hNamed
  cases h with
  | define =>
    cases h' with
    | define _ hKind' => exact ⟨_, _, hKind'⟩
  | reference =>
    cases h' with
    | reference _ hKind' => exact ⟨_, _, hKind'⟩
  | scalar hKind' | pointer hKind' | array hKind' | vector hKind' | record hKind'
  | function hKind' => cases hKind.symm.trans hKind'

def BodiesAgree (t : TypeTable) (ids : List Nat) (t' : TypeTable) (ids' : List Nat) : Prop :=
  ∀ (n a b : Nat), ids[n]? = some a → ids'[n]? = some b → ∃ name name' elems elems',
    t.kind? a = some (.struct (some name) (some elems)) ∧
    t'.kind? b = some (.struct (some name') (some elems')) ∧
    List.Forall₂ (Agree t ids t' ids') elems elems'

theorem Agree.alike (hBodies : BodiesAgree t ids t' ids') (h : Agree t ids t' ids' a b) :
    ∃ k k', t.kind? a = some k ∧ t'.kind? b = some k' ∧ k.Alike (Agree t ids t' ids') k' := by
  have hStruct {n : Nat} (hId : ids[n]? = some a) (hId' : ids'[n]? = some b) :
      ∃ k k', t.kind? a = some k ∧ t'.kind? b = some k' ∧ k.Alike (Agree t ids t' ids') k' := by
    obtain ⟨_, _, _, _, hKind, hKind', hAll⟩ := hBodies n a b hId hId'
    exact ⟨_, _, hKind, hKind', .struct rfl (.some hAll)⟩
  obtain ⟨s, h, h'⟩ := h
  cases h with
  | scalar hKind =>
    cases h' with
    | scalar hKind' => exact ⟨_, _, hKind, hKind', .scalar _⟩
  | pointer hKind h =>
    cases h' with
    | pointer hKind' h' => exact ⟨_, _, hKind, hKind', .pointer ⟨_, h, h'⟩⟩
  | array hKind h =>
    cases h' with
    | array hKind' h' => exact ⟨_, _, hKind, hKind', .array _ ⟨_, h, h'⟩⟩
  | vector hKind h =>
    cases h' with
    | vector hKind' h' => exact ⟨_, _, hKind, hKind', .vector _ ⟨_, h, h'⟩⟩
  | record hKind h =>
    cases h' with
    | record hKind' h' =>
      exact ⟨_, _, hKind, hKind', .struct rfl (.some (forall₂_agree h h'))⟩
  | define hId =>
    cases h' with
    | define hId' => exact hStruct hId hId'
  | reference hId =>
    cases h' with
    | reference hId' => exact hStruct hId hId'
  | function hKind h hRet =>
    cases h' with
    | function hKind' h' hRet' =>
      exact ⟨_, _, hKind, hKind', .function _ (forall₂_agree h h') ⟨_, hRet, hRet'⟩⟩

theorem eq_of_agree (hNodup : ids.Nodup) {c d : Nat} (h : Agree t ids t' ids' a b)
    (h' : Agree t ids t' ids' c d) (hNamed : t.IsNamed a) (hEq : a = c) : b = d := by
  subst hEq
  obtain ⟨n, hn, hb⟩ := h.exists_number hNamed
  obtain ⟨m, hm, hd⟩ := h'.exists_number hNamed
  obtain rfl := (List.getElem?_inj (List.getElem?_eq_some_iff.mp hn).1 hNodup).mp (hn.trans hm.symm)
  exact Option.some.inj (hb.symm.trans hd)

theorem matching_agree (hNodup : ids.Nodup) (hNodup' : ids'.Nodup)
    (hBodies : BodiesAgree t ids t' ids') : Matching t t' (Agree t ids t' ids') where
  alike := Agree.alike hBodies
  one_to_one h h' hNamed := by
    constructor
    · exact eq_of_agree hNodup h h' hNamed
    · exact eq_of_agree hNodup' h.symm h'.symm (h.isNamed hNamed)

/-- Types that stand for the same tree have the same shape. -/
theorem sameShape_of_arranged {s : Spec} {m : Nat} (hNodup : ids.Nodup) (hNodup' : ids'.Nodup)
    (hLength : ids.length = m) (h : Denotes t ids a s) (h' : Denotes t' ids' b s)
    (hArranged : Arranged 0 s m) : SameShape t a t' b := by
  refine ⟨_, matching_agree hNodup hNodup' ?_, s, h, h'⟩
  intro n c d hc hd
  have hn : n < (s.drafts default).length := by
    have hDrafts := hArranged.length_drafts default
    have hLt := (List.getElem?_eq_some_iff.mp hc).1
    omega
  have hBody := h.bodies default hArranged n _ (List.getElem?_eq_getElem hn)
  have hBody' := h'.bodies default hArranged n _ (List.getElem?_eq_getElem hn)
  rw [Nat.zero_add] at hBody hBody'
  obtain ⟨c', name, elems, fields, hc', hKind, hFields, hAll⟩ := hBody
  obtain ⟨d', name', elems', fields', hd', hKind', hFields', hAll'⟩ := hBody'
  obtain rfl : c = c' := Option.some.inj (hc.symm.trans hc')
  obtain rfl : d = d' := Option.some.inj (hd.symm.trans hd')
  obtain rfl : fields = fields' := Option.some.inj (hFields.symm.trans hFields')
  exact ⟨name, name', elems, elems', hKind, hKind', forall₂_agree hAll hAll'⟩

theorem sameShape_of_denotes {s : Spec} {text : List Char} {m : Nat} (hNodup : ids.Nodup)
    (hNodup' : ids'.Nodup) (hLength : ids.length = m) (h : Denotes t ids a s)
    (h' : Denotes t' ids' b s) (hSpells : Spells 0 text s m) : SameShape t a t' b :=
  sameShape_of_arranged hNodup hNodup' hLength h h' hSpells.arranged

end Agree

end TypeTable

end CompactType
