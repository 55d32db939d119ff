import CompactType.Proofs.Drafts
import CompactType.Proofs.Growth
import Mathlib.Data.List.Forall2

/-!
# Which tree a type stands for

A type of a table denotes a tree if the kinds of the table, followed from the type, give that tree.
The named structs are numbered by a list of their ids, and the tree says at each of them whether
its body follows or its number stands for it.
-/

set_option autoImplicit false

namespace CompactType

namespace TypeTable

mutual

/-- `Denotes t ids id s`: the type with the given id stands for the tree, where the list has the
ids of the named structs by number. -/
inductive Denotes (t : TypeTable) (ids : List Nat) : Nat → Spec → Prop where
  | scalar {id : Nat} {k : Scalar} :
    t.kind? id = some (.scalar k) → Denotes t ids id (.scalar k)
  | pointer {id elem : Nat} {e : Spec} :
    t.kind? id = some (.pointer elem) → Denotes t ids elem e → Denotes t ids id (.pointer e)
  | array {id elem : Nat} {e : Spec} {count : UInt64} :
    t.kind? id = some (.array elem count) → Denotes t ids elem e →
    Denotes t ids id (.array e count)
  | vector {id elem : Nat} {e : Spec} {count : UInt32} :
    t.kind? id = some (.vector elem count) → Denotes t ids elem e →
    Denotes t ids id (.vector e count)
  | record {id : Nat} {elems : List Nat} {fields : List Spec} :
    t.kind? id = some (.struct none (some elems)) → DenotesAll t ids elems fields →
    Denotes t ids id (.record fields)
  | define {id number : Nat} {name : String} {elems : List Nat} {fields : List Spec} :
    ids[number]? = some id → t.kind? id = some (.struct (some name) (some elems)) →
    DenotesAll t ids elems fields → Denotes t ids id (.define number fields)
  | reference {id number : Nat} {name : String} {body : Option (List Nat)} :
    ids[number]? = some id → t.kind? id = some (.struct (some name) body) →
    Denotes t ids id (.reference number)
  | function {id ret : Nat} {elems : List Nat} {params : List Spec} {r : Spec}
    {variadic : Bool} :
    t.kind? id = some (.function elems ret variadic) → DenotesAll t ids elems params →
    Denotes t ids ret r → Denotes t ids id (.function params r variadic)

inductive DenotesAll (t : TypeTable) (ids : List Nat) : List Nat → List Spec → Prop where
  | nil : DenotesAll t ids [] []
  | cons {id : Nat} {rest : List Nat} {s : Spec} {specs : List Spec} :
    Denotes t ids id s → DenotesAll t ids rest specs → DenotesAll t ids (id :: rest) (s :: specs)

end

/-- The structs in the list are named by their numbers. -/
def NamedBy (t : TypeTable) (ids : List Nat) (name : Nat → String) : Prop :=
  ∀ n i, ids[n]? = some i → ∃ body, t.kind? i = some (.struct (some (name n)) body)

theorem denotesAll_iff {t : TypeTable} {ids elems : List Nat} {specs : List Spec} :
    DenotesAll t ids elems specs ↔ List.Forall₂ (Denotes t ids) elems specs := by
  constructor
  · intro h
    induction elems generalizing specs with
    | nil =>
      cases h
      exact .nil
    | cons id elems ih =>
      cases h with
      | cons hHead hTail => exact .cons hHead (ih hTail)
  · intro h
    induction h with
    | nil => exact .nil
    | cons hHead _ ih => exact .cons hHead ih

namespace Denotes

variable {t t' : TypeTable} {ids ids' : List Nat} {id : Nat} {s : Spec}

theorem exists_kind? (h : Denotes t ids id s) :
    ∃ k, t.kind? id = some k ∧ k.typeClass = s.typeClass := by
  cases h with
  | scalar hKind => exact ⟨_, hKind, rfl⟩
  | pointer hKind => exact ⟨_, hKind, rfl⟩
  | array hKind => exact ⟨_, hKind, rfl⟩
  | vector hKind => exact ⟨_, hKind, rfl⟩
  | record hKind => exact ⟨_, hKind, rfl⟩
  | define _ hKind => exact ⟨_, hKind, rfl⟩
  | reference _ hKind => exact ⟨_, hKind, rfl⟩
  | function hKind => exact ⟨_, hKind, rfl⟩

theorem classOf_eq (h : Denotes t ids id s) : t.classOf id = s.typeClass := by
  obtain ⟨k, hKind, hClass⟩ := h.exists_kind?
  rw [classOf, hKind, ← hClass]
  rfl

theorem lt_size (h : Denotes t ids id s) : id < t.size := by
  obtain ⟨k, hKind, -⟩ := h.exists_kind?
  exact lt_size_of_kind? hKind

end Denotes

theorem getElem?_of_isPrefix {ids ids' : List Nat} (h : ids <+: ids') {number id : Nat}
    (hId : ids[number]? = some id) : ids'[number]? = some id := by
  obtain ⟨rest, rfl⟩ := h
  exact List.getElem?_append_left (List.getElem?_eq_some_iff.mp hId).1 ▸ hId

mutual

theorem Denotes.mono {t t' : TypeTable} {ids ids' : List Nat} (hGrows : Grows t t')
    (hIds : ids <+: ids') {id : Nat} {s : Spec} (h : Denotes t ids id s) :
    Denotes t' ids' id s := by
  cases h with
  | scalar hKind => exact .scalar (hGrows.unnamed hKind rfl)
  | pointer hKind hElem => exact .pointer (hGrows.unnamed hKind rfl) (hElem.mono hGrows hIds)
  | array hKind hElem => exact .array (hGrows.unnamed hKind rfl) (hElem.mono hGrows hIds)
  | vector hKind hElem => exact .vector (hGrows.unnamed hKind rfl) (hElem.mono hGrows hIds)
  | record hKind hFields => exact .record (hGrows.unnamed hKind rfl) (hFields.mono hGrows hIds)
  | define hId hKind hFields =>
    exact .define (getElem?_of_isPrefix hIds hId) (hGrows.completed hKind)
      (hFields.mono hGrows hIds)
  | reference hId hKind =>
    obtain ⟨body, hKind'⟩ := hGrows.named hKind
    exact .reference (getElem?_of_isPrefix hIds hId) hKind'
  | function hKind hParams hRet =>
    exact .function (hGrows.unnamed hKind rfl) (hParams.mono hGrows hIds) (hRet.mono hGrows hIds)
termination_by sizeOf s

theorem DenotesAll.mono {t t' : TypeTable} {ids ids' : List Nat} (hGrows : Grows t t')
    (hIds : ids <+: ids') {elems : List Nat} {specs : List Spec}
    (h : DenotesAll t ids elems specs) : DenotesAll t' ids' elems specs := by
  cases h with
  | nil => exact .nil
  | cons hHead hTail => exact .cons (hHead.mono hGrows hIds) (hTail.mono hGrows hIds)
termination_by sizeOf specs

end

mutual

/-- A reference may stand for a definition, whose body is not followed then. -/
theorem Denotes.outline {t : TypeTable} {ids : List Nat} {id : Nat} {s : Spec}
    (h : Denotes t ids id s) : Denotes t ids id s.outline := by
  cases h with
  | scalar hKind => exact .scalar hKind
  | pointer hKind hElem => exact .pointer hKind hElem.outline
  | array hKind hElem => exact .array hKind hElem.outline
  | vector hKind hElem => exact .vector hKind hElem.outline
  | record hKind hFields => exact .record hKind hFields.outlines
  | define hId hKind => exact .reference hId hKind
  | reference hId hKind => exact .reference hId hKind
  | function hKind hParams hRet => exact .function hKind hParams.outlines hRet.outline
termination_by sizeOf s

theorem DenotesAll.outlines {t : TypeTable} {ids elems : List Nat} {specs : List Spec}
    (h : DenotesAll t ids elems specs) : DenotesAll t ids elems (Spec.outlines specs) := by
  cases h with
  | nil => exact .nil
  | cons hHead hTail => exact .cons hHead.outline hTail.outlines
termination_by sizeOf specs

end

/-- The struct with the given number has the body of the draft. -/
def HasBody (t : TypeTable) (ids : List Nat) (number : Nat) (d : Draft) : Prop :=
  ∃ id name elems fields, ids[number]? = some id ∧
    t.kind? id = some (.struct (some name) (some elems)) ∧ d.body = some fields ∧
    DenotesAll t ids elems fields

mutual

theorem Denotes.bodies (config : Config) {t : TypeTable} {ids : List Nat} {id n m : Nat}
    {s : Spec} (h : Denotes t ids id s) (hArranged : Arranged n s m) :
    EachFrom (HasBody t ids) n (s.drafts config) := by
  cases hArranged with
  | scalar | reference => exact eachFrom_nil
  | pointer hElem => cases h with | pointer _ h => exact h.bodies config hElem
  | array hElem => cases h with | array _ h => exact h.bodies config hElem
  | vector hElem => cases h with | vector _ h => exact h.bodies config hElem
  | record hFields => cases h with | record _ h => exact h.bodies config hFields
  | define hFields =>
    cases h with
    | define hId hKind h =>
      exact eachFrom_cons.mpr
        ⟨⟨_, _, _, _, hId, hKind, rfl, h.outlines⟩, h.bodies config hFields⟩
  | function _ hParams _ hRet =>
    cases h with
    | function _ h h' =>
      refine eachFrom_append.mpr ⟨h.bodies config hParams, ?_⟩
      rw [hParams.length_draftsAll config]
      exact h'.bodies config hRet
termination_by sizeOf s

theorem DenotesAll.bodies (config : Config) {t : TypeTable} {ids elems : List Nat} {n m : Nat}
    {specs : List Spec} (h : DenotesAll t ids elems specs) (hArranged : ArrangedAll n specs m) :
    EachFrom (HasBody t ids) n (Spec.draftsAll config specs) := by
  cases hArranged with
  | nil => exact eachFrom_nil
  | cons hHead hTail =>
    cases h with
    | cons h h' =>
      refine eachFrom_append.mpr ⟨h.bodies config hHead, ?_⟩
      rw [hHead.length_drafts config]
      exact h'.bodies config hTail
termination_by sizeOf specs

end

mutual

/-- What a tree leaves out where it refers to a struct is in the bodies that it defines. -/
theorem Denotes.of_outline (config : Config) {t : TypeTable} {ids : List Nat} {id n m : Nat}
    {s : Spec} (h : Denotes t ids id s.outline) (hArranged : Arranged n s m)
    (hBodies : EachFrom (HasBody t ids) n (s.drafts config)) : Denotes t ids id s := by
  cases hArranged with
  | scalar | reference => exact h
  | pointer hElem =>
    cases h with
    | pointer hKind h => exact .pointer hKind (h.of_outline config hElem hBodies)
  | array hElem =>
    cases h with
    | array hKind h => exact .array hKind (h.of_outline config hElem hBodies)
  | vector hElem =>
    cases h with
    | vector hKind h => exact .vector hKind (h.of_outline config hElem hBodies)
  | record hFields =>
    cases h with
    | record hKind h => exact .record hKind (h.of_outlines config hFields hBodies)
  | define hFields =>
    cases h with
    | reference hId hKind =>
      obtain ⟨⟨id', _, elems, _, hId', hKind', hBody, hElems⟩, hRest⟩ := eachFrom_cons.mp hBodies
      obtain rfl : id = id' := Option.some.inj (hId.symm.trans hId')
      obtain rfl := Option.some.inj hBody
      exact .define hId hKind' (hElems.of_outlines config hFields hRest)
  | function _ hParams _ hRet =>
    cases h with
    | function hKind h h' =>
      obtain ⟨hFirst, hSecond⟩ := eachFrom_append.mp hBodies
      rw [hParams.length_draftsAll config] at hSecond
      exact .function hKind (h.of_outlines config hParams hFirst)
        (h'.of_outline config hRet hSecond)
termination_by sizeOf s

theorem DenotesAll.of_outlines (config : Config) {t : TypeTable} {ids elems : List Nat}
    {n m : Nat} {specs : List Spec} (h : DenotesAll t ids elems (Spec.outlines specs))
    (hArranged : ArrangedAll n specs m)
    (hBodies : EachFrom (HasBody t ids) n (Spec.draftsAll config specs)) :
    DenotesAll t ids elems specs := by
  cases hArranged with
  | nil => exact h
  | cons hHead hTail =>
    cases h with
    | cons h h' =>
      obtain ⟨hFirst, hSecond⟩ := eachFrom_append.mp hBodies
      rw [hHead.length_drafts config] at hSecond
      exact .cons (h.of_outline config hHead hFirst) (h'.of_outlines config hTail hSecond)
termination_by sizeOf specs

end

end TypeTable

end CompactType
