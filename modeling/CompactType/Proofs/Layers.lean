import CompactType.Proofs.Denotation
import Mathlib.Data.Finset.Card
import Mathlib.Data.Finset.Range
import Mathlib.Logic.Relation

/-!
# Layers inside named structs

How deep a type is until named structs or scalars are reached. A type that stands for a tree does
not contain itself in between, so the number of types below it bounds the depth, and the budget
for printing is large enough.
-/

set_option autoImplicit false

namespace CompactType

namespace TypeTable

/-- The second type is a part of the first one, which is not a named struct. -/
def Inner (t : TypeTable) (a b : Nat) : Prop :=
  ∃ k, t.kind? a = some k ∧ k.isNamed = false ∧ b ∈ k.parts

open scoped Classical in
/-- The types inside a type, down to named structs. -/
noncomputable def below (t : TypeTable) (a : Nat) : Finset Nat :=
  (Finset.range t.size).filter (Relation.TransGen t.Inner a)

noncomputable def rank (t : TypeTable) (a : Nat) : Nat := (t.below a).card

section Rank

variable {t : TypeTable} {a b : Nat}

theorem mem_below : b ∈ t.below a ↔ b < t.size ∧ Relation.TransGen t.Inner a b := by
  simp [below]

theorem rank_le_size (t : TypeTable) (a : Nat) : t.rank a ≤ t.size := by
  have hSubset : t.below a ⊆ Finset.range t.size :=
    fun _ hb => Finset.mem_range.mpr (mem_below.mp hb).1
  simpa [rank] using Finset.card_le_card hSubset

theorem rank_lt_of_inner (h : t.Inner a b) (hb : b < t.size)
    (hAcyclic : ¬Relation.TransGen t.Inner b b) : t.rank b < t.rank a := by
  apply Finset.card_lt_card
  have hSubset : t.below b ⊆ t.below a := by
    intro c hc
    obtain ⟨hLt, hBelow⟩ := mem_below.mp hc
    exact mem_below.mpr ⟨hLt, .head h hBelow⟩
  refine (Finset.ssubset_iff_of_subset hSubset).mpr ⟨b, mem_below.mpr ⟨hb, .single h⟩, ?_⟩
  exact fun hMem => hAcyclic (mem_below.mp hMem).2

end Rank

theorem DenotesAll.exists_of_mem {t : TypeTable} {ids elems : List Nat} {specs : List Spec}
    (h : DenotesAll t ids elems specs) {b : Nat} (hb : b ∈ elems) :
    ∃ s ∈ specs, Denotes t ids b s := by
  induction elems generalizing specs with
  | nil => cases hb
  | cons id elems ih =>
    cases h with
    | @cons _ _ s _ hHead hTail =>
      obtain rfl | hb := List.mem_cons.mp hb
      · exact ⟨s, List.mem_cons_self, hHead⟩
      · obtain ⟨s', hs', hDenotes⟩ := ih hTail hb
        exact ⟨s', List.mem_cons_of_mem _ hs', hDenotes⟩

namespace Denotes

variable {t : TypeTable} {ids : List Nat} {a b : Nat} {s : Spec}

theorem inner (h : Denotes t ids a s) (hInner : t.Inner a b) :
    ∃ s', Denotes t ids b s' ∧ sizeOf s' < sizeOf s := by
  obtain ⟨k, hKind, hNot, hb⟩ := hInner
  cases h with
  | scalar hKind' =>
    cases hKind.symm.trans hKind'
    cases hb
  | pointer hKind' h =>
    cases hKind.symm.trans hKind'
    obtain rfl := List.mem_singleton.mp hb
    refine ⟨_, h, ?_⟩
    rw [Spec.pointer.sizeOf_spec]
    omega
  | array hKind' h =>
    cases hKind.symm.trans hKind'
    obtain rfl := List.mem_singleton.mp hb
    refine ⟨_, h, ?_⟩
    rw [Spec.array.sizeOf_spec]
    omega
  | vector hKind' h =>
    cases hKind.symm.trans hKind'
    obtain rfl := List.mem_singleton.mp hb
    refine ⟨_, h, ?_⟩
    rw [Spec.vector.sizeOf_spec]
    omega
  | record hKind' h =>
    cases hKind.symm.trans hKind'
    obtain ⟨s', hs', hDenotes⟩ := h.exists_of_mem hb
    have hSize := List.sizeOf_lt_of_mem hs'
    refine ⟨s', hDenotes, ?_⟩
    rw [Spec.record.sizeOf_spec]
    omega
  | define _ hKind' | reference _ hKind' =>
    cases hKind.symm.trans hKind'
    cases hNot
  | function hKind' h h' =>
    cases hKind.symm.trans hKind'
    rw [Spec.function.sizeOf_spec]
    obtain hb | hb := List.mem_append.mp hb
    · obtain ⟨s', hs', hDenotes⟩ := h.exists_of_mem hb
      have hSize := List.sizeOf_lt_of_mem hs'
      exact ⟨s', hDenotes, by omega⟩
    · obtain rfl := List.mem_singleton.mp hb
      exact ⟨_, h', by omega⟩

theorem transGen (h : Denotes t ids a s) (hBelow : Relation.TransGen t.Inner a b) :
    ∃ s', Denotes t ids b s' ∧ sizeOf s' < sizeOf s := by
  induction hBelow with
  | single hInner => exact h.inner hInner
  | tail _ hInner ih =>
    obtain ⟨s', h', hLt⟩ := ih
    obtain ⟨s'', h'', hLt'⟩ := h'.inner hInner
    exact ⟨s'', h'', hLt'.trans hLt⟩

theorem acyclic (h : Denotes t ids a s) : ¬Relation.TransGen t.Inner a a := by
  intro hCycle
  induction hSize : sizeOf s using Nat.strong_induction_on generalizing s with
  | _ n ih =>
    obtain ⟨s', h', hLt⟩ := h.transGen hCycle
    exact ih _ (hSize ▸ hLt) h' rfl

theorem rank_lt (h : Denotes t ids b s) (hInner : t.Inner a b) : t.rank b < t.rank a :=
  rank_lt_of_inner hInner h.lt_size h.acyclic

end Denotes

end TypeTable

namespace Spec

mutual

/-- The printed form of what a tree stands for, where struct names are given by number. -/
def printed (name : Nat → String) : Spec → String
  | scalar k => k.text
  | pointer e => "*" ++ e.printed name
  | array e n => "[" ++ toString n.toNat ++ " x " ++ e.printed name ++ "]"
  | vector e n => "<" ++ toString n.toNat ++ " x " ++ e.printed name ++ ">"
  | record fields => "\x7b" ++ ", ".intercalate (printedAll name fields) ++ "\x7d"
  | define number _ | reference number => "%" ++ name number
  | function params ret variadic =>
    "fn(" ++ ", ".intercalate
        (if variadic then printedAll name params ++ ["..."] else printedAll name params) ++
      ") -> " ++ ret.printed name

def printedAll (name : Nat → String) : List Spec → List String
  | [] => []
  | s :: rest => s.printed name :: printedAll name rest

end

section Printed

variable (name : Nat → String) (e ret : Spec) (fields params : List Spec)

theorem printed_scalar (k : Scalar) : (scalar k).printed name = k.text := rfl

theorem printed_pointer : (pointer e).printed name = "*" ++ e.printed name := rfl

theorem printed_array (count : UInt64) : (array e count).printed name =
    "[" ++ toString count.toNat ++ " x " ++ e.printed name ++ "]" := rfl

theorem printed_vector (count : UInt32) : (vector e count).printed name =
    "<" ++ toString count.toNat ++ " x " ++ e.printed name ++ ">" := rfl

theorem printed_record : (record fields).printed name =
    "\x7b" ++ ", ".intercalate (printedAll name fields) ++ "\x7d" := rfl

theorem printed_reference (number : Nat) :
    (reference number).printed name = "%" ++ name number := rfl

theorem printed_function (variadic : Bool) : (function params ret variadic).printed name =
    "fn(" ++ ", ".intercalate
        (if variadic then printedAll name params ++ ["..."] else printedAll name params) ++
      ") -> " ++ ret.printed name := rfl

end Printed

end Spec

namespace TypeTable

theorem Denotes.rank_lt_of_mem {t : TypeTable} {ids : List Nat} {a b : Nat} {s : Spec} {k : Kind}
    (h : Denotes t ids b s) (hKind : t.kind? a = some k) (hNot : k.isNamed = false)
    (hb : b ∈ k.parts) {layers : Nat} (hLayers : t.rank a < layers + 1) : t.rank b < layers := by
  have hRank := h.rank_lt ⟨k, hKind, hNot, hb⟩
  omega

theorem textWithin_succ {t : TypeTable} {id layers : Nat} {k : Kind} (h : t.kind? id = some k) :
    t.textWithin (layers + 1) id = textOf (t.textWithin layers) k := by
  simp only [TypeTable.textWithin, kind, h]
  rfl

mutual

theorem Denotes.textWithin {t : TypeTable} {ids : List Nat} {name : Nat → String}
    (hNames : t.NamedBy ids name) {id : Nat} {s : Spec} (h : Denotes t ids id s) {layers : Nat}
    (hLayers : t.rank id < layers) : t.textWithin layers id = .ok (s.printed name) := by
  obtain ⟨layers, rfl⟩ := Nat.exists_eq_succ_of_ne_zero (n := layers) (by omega)
  cases h with
  | scalar hKind => exact textWithin_succ hKind
  | pointer hKind h =>
    have hText := h.textWithin hNames (h.rank_lt_of_mem hKind rfl (by simp [Kind.parts]) hLayers)
    rw [textWithin_succ hKind, textOf, hText]
    rfl
  | array hKind h =>
    have hText := h.textWithin hNames (h.rank_lt_of_mem hKind rfl (by simp [Kind.parts]) hLayers)
    rw [textWithin_succ hKind, textOf, hText]
    rfl
  | vector hKind h =>
    have hText := h.textWithin hNames (h.rank_lt_of_mem hKind rfl (by simp [Kind.parts]) hLayers)
    rw [textWithin_succ hKind, textOf, hText]
    rfl
  | record hKind h =>
    have hText := h.mapM_textWithin hNames fun e s he hDenotes =>
      hDenotes.rank_lt_of_mem hKind rfl he hLayers
    rw [textWithin_succ hKind, textOf, Option.getD_some, hText]
    rfl
  | define hId hKind _ | reference hId hKind =>
    obtain ⟨body, hKind'⟩ := hNames _ _ hId
    rw [textWithin_succ hKind']
    rfl
  | function hKind h h' =>
    have hTexts := h.mapM_textWithin hNames fun e s he hDenotes =>
      hDenotes.rank_lt_of_mem hKind rfl (List.mem_append_left _ he) hLayers
    have hText := h'.textWithin hNames
      (h'.rank_lt_of_mem hKind rfl (List.mem_append_right _ (List.mem_singleton_self _)) hLayers)
    rw [textWithin_succ hKind, textOf, hTexts, hText]
    rfl
termination_by sizeOf s

theorem DenotesAll.mapM_textWithin {t : TypeTable} {ids : List Nat} {name : Nat → String}
    (hNames : t.NamedBy ids name) {elems : List Nat} {specs : List Spec}
    (h : DenotesAll t ids elems specs) {layers : Nat}
    (hLayers : ∀ e s, e ∈ elems → Denotes t ids e s → t.rank e < layers) :
    elems.mapM (t.textWithin layers) = .ok (Spec.printedAll name specs) := by
  cases h with
  | nil => rfl
  | cons hHead hTail =>
    have hFirst := hHead.textWithin hNames (hLayers _ _ List.mem_cons_self hHead)
    have hRest := hTail.mapM_textWithin hNames fun e s he =>
      hLayers e s (List.mem_cons_of_mem _ he)
    rw [List.mapM_cons, hFirst, hRest]
    rfl
termination_by sizeOf specs

end

theorem Denotes.text_eq {t : TypeTable} {ids : List Nat} {name : Nat → String}
    (hNames : t.NamedBy ids name) {id : Nat} {s : Spec} (h : Denotes t ids id s) :
    t.text id = .ok (s.printed name) := by
  have hRank := t.rank_le_size id
  exact h.textWithin hNames (by omega)

end TypeTable

end CompactType
