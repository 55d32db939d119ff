import CompactType.Proofs.CanonicalText
import CompactType.Proofs.Described
import CompactType.Proofs.Shape
import Mathlib.Data.Set.Card

/-!
# Walking over lawful types

If all types that can be reached from a type obey the rules for specifications, the walk that
describes the type comes to an end. It gives an arranged tree that the type stands for, which can
be spelled if there are numbers enough.
-/

set_option autoImplicit false

namespace CompactType

namespace TypeTable

/-- The second type is a part of the first one. -/
def Refers (t : TypeTable) (a b : Nat) : Prop := ∃ k, t.kind? a = some k ∧ b ∈ k.parts

/-- The rules for what a kind may be made of. Structs without a body are against them. -/
def Obeys (t : TypeTable) : Kind → Prop
  | .scalar _ | .pointer _ => True
  | .array e count => (t.classOf e).isValue = true ∧ 0 < count
  | .vector e count => (t.classOf e).isLane = true ∧ 0 < count
  | .struct _ none => False
  | .struct _ (some fields) => fields ≠ [] ∧ ∀ f ∈ fields, (t.classOf f).isValue = true
  | .function params ret _ =>
    (∀ p ∈ params, (t.classOf p).isValue = true) ∧ t.classOf ret ≠ .function

/-- What can be reached from the type obeys the rules, and its cycles pass through named structs. -/
structure WellMade (t : TypeTable) (root : Nat) : Prop where
  obeys {a : Nat} : Relation.ReflTransGen t.Refers root a → ∃ k, t.kind? a = some k ∧ t.Obeys k
  acyclic {a : Nat} : Relation.ReflTransGen t.Refers root a → ¬Relation.TransGen t.Inner a a

/-- The type is well made, and no more named structs can be reached from it than there are numbers
for them. -/
structure Lawful (t : TypeTable) (root : Nat) : Prop extends WellMade t root where
  bounded : {a | Relation.ReflTransGen t.Refers root a ∧ t.IsNamed a}.encard ≤ UInt32.size

instance (t : TypeTable) : DecidablePred t.Obeys
  | .scalar _ | .pointer _ => .isTrue trivial
  | .array .. | .vector .. | .function .. => inferInstanceAs (Decidable (_ ∧ _))
  | .struct _ none => .isFalse id
  | .struct _ (some _) => inferInstanceAs (Decidable (_ ∧ _))

/-- Types with the property obey the rules and refer to such types only. The unnamed among them
refer to smaller ids. -/
def ClosedUnder (t : TypeTable) (P : Nat → Prop) : Prop :=
  ∀ a, P a → ∃ k ∈ t.kind? a, t.Obeys k ∧ ∀ b ∈ k.parts, P b ∧ (k.isNamed = false → b < a)

namespace ClosedUnder

variable {t : TypeTable} {P : Nat → Prop} {root a b : Nat}

theorem parts (h : t.ClosedUnder P) (ha : P a) {k : Kind} (hKind : t.kind? a = some k)
    (hPart : b ∈ k.parts) : P b ∧ (k.isNamed = false → b < a) := by
  obtain ⟨k', hKind', -, hParts⟩ := h a ha
  obtain rfl := Option.some.inj (hKind.symm.trans hKind')
  exact hParts b hPart

theorem of_reaches (h : t.ClosedUnder P) (hRoot : P root)
    (hReach : Relation.ReflTransGen t.Refers root a) : P a := by
  induction hReach with
  | refl => exact hRoot
  | tail _ hStep ih =>
    obtain ⟨k, hKind, hPart⟩ := hStep
    exact (h.parts ih hKind hPart).1

theorem lt_of_below (h : t.ClosedUnder P) (ha : P a) (hBelow : Relation.TransGen t.Inner a b) :
    P b ∧ b < a := by
  induction hBelow with
  | single hInner =>
    obtain ⟨k, hKind, hNot, hPart⟩ := hInner
    exact (h.parts ha hKind hPart).imp_right fun hLt => hLt hNot
  | tail _ hInner ih =>
    obtain ⟨k, hKind, hNot, hPart⟩ := hInner
    obtain ⟨hb, hLt⟩ := h.parts ih.1 hKind hPart
    exact ⟨hb, (hLt hNot).trans ih.2⟩

theorem wellMade (h : t.ClosedUnder P) (hRoot : P root) : WellMade t root where
  obeys hReach := by
    obtain ⟨k, hKind, hObeys, -⟩ := h _ (h.of_reaches hRoot hReach)
    exact ⟨k, hKind, hObeys⟩
  acyclic hReach hCycle :=
    Nat.lt_irrefl _ (h.lt_of_below (h.of_reaches hRoot hReach) hCycle).2

theorem lawful (h : t.ClosedUnder P) (hRoot : P root) {l : List Nat}
    (hNamed : ∀ a, P a → t.IsNamed a → a ∈ l) (hLength : l.length ≤ UInt32.size) :
    Lawful t root where
  toWellMade := h.wellMade hRoot
  bounded := by
    have hSubset : {a | Relation.ReflTransGen t.Refers root a ∧ t.IsNamed a} ⊆
        (l.toFinset : Set Nat) := by
      intro a ha
      simpa using hNamed a (h.of_reaches hRoot ha.1) ha.2
    refine (Set.encard_le_encard hSubset).trans ?_
    rw [Set.encard_coe_eq_coe_finsetCard]
    exact_mod_cast l.toFinset_card_le.trans hLength

end ClosedUnder

/-- A list of types that obey the rules and refer to each other only is lawful, if the unnamed
types refer to smaller ids. -/
theorem Lawful.of_closed {t : TypeTable} {root : Nat} {l : List Nat} (hRoot : root ∈ l)
    (hClosed : ∀ a ∈ l, ∃ k ∈ t.kind? a, t.Obeys k ∧
      ∀ b ∈ k.parts, b ∈ l ∧ (k.isNamed = false → b < a))
    (hLength : l.length ≤ UInt32.size) : Lawful t root :=
  ClosedUnder.lawful (P := (· ∈ l)) hClosed hRoot (fun _ ha _ => ha) hLength

/-- The structs met on a walk from the type. -/
structure Met (t : TypeTable) (root : Nat) (seen : Seen) : Prop where
  nodup : seen.Nodup
  mem {a : Nat} : a ∈ seen → Relation.ReflTransGen t.Refers root a ∧ t.IsNamed a

namespace Met

variable {t : TypeTable} {root : Nat} {seen : Seen}

theorem nil : Met t root [] := ⟨List.nodup_nil, nofun⟩

theorem length_le_limit (h : Met t root seen) (hLawful : Lawful t root) :
    seen.length ≤ UInt32.size := by
  have hSubset : (seen.toFinset : Set Nat) ⊆
      {a | Relation.ReflTransGen t.Refers root a ∧ t.IsNamed a} := by
    intro a ha
    exact h.mem (by simpa using ha)
  have hCard := (Set.encard_le_encard hSubset).trans hLawful.bounded
  rw [Set.encard_coe_eq_coe_finsetCard, List.toFinset_card_of_nodup h.nodup] at hCard
  exact_mod_cast hCard

theorem length_le_size (h : Met t root seen) : seen.length ≤ t.size := by
  refine length_le_size_of_nodup h.nodup fun a ha => ?_
  obtain ⟨_, _, _, hKind⟩ := h.mem ha
  exact ⟨_, hKind⟩

theorem concat (h : Met t root seen) {a : Nat} (hNot : a ∉ seen)
    (ha : Relation.ReflTransGen t.Refers root a) (hNamed : t.IsNamed a) :
    Met t root (seen ++ [a]) where
  nodup := by
    refine List.nodup_append.mpr ⟨h.nodup, by simp, ?_⟩
    intro b hb c hc
    rw [List.mem_singleton.mp hc]
    rintro rfl
    exact hNot hb
  mem hMem := by
    obtain hOld | hNew := List.mem_append.mp hMem
    · exact h.mem hOld
    · exact List.mem_singleton.mp hNew ▸ ⟨ha, hNamed⟩

end Met

structure Walked (t : TypeTable) (root id : Nat) (seen : Seen) (s : Spec) (after : Seen) :
    Prop where
  met : Met t root after
  isPrefix : seen <+: after
  denotes : Denotes t after id s
  arranged : Arranged seen.length s after.length

structure WalkedAll (t : TypeTable) (root : Nat) (elems : List Nat) (seen : Seen)
    (specs : List Spec) (after : Seen) : Prop where
  met : Met t root after
  isPrefix : seen <+: after
  denotes : DenotesAll t after elems specs
  arranged : ArrangedAll seen.length specs after.length

/-- What comes out is a walk over the type that ends well. -/
def WalksTo (t : TypeTable) (root id : Nat) (seen : Seen) (result : Except Refusal (Spec × Seen)) :
    Prop :=
  ∃ s after, result = .ok (s, after) ∧ Walked t root id seen s after

/-- Walks over the types in the list end well, whatever is met in between. -/
def WalksParts (t : TypeTable) (root : Nat) (one : Nat → Seen → Except Refusal (Spec × Seen))
    (elems : List Nat) (seen : Seen) : Prop :=
  ∀ e ∈ elems, ∀ before, Met t root before → seen <+: before →
    WalksTo t root e before (one e before)

section Walk

variable {t : TypeTable} {root id : Nat} {seen : Seen}
  {one : Nat → Seen → Except Refusal (Spec × Seen)}

theorem WalksParts.first {e : Nat} {elems : List Nat}
    (hOne : WalksParts t root one (e :: elems) seen) (hMet : Met t root seen) :
    WalksTo t root e seen (one e seen) :=
  hOne e List.mem_cons_self seen hMet (List.prefix_refl _)

theorem WalksParts.mono {elems more : List Nat} {before : Seen}
    (hOne : WalksParts t root one elems seen) (hSubset : more ⊆ elems) (hPrefix : seen <+: before) :
    WalksParts t root one more before := by
  intro e he after hAfter hPrefix'
  exact hOne e (hSubset he) after hAfter (hPrefix.trans hPrefix')

theorem WalksParts.describeAll {elems : List Nat} (hMet : Met t root seen)
    (hOne : WalksParts t root one elems seen) :
    ∃ specs after, describeAll one elems seen = .ok (specs, after) ∧
      WalkedAll t root elems seen specs after := by
  induction elems generalizing seen with
  | nil => exact ⟨[], seen, rfl, hMet, List.prefix_refl _, .nil, .nil⟩
  | cons e elems ih =>
    obtain ⟨s, between, hHead, hWalked⟩ := hOne.first hMet
    obtain ⟨specs, after, hTail, hWalkedAll⟩ :=
      ih hWalked.met (hOne.mono (List.subset_cons_self _ _) hWalked.isPrefix)
    refine ⟨s :: specs, after, ?_, hWalkedAll.met, hWalked.isPrefix.trans hWalkedAll.isPrefix,
      .cons (hWalked.denotes.mono (.refl t) hWalkedAll.isPrefix) hWalkedAll.denotes,
      .cons hWalked.arranged hWalkedAll.arranged⟩
    rw [TypeTable.describeAll]
    exact (bind_of_ok hHead _).trans (bind_of_ok hTail _)

theorem DenotesAll.forall_typeClass {ids elems : List Nat} {specs : List Spec}
    (P : TypeClass → Prop) (h : DenotesAll t ids elems specs)
    (hElems : ∀ e ∈ elems, P (t.classOf e)) : ∀ s ∈ specs, P s.typeClass := by
  induction specs generalizing elems with
  | nil => simp
  | cons s specs ih =>
    cases h with
    | cons hHead hTail =>
      intro s' hs'
      obtain rfl | hs' := List.mem_cons.mp hs'
      · exact hHead.classOf_eq ▸ hElems _ List.mem_cons_self
      · exact ih hTail (fun e he => hElems e (List.mem_cons_of_mem _ he)) s' hs'

theorem DenotesAll.ne_nil {ids elems : List Nat} {specs : List Spec}
    (h : DenotesAll t ids elems specs) (hNe : elems ≠ []) : specs ≠ [] := by
  cases h with
  | nil => exact absurd rfl hNe
  | cons => exact List.cons_ne_nil _ _

namespace Met

variable {elem ret : Nat} {fields params : List Nat}

theorem pointer (hMet : Met t root seen) (hKind : t.kind? id = some (.pointer elem))
    (hOne : WalksParts t root one [elem] seen) :
    WalksTo t root id seen (t.describeLayer one id (.pointer elem) seen) := by
  obtain ⟨s, after, hElem, hWalked⟩ := hOne.first hMet
  exact ⟨_, _, bind_of_ok hElem _, hWalked.met, hWalked.isPrefix, .pointer hKind hWalked.denotes,
    .pointer hWalked.arranged⟩

theorem array {count : UInt64} (hMet : Met t root seen)
    (hKind : t.kind? id = some (.array elem count)) (hObeys : t.Obeys (.array elem count))
    (hOne : WalksParts t root one [elem] seen) :
    WalksTo t root id seen (t.describeLayer one id (.array elem count) seen) := by
  obtain ⟨s, after, hElem, hWalked⟩ := hOne.first hMet
  have hValue := hWalked.denotes.classOf_eq ▸ hObeys.1
  exact ⟨_, _, bind_of_ok hElem _, hWalked.met, hWalked.isPrefix, .array hKind hWalked.denotes,
    .array hWalked.arranged hValue hObeys.2⟩

theorem vector {count : UInt32} (hMet : Met t root seen)
    (hKind : t.kind? id = some (.vector elem count)) (hObeys : t.Obeys (.vector elem count))
    (hOne : WalksParts t root one [elem] seen) :
    WalksTo t root id seen (t.describeLayer one id (.vector elem count) seen) := by
  obtain ⟨s, after, hElem, hWalked⟩ := hOne.first hMet
  have hLane := hWalked.denotes.classOf_eq ▸ hObeys.1
  exact ⟨_, _, bind_of_ok hElem _, hWalked.met, hWalked.isPrefix, .vector hKind hWalked.denotes,
    .vector hWalked.arranged hLane hObeys.2⟩

theorem record (hMet : Met t root seen) (hKind : t.kind? id = some (.struct none (some fields)))
    (hObeys : t.Obeys (.struct none (some fields))) (hOne : WalksParts t root one fields seen) :
    WalksTo t root id seen (t.describeLayer one id (.struct none (some fields)) seen) := by
  have hSeen : seen.idxOf? id = none := by
    rw [List.idxOf?_eq_none_iff]
    intro hMem
    obtain ⟨-, _, _, hNamed⟩ := hMet.mem hMem
    cases hKind.symm.trans hNamed
  obtain ⟨specs, after, hFields, hWalkedAll⟩ := hOne.describeAll hMet
  have hValue := hWalkedAll.denotes.forall_typeClass (·.isValue = true) hObeys.2
  exact ⟨_, _, describeLayer_record hSeen hFields, hWalkedAll.met, hWalkedAll.isPrefix,
    .record hKind hWalkedAll.denotes,
    .record hWalkedAll.arranged (hWalkedAll.denotes.ne_nil hObeys.1) hValue⟩

theorem reference {name : String} {body : Option (List Nat)} {number : Nat} (hMet : Met t root seen)
    (hKind : t.kind? id = some (.struct (some name) body)) (hSeen : seen.idxOf? id = some number) :
    WalksTo t root id seen (t.describeLayer one id (.struct (some name) body) seen) := by
  obtain ⟨hLt, hId, -⟩ := List.idxOf?_eq_some_iff.mp hSeen
  exact ⟨_, _, describeLayer_reference hSeen, hMet, List.prefix_refl _,
    .reference (List.getElem?_eq_some_iff.mpr ⟨hLt, hId⟩) hKind,
    .reference hLt⟩

theorem define {name : String} (hMet : Met t root (seen ++ [id]))
    (hKind : t.kind? id = some (.struct (some name) (some fields)))
    (hObeys : t.Obeys (.struct (some name) (some fields))) (hSeen : seen.idxOf? id = none)
    (hOne : WalksParts t root one fields (seen ++ [id])) :
    WalksTo t root id seen (t.describeLayer one id (.struct (some name) (some fields)) seen) := by
  obtain ⟨specs, after, hFields, hWalkedAll⟩ := hOne.describeAll hMet
  have hId : after[seen.length]? = some id := getElem?_of_isPrefix hWalkedAll.isPrefix (by simp)
  have hValue := hWalkedAll.denotes.forall_typeClass (·.isValue = true) hObeys.2
  have hArranged := hWalkedAll.arranged
  rw [List.length_append, List.length_singleton] at hArranged
  exact ⟨_, _, describeLayer_define hSeen hFields, hWalkedAll.met,
    (List.prefix_append _ _).trans hWalkedAll.isPrefix, .define hId hKind hWalkedAll.denotes,
    .define hArranged (hWalkedAll.denotes.ne_nil hObeys.1) hValue⟩

theorem function {variadic : Bool} (hMet : Met t root seen)
    (hKind : t.kind? id = some (.function params ret variadic))
    (hObeys : t.Obeys (.function params ret variadic))
    (hOne : WalksParts t root one (params ++ [ret]) seen) :
    WalksTo t root id seen (t.describeLayer one id (.function params ret variadic) seen) := by
  obtain ⟨specs, between, hParams, hWalkedAll⟩ :=
    (hOne.mono (List.subset_append_left _ _) (List.prefix_refl _)).describeAll hMet
  obtain ⟨s, after, hRet, hWalked⟩ :=
    (hOne.mono (List.subset_append_right _ _) hWalkedAll.isPrefix).first hWalkedAll.met
  have hValue := hWalkedAll.denotes.forall_typeClass (·.isValue = true) hObeys.1
  have hNot := hWalked.denotes.classOf_eq ▸ hObeys.2
  exact ⟨_, _, (bind_of_ok hParams _).trans (bind_of_ok hRet _), hWalked.met,
    hWalkedAll.isPrefix.trans hWalked.isPrefix,
    .function hKind (hWalkedAll.denotes.mono (.refl t) hWalked.isPrefix) hWalked.denotes,
    .function variadic hWalkedAll.arranged hValue hWalked.arranged hNot⟩

end Met

theorem WellMade.walksTo (hMade : WellMade t root) {layers : Nat}
    (hReach : Relation.ReflTransGen t.Refers root id) (hMet : Met t root seen)
    (hLayers : t.budget seen.length id < layers) :
    WalksTo t root id seen (t.describeWithin layers id seen) := by
  induction layers generalizing id seen with
  | zero => omega
  | succ layers ih =>
    obtain ⟨k, hKind, hObeys⟩ := hMade.obeys hReach
    have hParts (hNot : k.isNamed = false) :
        WalksParts t root (t.describeWithin layers) k.parts seen := by
      intro e he before hBefore hPrefix
      have hReach' := hReach.tail ⟨k, hKind, he⟩
      obtain ⟨_, hKind', -⟩ := hMade.obeys hReach'
      have hRank := rank_lt_of_inner ⟨k, hKind, hNot, he⟩ (lt_size_of_kind? hKind')
        (hMade.acyclic hReach')
      have hBudget := budget_lt_of_rank_lt hRank hLayers
      exact ih hReach' hBefore ((budget_le_of_le hPrefix.length_le e).trans_lt hBudget)
    rw [describeWithin_succ hKind]
    cases k with
    | scalar k =>
      exact ⟨_, _, rfl, hMet, List.prefix_refl _, .scalar hKind, .scalar k⟩
    | pointer e => exact hMet.pointer hKind (hParts rfl)
    | array e count => exact hMet.array hKind hObeys (hParts rfl)
    | vector e count => exact hMet.vector hKind hObeys (hParts rfl)
    | function params ret variadic => exact hMet.function hKind hObeys (hParts rfl)
    | struct name body =>
      cases body with
      | none => exact hObeys.elim
      | some fields =>
        cases name with
        | none => exact hMet.record hKind hObeys (hParts rfl)
        | some label =>
          cases hSeen : seen.idxOf? id with
          | some number => exact hMet.reference hKind hSeen
          | none =>
            have hMet' := hMet.concat (List.idxOf?_eq_none_iff.mp hSeen) hReach ⟨_, _, hKind⟩
            have hRoom := hMet'.length_le_size
            rw [List.length_append, List.length_singleton] at hRoom
            refine hMet'.define hKind hObeys hSeen ?_
            intro e he before hBefore hPrefix
            have hLength := hPrefix.length_le
            rw [List.length_append, List.length_singleton] at hLength
            have hBudget := budget_succ_lt (b := e) hRoom hLayers
            exact ih (hReach.tail ⟨_, hKind, he⟩) hBefore
              ((budget_le_of_le hLength e).trans_lt hBudget)

end Walk

theorem WellMade.exists_describe {t : TypeTable} {root : Nat} (h : WellMade t root) :
    ∃ s ids, t.describe root = .ok s ∧ Met t root ids ∧ Denotes t ids root s ∧
      Arranged 0 s ids.length := by
  obtain ⟨s, ids, hDescribed, hWalked⟩ := h.walksTo .refl .nil (t.budget_zero_lt root)
  refine ⟨s, ids, ?_, hWalked.met, hWalked.denotes, hWalked.arranged⟩
  rw [describe, hDescribed]
  rfl

theorem encode_of_describe {t : TypeTable} {root : Nat} {s : Spec} (h : t.describe root = .ok s) :
    t.encode root = .ok s.text := by
  rw [encode, h]
  rfl

theorem Lawful.exists_denotes {t : TypeTable} {root : Nat} (h : Lawful t root) :
    ∃ s ids, t.encode root = .ok s.text ∧ ids.Nodup ∧ Denotes t ids root s ∧
      Spells 0 s.spelling s ids.length := by
  obtain ⟨s, ids, hDescribe, hMet, hDenotes, hArranged⟩ := h.toWellMade.exists_describe
  exact ⟨s, ids, encode_of_describe hDescribe, hMet.nodup, hDenotes,
    hArranged.spells (hMet.length_le_limit h)⟩

end TypeTable

end CompactType
