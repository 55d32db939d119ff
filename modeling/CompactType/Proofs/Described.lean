import CompactType.Proofs.Layers
import CompactType.TypeTable.Encoding

/-!
# Describing a type that stands for a tree

The walk over a type that stands for a tree gives the tree back. It meets the named structs in the
order of their numbers, and its budget is large enough: each struct that is met makes room for all
the types that can follow before the next one.
-/

set_option autoImplicit false

namespace CompactType.TypeTable

/-- The layers that may be needed below a type, when some structs are met already. -/
noncomputable def budget (t : TypeTable) (met id : Nat) : Nat :=
  (t.size - met) * (t.size + 1) + t.rank id

section Budget

variable {t : TypeTable} {n m a b layers : Nat}

theorem budget_le_of_le (h : n ≤ m) (a : Nat) : t.budget m a ≤ t.budget n a :=
  Nat.add_le_add_right (Nat.mul_le_mul_right _ (Nat.sub_le_sub_left h _)) _

theorem budget_lt_of_rank_lt (h : t.rank b < t.rank a) (hLayers : t.budget n a < layers + 1) :
    t.budget n b < layers := by
  unfold budget at *
  omega

theorem budget_succ_lt (h : n < t.size) (hLayers : t.budget n a < layers + 1) :
    t.budget (n + 1) b < layers := by
  have hRank := t.rank_le_size b
  have hStep : (t.size - n) * (t.size + 1) = (t.size - (n + 1)) * (t.size + 1) + (t.size + 1) := by
    rw [← Nat.succ_mul]
    congr 1
    omega
  unfold budget at *
  omega

theorem budget_zero_lt (t : TypeTable) (a : Nat) :
    t.budget 0 a < (t.size + 1) * (t.size + 1) := by
  have hRank := t.rank_le_size a
  have hStep : (t.size + 1) * (t.size + 1) = t.size * (t.size + 1) + (t.size + 1) :=
    Nat.succ_mul _ _
  rw [budget, Nat.sub_zero]
  omega

end Budget

theorem describeWithin_succ {t : TypeTable} {id layers : Nat} {k : Kind} {seen : Seen}
    (h : t.kind? id = some k) :
    t.describeWithin (layers + 1) id seen =
      t.describeLayer (t.describeWithin layers) id k seen := by
  simp only [TypeTable.describeWithin, kind, h]
  rfl

section Seen

variable {ids : List Nat} {n number id : Nat}

theorem idxOf?_take_of_lt (hNodup : ids.Nodup) (hId : ids[number]? = some id) (h : number < n) :
    (ids.take n).idxOf? id = some number := by
  obtain ⟨hLt, rfl⟩ := List.getElem?_eq_some_iff.mp hId
  refine List.idxOf?_eq_some_iff.mpr ⟨by simp [h, hLt], by simp, ?_⟩
  intro j hj hEq
  rw [List.getElem_take] at hEq
  have hSame := hNodup.getElem_inj_iff.mp hEq
  omega

theorem idxOf?_take_self (hNodup : ids.Nodup) (hId : ids[n]? = some id) :
    (ids.take n).idxOf? id = none := by
  rw [List.idxOf?_eq_none_iff]
  intro hMem
  obtain ⟨hLt, rfl⟩ := List.getElem?_eq_some_iff.mp hId
  obtain ⟨i, hi, hEq⟩ := List.mem_take_iff_getElem.mp hMem
  have hSame := hNodup.getElem_inj_iff.mp hEq
  omega

theorem take_succ_of_getElem? (hId : ids[n]? = some id) :
    ids.take n ++ [id] = ids.take (n + 1) := by
  rw [List.take_add_one, hId]
  rfl

end Seen

theorem bind_of_ok {ε α β : Type} {x : Except ε α} {a : α} (h : x = .ok a)
    (f : α → Except ε β) : (x >>= f) = f a := by
  rw [h]
  rfl

section Layers

variable {t : TypeTable} {ids : List Nat} {name : Nat → String} {id n : Nat}

theorem NamedBy.idxOf?_take_of_unnamed (hNames : t.NamedBy ids name) {k : Kind}
    (hKind : t.kind? id = some k) (hNot : k.isNamed = false) : (ids.take n).idxOf? id = none := by
  rw [List.idxOf?_eq_none_iff]
  intro hMem
  obtain ⟨i, hi⟩ := List.getElem?_of_mem (List.mem_of_mem_take hMem)
  obtain ⟨body, hNamed⟩ := hNames i id hi
  cases hKind.symm.trans hNamed
  cases hNot

variable {one : Nat → Seen → Except Refusal (Spec × Seen)} {fields : List Nat}
  {specs : List Spec} {seen after : Seen}

theorem describeLayer_record (hSeen : seen.idxOf? id = none)
    (hFields : describeAll one fields seen = .ok (specs, after)) :
    t.describeLayer one id (.struct none (some fields)) seen = .ok (.record specs, after) := by
  simp only [describeLayer, hSeen, Option.isSome_none, Bool.false_eq_true, if_false]
  exact bind_of_ok hFields _

theorem describeLayer_define {label : String} (hSeen : seen.idxOf? id = none)
    (hFields : describeAll one fields (seen ++ [id]) = .ok (specs, after)) :
    t.describeLayer one id (.struct (some label) (some fields)) seen =
      .ok (.define seen.length specs, after) := by
  simp only [describeLayer, hSeen, Option.isSome_some, if_true]
  exact bind_of_ok hFields _

theorem describeLayer_reference {label : Option String} {body : Option (List Nat)} {number : Nat}
    (hSeen : seen.idxOf? id = some number) :
    t.describeLayer one id (.struct label body) seen = .ok (.reference number, seen) := by
  simp only [describeLayer, hSeen]
  rfl

end Layers

mutual

/-- From the structs with the first numbers the walk goes on to those that the tree defines. -/
theorem Denotes.describeWithin {t : TypeTable} {ids : List Nat} {name : Nat → String}
    (hNames : t.NamedBy ids name) (hNodup : ids.Nodup) (hRoom : ids.length ≤ t.size)
    {id n m : Nat} {s : Spec} (h : Denotes t ids id s) (hArranged : Arranged n s m) {layers : Nat}
    (hLayers : t.budget n id < layers) :
    t.describeWithin layers id (ids.take n) = .ok (s, ids.take m) := by
  obtain ⟨layers, rfl⟩ := Nat.exists_eq_succ_of_ne_zero (n := layers) (by omega)
  cases hArranged with
  | scalar =>
    cases h with
    | scalar hKind => exact describeWithin_succ hKind
  | pointer hElem =>
    cases h with
    | pointer hKind h =>
      have hRank := h.rank_lt ⟨_, hKind, rfl, List.mem_singleton_self _⟩
      have hDescribed := h.describeWithin hNames hNodup hRoom hElem
        (budget_lt_of_rank_lt hRank hLayers)
      rw [describeWithin_succ hKind, describeLayer]
      exact bind_of_ok hDescribed _
  | array hElem =>
    cases h with
    | array hKind h =>
      have hRank := h.rank_lt ⟨_, hKind, rfl, List.mem_singleton_self _⟩
      have hDescribed := h.describeWithin hNames hNodup hRoom hElem
        (budget_lt_of_rank_lt hRank hLayers)
      rw [describeWithin_succ hKind, describeLayer]
      exact bind_of_ok hDescribed _
  | vector hElem =>
    cases h with
    | vector hKind h =>
      have hRank := h.rank_lt ⟨_, hKind, rfl, List.mem_singleton_self _⟩
      have hDescribed := h.describeWithin hNames hNodup hRoom hElem
        (budget_lt_of_rank_lt hRank hLayers)
      rw [describeWithin_succ hKind, describeLayer]
      exact bind_of_ok hDescribed _
  | record hFields =>
    cases h with
    | record hKind h =>
      have hDescribed := h.describeAll hNames hNodup hRoom hFields fun e s he hDenotes =>
        budget_lt_of_rank_lt (hDenotes.rank_lt ⟨_, hKind, rfl, he⟩) hLayers
      rw [describeWithin_succ hKind]
      exact describeLayer_record (hNames.idxOf?_take_of_unnamed hKind rfl) hDescribed
  | define hFields =>
    cases h with
    | define hId hKind h =>
      obtain ⟨hn, -⟩ := List.getElem?_eq_some_iff.mp hId
      have hDescribed := h.describeAll hNames hNodup hRoom hFields fun e s he hDenotes =>
        budget_succ_lt (Nat.lt_of_lt_of_le hn hRoom) hLayers
      rw [← take_succ_of_getElem? hId] at hDescribed
      rw [describeWithin_succ hKind, describeLayer_define (idxOf?_take_self hNodup hId) hDescribed,
        List.length_take_of_le (Nat.le_of_lt hn)]
  | reference hLt =>
    cases h with
    | reference hId hKind =>
      rw [describeWithin_succ hKind]
      exact describeLayer_reference (idxOf?_take_of_lt hNodup hId hLt)
  | function _ hParams _ hRet =>
    cases h with
    | function hKind h h' =>
      have hLe := Nat.le.intro (hParams.length_draftsAll default)
      have hRank := h'.rank_lt ⟨_, hKind, rfl, List.mem_append_right _ (List.mem_singleton_self _)⟩
      have hFirst := h.describeAll hNames hNodup hRoom hParams fun e s he hDenotes =>
        budget_lt_of_rank_lt
          (hDenotes.rank_lt ⟨_, hKind, rfl, List.mem_append_left _ he⟩) hLayers
      have hSecond := h'.describeWithin hNames hNodup hRoom hRet
        ((budget_le_of_le hLe _).trans_lt (budget_lt_of_rank_lt hRank hLayers))
      rw [describeWithin_succ hKind, describeLayer]
      exact (bind_of_ok hFirst _).trans (bind_of_ok hSecond _)
termination_by sizeOf s

theorem DenotesAll.describeAll {t : TypeTable} {ids : List Nat} {name : Nat → String}
    (hNames : t.NamedBy ids name) (hNodup : ids.Nodup) (hRoom : ids.length ≤ t.size)
    {elems : List Nat} {n m : Nat} {specs : List Spec} (h : DenotesAll t ids elems specs)
    (hArranged : ArrangedAll n specs m) {layers : Nat}
    (hLayers : ∀ e s, e ∈ elems → Denotes t ids e s → t.budget n e < layers) :
    TypeTable.describeAll (t.describeWithin layers) elems (ids.take n) =
      .ok (specs, ids.take m) := by
  cases hArranged with
  | nil =>
    cases h
    rfl
  | cons hHead hTail =>
    cases h with
    | cons h h' =>
      have hLe := Nat.le.intro (hHead.length_drafts default)
      have hFirst := h.describeWithin hNames hNodup hRoom hHead (hLayers _ _ List.mem_cons_self h)
      have hRest := h'.describeAll hNames hNodup hRoom hTail fun e s he hDenotes =>
        (budget_le_of_le hLe e).trans_lt (hLayers e s (List.mem_cons_of_mem _ he) hDenotes)
      rw [TypeTable.describeAll]
      exact (bind_of_ok hFirst _).trans (bind_of_ok hRest _)
termination_by sizeOf specs

end

theorem NamedBy.length_le {t : TypeTable} {ids : List Nat} {name : Nat → String}
    (hNames : t.NamedBy ids name) (hNodup : ids.Nodup) : ids.length ≤ t.size := by
  refine length_le_size_of_nodup hNodup fun i hi => ?_
  obtain ⟨n, hn⟩ := List.getElem?_of_mem hi
  obtain ⟨_, hKind⟩ := hNames n i hn
  exact ⟨_, hKind⟩

theorem Denotes.describe_eq {t : TypeTable} {ids : List Nat} {name : Nat → String}
    (hNames : t.NamedBy ids name) (hNodup : ids.Nodup) {id m : Nat} {s : Spec}
    (h : Denotes t ids id s) (hArranged : Arranged 0 s m) : t.describe id = .ok s := by
  have hDescribed := h.describeWithin hNames hNodup (hNames.length_le hNodup) hArranged
    (t.budget_zero_lt id)
  rw [List.take_zero] at hDescribed
  rw [describe, hDescribed]
  rfl

end CompactType.TypeTable
