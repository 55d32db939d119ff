import CompactType.TypeTable.Factory
import Mathlib.Order.Basic

/-!
# Growth of tables

What the operations of a table do to the types in it and to its index. Types are appended, and a
declared struct gets its body once; nothing else changes. A kind found in the index belongs to the
type found with it, unless the kind is that of a named struct.
-/

set_option autoImplicit false

namespace CompactType.TypeTable

/-- Every type of the first table is in the second one, at the same id. Only a declared struct may
have got its body in between. -/
def Grows (t t' : TypeTable) : Prop :=
  ∀ id k, t.kind? id = some k → t'.kind? id = some k ∨
    ∃ name fields, k = .struct (some name) none ∧
      t'.kind? id = some (.struct (some name) (some fields))

/-- Kinds in the index that are not those of named structs belong to their types. -/
def Indexed (t : TypeTable) : Prop :=
  ∀ k id, (k, id) ∈ t.interned → k.isNamed = false → t.kind? id = some k

namespace Grows

variable {t t' t'' : TypeTable}

theorem refl (t : TypeTable) : Grows t t := fun _ _ h => .inl h

theorem trans (h : Grows t t') (h' : Grows t' t'') : Grows t t'' := by
  intro id k hk
  obtain hSame | ⟨name, fields, rfl, hSet⟩ := h id k hk
  · exact h' id k hSame
  · obtain hSet' | ⟨_, _, hEq, -⟩ := h' id _ hSet
    · exact .inr ⟨name, fields, rfl, hSet'⟩
    · cases hEq

theorem of_kind? (h : ∀ id k, t.kind? id = some k → t'.kind? id = some k) : Grows t t' :=
  fun id k hk => .inl (h id k hk)

theorem unnamed (h : Grows t t') {id : Nat} {k : Kind} (hk : t.kind? id = some k)
    (hNot : k.isNamed = false) : t'.kind? id = some k := by
  obtain hSame | ⟨name, _, rfl, -⟩ := h id k hk
  · exact hSame
  · cases hNot

theorem named (h : Grows t t') {id : Nat} {name : String} {body : Option (List Nat)}
    (hk : t.kind? id = some (.struct (some name) body)) :
    ∃ body', t'.kind? id = some (.struct (some name) body') := by
  obtain hSame | ⟨_, fields, hEq, hSet⟩ := h id _ hk
  · exact ⟨body, hSame⟩
  · cases hEq
    exact ⟨some fields, hSet⟩

theorem completed (h : Grows t t') {id : Nat} {name : String} {fields : List Nat}
    (hk : t.kind? id = some (.struct (some name) (some fields))) :
    t'.kind? id = some (.struct (some name) (some fields)) := by
  obtain hSame | ⟨_, _, hEq, -⟩ := h id _ hk
  · exact hSame
  · cases hEq

end Grows

variable {t : TypeTable} {id i : Nat} {k k' : Kind}

theorem lt_size_of_kind? (h : t.kind? id = some k) : id < t.size := by
  by_contra hNot
  rw [(t.kind?_eq_none_iff id).mpr (by omega)] at h
  cases h

theorem length_le_size_of_nodup {ids : List Nat} (hNodup : ids.Nodup)
    (h : ∀ i ∈ ids, ∃ k, t.kind? i = some k) : ids.length ≤ t.size := by
  have hSubset : ids ⊆ List.range t.size := by
    intro i hi
    obtain ⟨_, hKind⟩ := h i hi
    exact List.mem_range.mpr (lt_size_of_kind? hKind)
  simpa using hNodup.length_le_of_subset hSubset

theorem exists_kind?_of_lt (h : id < t.size) : ∃ k, t.kind? id = some k := by
  apply Option.ne_none_iff_exists'.mp
  rw [Ne, kind?_eq_none_iff]
  omega

theorem kind?_push_of_kind? (h : t.kind? id = some k) : (t.push k').2.kind? id = some k := by
  have hLt := lt_size_of_kind? h
  rw [kind?_push, if_neg (by omega), h]

theorem kind?_push_self (t : TypeTable) (k : Kind) : (t.push k).2.kind? (t.push k).1 = some k := by
  rw [kind?_push]
  exact if_pos rfl

theorem Indexed.push (h : t.Indexed) (k : Kind) : (t.push k).2.Indexed :=
  fun k' i hMem hNot => kind?_push_of_kind? (h k' i hMem hNot)

theorem mem_interned_of_lookup (h : t.interned.lookup k = some id) : (k, id) ∈ t.interned := by
  obtain ⟨before, after, hSplit, -⟩ := List.lookup_eq_some_iff.mp h
  simp [hSplit]

theorem kind?_intern_of_kind? (h : t.kind? id = some k) : (t.intern k').2.kind? id = some k := by
  cases hLookup : t.interned.lookup k' with
  | some i =>
    rw [intern_of_lookup hLookup]
    exact h
  | none =>
    rw [intern_of_lookup_none hLookup]
    exact kind?_push_of_kind? h

theorem Indexed.kind?_intern (h : t.Indexed) (hNot : k.isNamed = false) :
    (t.intern k).2.kind? (t.intern k).1 = some k := by
  cases hLookup : t.interned.lookup k with
  | some id =>
    rw [intern_of_lookup hLookup]
    exact h k id (mem_interned_of_lookup hLookup) hNot
  | none =>
    rw [intern_of_lookup_none hLookup]
    exact kind?_push_self t k

theorem Indexed.intern (h : t.Indexed) (k : Kind) : (t.intern k).2.Indexed := by
  cases hLookup : t.interned.lookup k with
  | some id =>
    rw [intern_of_lookup hLookup]
    exact h
  | none =>
    rw [intern_of_lookup_none hLookup]
    rintro k' i hMem hNot
    obtain hEq | hMem := List.mem_cons.mp hMem
    · cases hEq
      exact kind?_push_self t k
    · exact kind?_push_of_kind? (h k' i hMem hNot)

theorem find?_setKind (t : TypeTable) (id : Nat) (k : Kind) (i : Nat) :
    (t.setKind id k).find? i =
      if i = id then (t.find? i).map (fun e => { e with kind := k }) else t.find? i := by
  by_cases h : i = id
  · subst h
    simp [setKind, find?, Array.getElem?_modify]
  · simp [setKind, find?, Array.getElem?_modify, h, Ne.symm h]

theorem kind?_setKind (t : TypeTable) (id : Nat) (k : Kind) (i : Nat) :
    (t.setKind id k).kind? i = if i = id then (t.kind? i).map (fun _ => k) else t.kind? i := by
  simp only [kind?, find?_setKind]
  split
  · simp [Function.comp_def]
  · rfl

theorem grows_setKind {name : String} {fields : List Nat}
    (h : t.kind? id = some (.struct (some name) none)) :
    Grows t (t.setKind id (.struct (some name) (some fields))) := by
  intro i k hk
  rw [kind?_setKind]
  by_cases hi : i = id
  · subst hi
    rw [hk] at h
    cases h
    exact .inr ⟨name, fields, rfl, by simp [hk]⟩
  · exact .inl (by simp [hi, hk])

theorem Indexed.setKind {name : String} {fields : List Nat} (hIndexed : t.Indexed)
    (h : t.kind? id = some (.struct (some name) none)) :
    (t.setKind id (.struct (some name) (some fields))).Indexed :=
  fun k i hMem hNot => (grows_setKind h).unnamed (hIndexed k i hMem hNot) hNot

theorem text_of_named {name : String} {body : Option (List Nat)}
    (h : t.kind? id = some (.struct (some name) body)) : t.text id = .ok ("%" ++ name) := by
  simp only [text, textWithin, kind, h]
  rfl

theorem complete_of_declared {name : String} {fields : List Nat}
    (h : t.kind? id = some (.struct (some name) none)) :
    t.complete id fields = .ok (t.setKind id (.struct (some name) (some fields))) := by
  simp only [complete, text_of_named h, kind, h]
  rfl

theorem setBody_of_declared {name : String} {fields : List Nat}
    (h : t.kind? id = some (.struct (some name) none)) :
    t.setBody id fields = (.ok (), t.setKind id (.struct (some name) (some fields))) := by
  rw [setBody, complete_of_declared h]

theorem complete_eq_ok {fields : List Nat} {t' : TypeTable} (h : t.complete id fields = .ok t') :
    ∃ name, t.kind? id = some (.struct (some name) none) ∧
      t' = t.setKind id (.struct (some name) (some fields)) := by
  unfold complete at h
  cases hText : t.text id with
  | error refusal => rw [hText] at h; cases h
  | ok text =>
    rw [hText] at h
    cases hKind : t.kind? id with
    | none => simp only [kind, hKind] at h; cases h
    | some k =>
      simp only [kind, hKind] at h
      match k with
      | .struct (some name) none =>
        cases h
        exact ⟨name, rfl, rfl⟩
      | .struct (some _) (some _) => cases h
      | .struct none _ | .scalar _ | .pointer _ | .array .. | .vector .. | .function .. => cases h

theorem setBody_cases (t : TypeTable) (id : Nat) (fields : List Nat) :
    (t.setBody id fields).2 = t ∨ ∃ name, t.kind? id = some (.struct (some name) none) ∧
      (t.setBody id fields).2 = t.setKind id (.struct (some name) (some fields)) := by
  cases h : t.complete id fields with
  | error refusal => exact .inl (by rw [setBody_of_error h])
  | ok t' =>
    obtain ⟨name, hKind, rfl⟩ := complete_eq_ok h
    exact .inr ⟨name, hKind, by simp [setBody, h]⟩

theorem grows_setBody (t : TypeTable) (id : Nat) (fields : List Nat) :
    Grows t (t.setBody id fields).2 := by
  obtain h | ⟨name, hKind, h⟩ := t.setBody_cases id fields
  · exact h.symm ▸ .refl t
  · exact h ▸ grows_setKind hKind

theorem Indexed.setBody (h : t.Indexed) (id : Nat) (fields : List Nat) :
    (t.setBody id fields).2.Indexed := by
  obtain hSame | ⟨name, hKind, hSet⟩ := t.setBody_cases id fields
  · exact hSame.symm ▸ h
  · exact hSet ▸ h.setKind hKind

theorem kind?_make_of_kind? (h : t.kind? id = some k) (request : Request Nat) :
    (t.make request).2.kind? id = some k := by
  cases request with
  | declare name => exact kind?_push_of_kind? h
  | _ => exact kind?_intern_of_kind? h

theorem grows_make (t : TypeTable) (request : Request Nat) : Grows t (t.make request).2 :=
  .of_kind? fun _ _ h => kind?_make_of_kind? h request

theorem Indexed.make (h : t.Indexed) (request : Request Nat) : (t.make request).2.Indexed := by
  cases request with
  | declare name => exact h.push _
  | _ => exact h.intern _

theorem Indexed.kind?_make (h : t.Indexed) (request : Request Nat) :
    (t.make request).2.kind? (t.make request).1 = some request.kind := by
  cases request with
  | declare name => exact kind?_push_self t _
  | _ => exact h.kind?_intern rfl

theorem indexed_empty : empty.Indexed := nofun

theorem indexed_initial : initial.Indexed :=
  List.foldlRecOn Scalar.all _ indexed_empty fun _ h k _ => h.intern (.scalar k)

end CompactType.TypeTable
