import CompactType.Proofs.Discipline
import CompactType.Proofs.Growth
import CompactType.TypeTable.History

/-!
# Coherence of tables

Whatever is done with a table, its types and its index agree: a kind that is not that of a named
struct is found exactly where it is stored, and a named struct at most behind the times. So
interning a kind is stable, and a declared struct always gets a new id.
-/

set_option autoImplicit false

namespace CompactType.TypeTable

structure Coherent (t : TypeTable) : Prop where
  id_eq : ∀ i e, t.find? i = some e → e.id = i
  nodup : (t.interned.map Prod.fst).Nodup
  /-- A kind in the index is that of its type, but for a named struct that got its body since. -/
  indexed : ∀ k id, t.interned.lookup k = some id → id < t.size ∧ (t.kind? id = some k ∨
    ∃ name fields, k = .struct (some name) none ∧
      t.kind? id = some (.struct (some name) (some fields)))
  interned : ∀ k id, t.kind? id = some k → k.isNamed = false → t.interned.lookup k = some id

variable {t t' : TypeTable} {k : Kind} {id : Nat}

theorem find?_push (t : TypeTable) (k : Kind) (i : Nat) :
    (t.push k).2.find? i = if i = t.size then some ⟨t.size, k⟩ else t.find? i := by
  by_cases h : i = t.entries.size <;> simp [push, find?, size, Array.getElem?_push, h]

theorem kinds_push (t : TypeTable) (k : Kind) : (t.push k).2.kinds = t.kinds ++ [k] := by
  simp [push, kinds]

theorem nodup_cons_of_lookup (h : (t.interned.map Prod.fst).Nodup)
    (hLookup : t.interned.lookup k = none) :
    (((k, id) :: t.interned).map Prod.fst).Nodup := by
  refine List.nodup_cons.mpr ⟨?_, h⟩
  intro hMem
  obtain ⟨⟨_, i⟩, hPair, rfl⟩ := List.mem_map.mp hMem
  simpa using List.lookup_eq_none_iff.mp hLookup _ hPair

theorem Coherent.indexed_mono (h : t.Coherent) (hGrows : Grows t t') (hSize : t.size ≤ t'.size)
    (hLookup : t.interned.lookup k = some id) : id < t'.size ∧ (t'.kind? id = some k ∨
      ∃ name fields, k = .struct (some name) none ∧
        t'.kind? id = some (.struct (some name) (some fields))) := by
  obtain ⟨hLt, hKind | ⟨name, fields, rfl, hKind⟩⟩ := h.indexed k id hLookup
  · exact ⟨Nat.lt_of_lt_of_le hLt hSize, hGrows id k hKind⟩
  · exact ⟨Nat.lt_of_lt_of_le hLt hSize, .inr ⟨name, fields, rfl, hGrows.completed hKind⟩⟩

theorem Coherent.declare (h : t.Coherent) (name : String) : (t.declare name).2.Coherent where
  id_eq i e hEntry := by
    rw [TypeTable.declare, find?_push] at hEntry
    split at hEntry
    · next hi =>
      cases hEntry
      exact hi.symm
    · exact h.id_eq i e hEntry
  nodup := h.nodup
  indexed k id hLookup :=
    h.indexed_mono (grows_make t (.declare name)) (by simp [TypeTable.declare, size_push]) hLookup
  interned k i hKind hNot := by
    rw [TypeTable.declare, kind?_push] at hKind
    split at hKind
    · cases hKind
      cases hNot
    · exact h.interned k i hKind hNot

theorem Coherent.intern (h : t.Coherent) (k : Kind) : (t.intern k).2.Coherent := by
  cases hLookup : t.interned.lookup k with
  | some id =>
    rw [intern_of_lookup hLookup]
    exact h
  | none =>
    have hGrows : Grows t (t.intern k).2 := .of_kind? fun _ _ => kind?_intern_of_kind?
    rw [intern_of_lookup_none hLookup] at hGrows ⊢
    constructor
    · intro i e hEntry
      change (t.push k).2.find? i = some e at hEntry
      rw [find?_push] at hEntry
      split at hEntry
      · next hi =>
        cases hEntry
        exact hi.symm
      · exact h.id_eq i e hEntry
    · exact nodup_cons_of_lookup h.nodup hLookup
    · intro k' id hFound
      rw [List.lookup_cons] at hFound
      split at hFound
      · next hEq =>
        obtain rfl := beq_iff_eq.mp hEq
        cases hFound
        exact ⟨by simp [push, size], .inl (kind?_push_self t k')⟩
      · exact h.indexed_mono hGrows (by simp [push, size]) hFound
    · intro k' i hKind hNot
      change (t.push k).2.kind? i = some k' at hKind
      rw [kind?_push] at hKind
      split at hKind
      · next hi =>
        cases hKind
        simp [hi]
      · have hFound := h.interned k' i hKind hNot
        have hNe : k' ≠ k := by
          rintro rfl
          rw [hLookup] at hFound
          cases hFound
        rw [List.lookup_cons, beq_eq_false_iff_ne.mpr hNe]
        exact hFound

theorem Coherent.setBody (h : t.Coherent) (id : Nat) (fields : List Nat) :
    (t.setBody id fields).2.Coherent := by
  obtain hSame | ⟨name, hKind, hSet⟩ := t.setBody_cases id fields
  · exact hSame.symm ▸ h
  · have hGrows := grows_setBody t id fields
    rw [hSet] at hGrows ⊢
    constructor
    · intro i e hEntry
      rw [find?_setKind] at hEntry
      split at hEntry
      · obtain ⟨old, hOld, rfl⟩ := Option.map_eq_some_iff.mp hEntry
        exact h.id_eq i old hOld
      · exact h.id_eq i e hEntry
    · exact h.nodup
    · intro k i hLookup
      exact h.indexed_mono hGrows (Nat.le_of_eq (size_setKind ..).symm) hLookup
    · intro k i hAfter hNot
      rw [kind?_setKind] at hAfter
      split at hAfter
      · next hi =>
        obtain ⟨_, -, rfl⟩ := Option.map_eq_some_iff.mp hAfter
        cases hNot
      · exact h.interned k i hAfter hNot

theorem Coherent.make (h : t.Coherent) (request : Request Nat) : (t.make request).2.Coherent := by
  cases request with
  | declare name => exact h.declare name
  | _ => exact h.intern _

theorem Coherent.call (h : t.Coherent) (call : Call Nat) : (call.apply factory t).Coherent := by
  cases call with
  | made request handle => exact h.make request
  | body id fields => exact h.setBody id fields

theorem grows_call (t : TypeTable) (call : Call Nat) : Grows t (call.apply factory t) := by
  cases call with
  | made request handle => exact grows_make t request
  | body id fields => exact grows_setBody t id fields

theorem Coherent.replay (h : t.Coherent) (calls : List (Call Nat)) :
    (factory.replay t calls).Coherent :=
  List.foldlRecOn calls _ h fun _ h call _ => h.call call

theorem grows_replay (t : TypeTable) (calls : List (Call Nat)) :
    Grows t (factory.replay t calls) :=
  List.foldlRecOn calls _ (.refl t) fun _ h call _ => h.trans (grows_call _ call)

theorem parse_store (t : TypeTable) (spec : String) (config : Config) :
    (t.parse spec config).store =
      factory.replay t (Journal.calls (t.parse spec config).journal) := by
  obtain ⟨calls, waiting, hCalls, hStore, -⟩ := Parse.exists_conforms factory config spec t
  rw [parse, hCalls, hStore]

theorem Coherent.apply (h : t.Coherent) (operation : Operation) : (operation.apply t).Coherent := by
  cases operation with
  | intern k => exact h.intern k
  | make request => exact h.make request
  | complete id fields => exact h.setBody id fields
  | parse spec config =>
    rw [Operation.apply, parse_store]
    exact h.replay _

theorem grows_apply (t : TypeTable) (operation : Operation) : Grows t (operation.apply t) := by
  cases operation with
  | intern k => exact .of_kind? fun _ _ => kind?_intern_of_kind?
  | make request => exact grows_make t request
  | complete id fields => exact grows_setBody t id fields
  | parse spec config =>
    rw [Operation.apply, parse_store]
    exact grows_replay t _

theorem Coherent.after (h : t.Coherent) (operations : List Operation) :
    (t.after operations).Coherent :=
  List.foldlRecOn operations _ h fun _ h operation _ => h.apply operation

theorem grows_after (t : TypeTable) (operations : List Operation) : Grows t (t.after operations) :=
  List.foldlRecOn operations _ (.refl t) fun _ h operation _ => h.trans (grows_apply _ operation)

theorem coherent_empty : empty.Coherent := by
  constructor
  · intro i e hEntry
    simp [empty, find?] at hEntry
  · exact List.nodup_nil
  · intro k id hLookup
    simp [empty] at hLookup
  · intro k id hKind
    simp [empty, kind?, find?] at hKind

theorem coherent_initial : initial.Coherent :=
  List.foldlRecOn Scalar.all _ coherent_empty fun _ h k _ => h.intern (.scalar k)

theorem Reachable.coherent {t : TypeTable} (h : Reachable t) : t.Coherent := by
  obtain ⟨operations, rfl⟩ := h
  exact coherent_initial.after operations

theorem Coherent.unique (h : t.Coherent) (hNot : k.isNamed = false) {i j : Nat}
    (hi : t.kind? i = some k) (hj : t.kind? j = some k) : i = j :=
  Option.some.inj ((h.interned k i hi hNot).symm.trans (h.interned k j hj hNot))

theorem Coherent.intern_of_kind? (h : t.Coherent) (hNot : k.isNamed = false)
    (hKind : t.kind? id = some k) : t.intern k = (id, t) :=
  intern_of_lookup (h.interned k id hKind hNot)

/-- Interning a kind: afterwards the type with the returned id is of this kind and will be found
ever after. A type was added if and only if there was none. -/
structure Interns (t : TypeTable) (k : Kind) : Prop where
  kind?_eq : (t.intern k).2.kind? (t.intern k).1 = some k
  after_eq : ∀ operations, ((t.intern k).2.after operations).intern k =
    ((t.intern k).1, (t.intern k).2.after operations)
  appends_iff : (t.intern k).2.kinds = t.kinds ++ [k] ↔ ∀ id, t.kind? id ≠ some k
  eq_of_kind? : ∀ id, t.kind? id = some k → (t.intern k).2 = t

theorem Coherent.kind?_intern (h : t.Coherent) (hNot : k.isNamed = false) :
    (t.intern k).2.kind? (t.intern k).1 = some k := by
  cases hLookup : t.interned.lookup k with
  | some id =>
    rw [intern_of_lookup hLookup]
    obtain ⟨-, hKind | ⟨name, fields, rfl, -⟩⟩ := h.indexed k id hLookup
    · exact hKind
    · cases hNot
  | none =>
    rw [intern_of_lookup_none hLookup]
    exact kind?_push_self t k

theorem Coherent.interns (h : t.Coherent) (hNot : k.isNamed = false) : t.Interns k where
  kind?_eq := h.kind?_intern hNot
  after_eq operations := by
    have hLater := (grows_after (t.intern k).2 operations).unnamed (h.kind?_intern hNot) hNot
    exact ((h.intern k).after operations).intern_of_kind? hNot hLater
  appends_iff := by
    constructor
    · intro hKinds id hKind
      rw [h.intern_of_kind? hNot hKind] at hKinds
      simp at hKinds
    · intro hNone
      cases hLookup : t.interned.lookup k with
      | some id =>
        have hKind := h.kind?_intern hNot
        rw [intern_of_lookup hLookup] at hKind
        exact absurd hKind (hNone id)
      | none =>
        rw [intern_of_lookup_none hLookup]
        exact t.kinds_push k
  eq_of_kind? id hKind := by rw [h.intern_of_kind? hNot hKind]

theorem Reachable.exists_scalar (h : t.Reachable) (k : Scalar) :
    ∃ id, t.kind? id = some (.scalar k) := by
  obtain ⟨operations, rfl⟩ := h
  have hKind : initial.kind? (initial.intern (.scalar k)).1 = some (.scalar k) := by
    cases k <;> decide
  exact ⟨_, (grows_after initial operations).unnamed hKind rfl⟩

section Freshness

/-- The id that a call returned, with the name if a struct was declared. -/
def idOf? : Call Nat → Option (Option String × Nat)
  | .made request id => some (request.name?, id)
  | .body .. => none

/-- The ids that an operation returns, in order, for a parse those of all its calls. -/
def Operation.ids (t : TypeTable) : Operation → List (Option String × Nat)
  | intern k => [(none, (t.intern k).1)]
  | make request => [(request.name?, (t.make request).1)]
  | complete .. => []
  | parse spec config => (Journal.calls (t.parse spec config).journal).filterMap idOf?

def idsAlong (t : TypeTable) : List Operation → List (Option String × Nat)
  | [] => []
  | operation :: rest => operation.ids t ++ idsAlong (operation.apply t) rest

/-- No struct was declared under an id that had been returned earlier. -/
def FreshlyDeclared (ids : List (Option String × Nat)) : Prop :=
  ids.Pairwise fun earlier later => later.1.isSome → earlier.2 ≠ later.2

/-- Ids returned on the way from one table to another. -/
structure Between (t t' : TypeTable) (ids : List (Option String × Nat)) : Prop where
  size_le : t.size ≤ t'.size
  lt_size : ∀ r ∈ ids, r.2 < t'.size
  size_le_declared : ∀ r ∈ ids, r.1.isSome → t.size ≤ r.2
  fresh : FreshlyDeclared ids

theorem Grows.size_le (h : Grows t t') : t.size ≤ t'.size := by
  by_contra hLt
  have hSome : t.kind? t'.size ≠ none := by
    rw [Ne, kind?_eq_none_iff]
    omega
  obtain ⟨k, hk⟩ := Option.ne_none_iff_exists'.mp hSome
  have hNone : t'.kind? t'.size = none := (kind?_eq_none_iff t' _).mpr (Nat.le_refl _)
  obtain hKind | ⟨_, _, -, hKind⟩ := h _ k hk
  · exact nomatch hNone.symm.trans hKind
  · exact nomatch hNone.symm.trans hKind

theorem Between.nil (h : Grows t t') : Between t t' [] :=
  ⟨h.size_le, nofun, nofun, .nil⟩

theorem Between.append {t'' : TypeTable} {ids ids' : List (Option String × Nat)}
    (h : Between t t' ids) (h' : Between t' t'' ids') : Between t t'' (ids ++ ids') where
  size_le := Nat.le_trans h.size_le h'.size_le
  lt_size r hr := by
    obtain hr | hr := List.mem_append.mp hr
    · exact Nat.lt_of_lt_of_le (h.lt_size r hr) h'.size_le
    · exact h'.lt_size r hr
  size_le_declared r hr hDeclared := by
    obtain hr | hr := List.mem_append.mp hr
    · exact h.size_le_declared r hr hDeclared
    · exact Nat.le_trans h.size_le (h'.size_le_declared r hr hDeclared)
  fresh := by
    refine List.pairwise_append.mpr ⟨h.fresh, h'.fresh, ?_⟩
    intro earlier hEarlier later hLater hDeclared
    exact Nat.ne_of_lt (Nat.lt_of_lt_of_le (h.lt_size earlier hEarlier)
      (h'.size_le_declared later hLater hDeclared))

theorem Coherent.intern_lt_size (h : t.Coherent) (k : Kind) :
    (t.intern k).1 < (t.intern k).2.size := by
  cases hLookup : t.interned.lookup k with
  | some id =>
    rw [intern_of_lookup hLookup]
    exact (h.indexed k id hLookup).1
  | none =>
    rw [intern_of_lookup_none hLookup]
    exact Nat.lt_of_lt_of_eq (Nat.lt_succ_self _) (t.size_push k).symm

theorem Coherent.between_intern (h : t.Coherent) (k : Kind) :
    Between t (t.intern k).2 [(none, (t.intern k).1)] where
  size_le := (grows_apply t (.intern k)).size_le
  lt_size := by
    rintro r (_ | ⟨_, ⟨⟩⟩)
    exact h.intern_lt_size k
  size_le_declared := by
    rintro r (_ | ⟨_, ⟨⟩⟩) ⟨⟩
  fresh := List.pairwise_singleton _ _

theorem Coherent.between_make (h : t.Coherent) (request : Request Nat) :
    Between t (t.make request).2 [(request.name?, (t.make request).1)] := by
  cases request with
  | declare name =>
    refine ⟨(grows_make t _).size_le, ?_, ?_, List.pairwise_singleton _ _⟩
    · rintro r (_ | ⟨_, ⟨⟩⟩)
      exact Nat.lt_of_lt_of_eq (Nat.lt_succ_self _) (t.size_push _).symm
    · rintro r (_ | ⟨_, ⟨⟩⟩) -
      exact Nat.le_refl _
  | _ => exact h.between_intern _

theorem Coherent.between_replay (h : t.Coherent) {config : Config} {calls : List (Call Nat)}
    {waiting : List Nat} (hConforms : Parse.Conforms factory config t calls waiting) :
    Between t (factory.replay t calls) (calls.filterMap idOf?) := by
  have hAsk {calls calls' : List (Call Nat)} {r : Request Nat} {id : Nat}
      (hBetween : Between t (factory.replay t calls) (calls.filterMap idOf?))
      (hAsks : Parse.Asks factory t calls r id calls') :
      Between t (factory.replay t calls') (calls'.filterMap idOf?) := by
    obtain ⟨-, rfl, rfl⟩ := hAsks
    rw [Factory.replay_concat, List.filterMap_append]
    exact hBetween.append ((h.replay calls).between_make r)
  induction hConforms with
  | nil => exact .nil (.refl t)
  | request _ _ _ hAsks ih => exact hAsk ih hAsks
  | declare _ hAsks ih => exact hAsk ih hAsks
  | @body calls _ _ fields id _ _ hFills ih =>
    rw [hFills.calls_eq, Factory.replay_concat, List.filterMap_append]
    exact ih.append (.nil (grows_setBody (factory.replay t calls) id fields))

theorem Coherent.between_apply (h : t.Coherent) (operation : Operation) :
    Between t (operation.apply t) (operation.ids t) := by
  cases operation with
  | intern k => exact h.between_intern k
  | make request => exact h.between_make request
  | complete id fields => exact .nil (grows_setBody t id fields)
  | parse spec config =>
    obtain ⟨calls, waiting, hCalls, hStore, hConforms, -⟩ :=
      Parse.exists_conforms factory config spec t
    rw [Operation.apply, Operation.ids, parse, hCalls, hStore]
    exact h.between_replay hConforms

theorem Coherent.between_after (h : t.Coherent) (operations : List Operation) :
    Between t (t.after operations) (t.idsAlong operations) := by
  induction operations generalizing t with
  | nil => exact .nil (.refl t)
  | cons operation rest ih => exact (h.between_apply operation).append (ih (h.apply operation))

end Freshness

/-- Whatever operations lead to a table: it is coherent, a kind that is not that of a named struct
belongs to at most one of its types and is interned for good, and no struct was ever declared under
an id that had been returned before. -/
theorem coherent_after (operations : List Operation) :
    (initial.after operations).Coherent ∧
      (∀ k, k.isNamed = false →
        (∀ i j, (initial.after operations).kind? i = some k →
          (initial.after operations).kind? j = some k → i = j) ∧
        (initial.after operations).Interns k) ∧
      FreshlyDeclared (initial.idsAlong operations) := by
  have h := coherent_initial.after operations
  refine ⟨h, ?_, (coherent_initial.between_after operations).fresh⟩
  intro k hNot
  exact ⟨fun i j hi hj => h.unique hNot hi hj, h.interns hNot⟩

end CompactType.TypeTable
