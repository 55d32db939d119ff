import CompactType.Proofs.Walk

/-!
# Tours

A depth-first walk over the types of a table, given by itself: what it meets and which named structs
it enters. A struct is entered where it is first met, and only if it has a body. Such a walk misses
nothing: it meets exactly what can be reached.
-/

set_option autoImplicit false

namespace CompactType.TypeTable

open Relation (ReflTransGen)

/-- `Tours t todo seen met after`: visiting the types to do from left to right, and what is inside
each before what comes next, meets the types in the given order. The structs entered before and
after are given in the order in which they were entered. -/
inductive Tours (t : TypeTable) : List Nat → List Nat → List Nat → List Nat → Prop where
  | nil (seen : List Nat) : Tours t [] seen [] seen
  | unnamed {id : Nat} {k : Kind} {rest seen met after : List Nat} :
    t.kind? id = some k → k.isNamed = false → Tours t (k.parts ++ rest) seen met after →
    Tours t (id :: rest) seen (id :: met) after
  | incomplete {id : Nat} {name : String} {rest seen met after : List Nat} :
    t.kind? id = some (.struct (some name) none) → Tours t rest seen met after →
    Tours t (id :: rest) seen (id :: met) after
  | again {id : Nat} {name : String} {fields rest seen met after : List Nat} :
    t.kind? id = some (.struct (some name) (some fields)) → id ∈ seen →
    Tours t rest seen met after → Tours t (id :: rest) seen (id :: met) after
  | enter {id : Nat} {name : String} {fields rest seen met after : List Nat} :
    t.kind? id = some (.struct (some name) (some fields)) → id ∉ seen →
    Tours t (fields ++ rest) (seen ++ [id]) met after →
    Tours t (id :: rest) seen (id :: met) after

/-- The type is a named struct that has a body. -/
def IsEntered (t : TypeTable) (id : Nat) : Prop :=
  ∃ name fields, t.kind? id = some (.struct (some name) (some fields))

/-- The type is a struct without a body. -/
def IsIncomplete (t : TypeTable) (id : Nat) : Prop := ∃ name, t.kind? id = some (.struct name none)

variable {t : TypeTable} {root id : Nat}

theorem not_isEntered_of_unnamed {k : Kind} (hKind : t.kind? id = some k)
    (hNot : k.isNamed = false) : ¬t.IsEntered id := by
  rintro ⟨name, fields, h⟩
  cases hKind.symm.trans h
  cases hNot

theorem not_isEntered_of_incomplete (h : t.IsIncomplete id) : ¬t.IsEntered id := by
  rintro ⟨_, _, h'⟩
  obtain ⟨_, hKind⟩ := h
  cases hKind.symm.trans h'

theorem isEntered_or_isIncomplete (h : t.IsNamed id) : t.IsEntered id ∨ t.IsIncomplete id := by
  obtain ⟨name, body, hKind⟩ := h
  cases body with
  | none => exact .inr ⟨_, hKind⟩
  | some fields => exact .inl ⟨name, fields, hKind⟩

theorem IsEntered.isNamed (h : t.IsEntered id) : t.IsNamed id := by
  obtain ⟨name, fields, hKind⟩ := h
  exact ⟨name, some fields, hKind⟩

namespace Tours

variable {todo rest seen between met met' after after' : List Nat}

theorem unique (h : Tours t todo seen met after) (h' : Tours t todo seen met' after') :
    met' = met ∧ after' = after := by
  induction h generalizing met' after' with
  | nil =>
    cases h'
    exact ⟨rfl, rfl⟩
  | unnamed hKind hNot _ ih =>
    cases h' with
    | unnamed hKind' _ hTour =>
      cases hKind.symm.trans hKind'
      obtain ⟨rfl, rfl⟩ := ih hTour
      exact ⟨rfl, rfl⟩
    | incomplete hKind' | again hKind' | enter hKind' =>
      cases hKind.symm.trans hKind'
      cases hNot
  | incomplete hKind _ ih =>
    cases h' with
    | unnamed hKind' hNot' =>
      cases hKind.symm.trans hKind'
      cases hNot'
    | incomplete _ hTour =>
      obtain ⟨rfl, rfl⟩ := ih hTour
      exact ⟨rfl, rfl⟩
    | again hKind' | enter hKind' => cases hKind.symm.trans hKind'
  | again hKind hSeen _ ih =>
    cases h' with
    | unnamed hKind' hNot' =>
      cases hKind.symm.trans hKind'
      cases hNot'
    | incomplete hKind' => cases hKind.symm.trans hKind'
    | again _ _ hTour =>
      obtain ⟨rfl, rfl⟩ := ih hTour
      exact ⟨rfl, rfl⟩
    | enter _ hNew => exact absurd hSeen hNew
  | enter hKind hNew _ ih =>
    cases h' with
    | unnamed hKind' hNot' =>
      cases hKind.symm.trans hKind'
      cases hNot'
    | incomplete hKind' => cases hKind.symm.trans hKind'
    | again _ hSeen => exact absurd hSeen hNew
    | enter hKind' _ hTour =>
      cases hKind.symm.trans hKind'
      obtain ⟨rfl, rfl⟩ := ih hTour
      exact ⟨rfl, rfl⟩

theorem append (h : Tours t todo seen met between) (h' : Tours t rest between met' after) :
    Tours t (todo ++ rest) seen (met ++ met') after := by
  induction h with
  | nil => exact h'
  | unnamed hKind hNot _ ih => exact .unnamed hKind hNot (List.append_assoc .. ▸ ih h')
  | incomplete hKind _ ih => exact .incomplete hKind (ih h')
  | again hKind hSeen _ ih => exact .again hKind hSeen (ih h')
  | enter hKind hNew _ ih => exact .enter hKind hNew (List.append_assoc .. ▸ ih h')

theorem isPrefix (h : Tours t todo seen met after) : seen <+: after := by
  induction h with
  | nil => exact List.prefix_refl _
  | unnamed _ _ _ ih | incomplete _ _ ih | again _ _ _ ih => exact ih
  | enter _ _ _ ih => exact (List.prefix_append _ _).trans ih

theorem subset (h : Tours t todo seen met after) : todo ⊆ met := by
  induction h with
  | nil => exact List.nil_subset _
  | unnamed _ _ _ ih | enter _ _ _ ih =>
    exact List.cons_subset_cons _ (List.append_subset.mp ih).2
  | incomplete _ _ ih | again _ _ _ ih => exact List.cons_subset_cons _ ih

theorem elems_subset {elems : List Nat} (h : Tours t (elems ++ rest) seen met after) (id : Nat) :
    elems ⊆ id :: met :=
  List.subset_cons_of_subset id (List.append_subset.mp h.subset).1

theorem exists_reaches (h : Tours t todo seen met after) :
    ∀ x ∈ met, ∃ a ∈ todo, ReflTransGen t.Refers a x := by
  have hDeeper {a x : Nat} {k : Kind} {rest : List Nat} (hKind : t.kind? a = some k)
      (hReach : ∃ b ∈ k.parts ++ rest, ReflTransGen t.Refers b x) :
      ∃ b ∈ a :: rest, ReflTransGen t.Refers b x := by
    obtain ⟨b, hb, hReach⟩ := hReach
    obtain hPart | hRest := List.mem_append.mp hb
    · exact ⟨a, List.mem_cons_self, hReach.head ⟨k, hKind, hPart⟩⟩
    · exact ⟨b, List.mem_cons_of_mem _ hRest, hReach⟩
  have hHere (a : Nat) (rest : List Nat) : ∃ b ∈ a :: rest, ReflTransGen t.Refers b a :=
    ⟨a, List.mem_cons_self, .refl⟩
  induction h with
  | nil => simp
  | unnamed hKind _ _ ih | enter hKind _ _ ih =>
    exact List.forall_mem_cons.mpr ⟨hHere _ _, fun x hx => hDeeper hKind (ih x hx)⟩
  | incomplete hKind _ ih | again hKind _ _ ih =>
    refine List.forall_mem_cons.mpr ⟨hHere _ _, fun x hx => ?_⟩
    obtain ⟨b, hb, hReach⟩ := ih x hx
    exact ⟨b, List.mem_cons_of_mem _ hb, hReach⟩

theorem mem_after (h : Tours t todo seen met after) {x : Nat} :
    x ∈ after ↔ x ∈ seen ∨ x ∈ met ∧ t.IsEntered x := by
  induction h with
  | nil => simp
  | unnamed hKind hNot _ ih =>
    have hNever := not_isEntered_of_unnamed hKind hNot
    simp only [ih, List.mem_cons]
    grind
  | incomplete hKind _ ih =>
    have hNever := not_isEntered_of_incomplete ⟨_, hKind⟩
    simp only [ih, List.mem_cons]
    grind
  | again hKind hSeen _ ih =>
    simp only [ih, List.mem_cons]
    grind
  | enter hKind hNew _ ih =>
    have hEntered : t.IsEntered _ := ⟨_, _, hKind⟩
    simp only [ih, List.mem_cons, List.mem_append]
    grind

/-- The parts of what is met are met too, but for the structs that were entered before. Those that
are still being walked through are no exception: their fields are to be done. -/
theorem parts_subset (h : Tours t todo seen met after) {x : Nat} {k : Kind} (hx : x ∈ met)
    (hKind : t.kind? x = some k) : x ∈ seen ∨ k.parts ⊆ met := by
  induction h with
  | nil => cases hx
  | unnamed hKind' _ hTour ih =>
    obtain rfl | hx := List.mem_cons.mp hx
    · cases hKind.symm.trans hKind'
      exact .inr (hTour.elems_subset _)
    · exact (ih hx).imp_right (List.subset_cons_of_subset _)
  | incomplete hKind' _ ih =>
    obtain rfl | hx := List.mem_cons.mp hx
    · cases hKind.symm.trans hKind'
      exact .inr (List.nil_subset _)
    · exact (ih hx).imp_right (List.subset_cons_of_subset _)
  | again _ hSeen _ ih =>
    obtain rfl | hx := List.mem_cons.mp hx
    · exact .inl hSeen
    · exact (ih hx).imp_right (List.subset_cons_of_subset _)
  | @enter id _ _ _ seen _ _ hKind' _ hTour ih =>
    by_cases hSame : x = id
    · subst hSame
      cases hKind.symm.trans hKind'
      exact .inr (hTour.elems_subset _)
    · have hx := List.mem_of_ne_of_mem hSame hx
      have hSeen : x ∈ seen ++ [id] → x ∈ seen := by simp [hSame]
      exact (ih hx).imp hSeen (List.subset_cons_of_subset _)

theorem nodup (h : Tours t todo seen met after) (hSeen : seen.Nodup) : after.Nodup := by
  induction h with
  | nil => exact hSeen
  | unnamed _ _ _ ih | incomplete _ _ ih | again _ _ _ ih => exact ih hSeen
  | enter _ hNew _ ih => exact ih (List.nodup_append.mpr ⟨hSeen, by simp, by grind⟩)

/-- A tour of a type meets what can be reached from it, and nothing else. -/
theorem mem_met_iff (h : Tours t [root] [] met after) {x : Nat} :
    x ∈ met ↔ ReflTransGen t.Refers root x := by
  constructor
  · intro hx
    obtain ⟨a, ha, hReach⟩ := h.exists_reaches x hx
    exact List.mem_singleton.mp ha ▸ hReach
  · intro hReach
    induction hReach with
    | refl => exact h.subset (List.mem_singleton_self root)
    | tail _ hStep ih =>
      obtain ⟨k, hKind, hPart⟩ := hStep
      obtain hNone | hParts := h.parts_subset ih hKind
      · cases hNone
      · exact hParts hPart

end Tours

end CompactType.TypeTable
