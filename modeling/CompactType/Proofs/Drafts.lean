import CompactType.Config
import CompactType.Factory
import CompactType.Proofs.Arranged

/-!
# A factory of trees

A factory that shares nothing and hands out trees, in which defined structs stand as references.
What it stores are the definitions themselves, by number, with the bodies known so far.
-/

set_option autoImplicit false

namespace CompactType

/-- A struct under its name, with its fields once they are known. -/
structure Draft where
  name : String
  body : Option (List Spec)
deriving Repr, Inhabited

namespace Spec

def make : Request Spec → List Draft → Spec × List Draft
  | .scalar k, drafts => (.scalar k, drafts)
  | .pointer e, drafts => (.pointer e, drafts)
  | .array e n, drafts => (.array e n, drafts)
  | .vector e n, drafts => (.vector e n, drafts)
  | .declare name, drafts => (.reference drafts.length, drafts ++ [⟨name, none⟩])
  | .record fields, drafts => (.record fields, drafts)
  | .function params ret variadic, drafts => (.function params ret variadic, drafts)

def setBody : Spec → List Spec → List Draft → List Draft
  | .reference n, fields, drafts => drafts.modify n fun d => { d with body := some fields }
  | _, _, drafts => drafts

def factory : Factory (List Draft) Spec where
  make := make
  setBody s fields drafts := (.ok (), s.setBody fields drafts)
  classOf _ s := s.typeClass

mutual

/-- The tree with every definition replaced by a reference to it. -/
def outline : Spec → Spec
  | scalar k => scalar k
  | pointer e => pointer e.outline
  | array e n => array e.outline n
  | vector e n => vector e.outline n
  | record fields => record (outlines fields)
  | define n _ => reference n
  | reference n => reference n
  | function params ret variadic => function (outlines params) ret.outline variadic

def outlines : List Spec → List Spec
  | [] => []
  | s :: rest => s.outline :: outlines rest

end

mutual

/-- The structs that a tree defines, in the order of their numbers. -/
def drafts (config : Config) : Spec → List Draft
  | scalar _ | reference _ => []
  | pointer e | array e _ | vector e _ => drafts config e
  | record fields => draftsAll config fields
  | define n fields => ⟨config.structName n, some (outlines fields)⟩ :: draftsAll config fields
  | function params ret _ => draftsAll config params ++ drafts config ret

def draftsAll (config : Config) : List Spec → List Draft
  | [] => []
  | s :: rest => drafts config s ++ draftsAll config rest

end

@[simp] theorem length_setBody (s : Spec) (fields : List Spec) (drafts : List Draft) :
    (s.setBody fields drafts).length = drafts.length := by
  cases s <;> simp [setBody]

@[simp] theorem typeClass_outline (s : Spec) : s.outline.typeClass = s.typeClass := by
  cases s <;> simp [outline, typeClass]

theorem outlines_eq_map (specs : List Spec) : outlines specs = specs.map outline := by
  induction specs with
  | nil => rfl
  | cons s rest ih => simp [outlines, ih]

theorem outlines_ne_nil {specs : List Spec} (h : specs ≠ []) : outlines specs ≠ [] := by
  simpa [outlines_eq_map] using h

theorem isValue_of_outlines {specs : List Spec}
    (h : ∀ s ∈ outlines specs, s.typeClass.isValue = true) :
    ∀ s ∈ specs, s.typeClass.isValue = true := by
  intro s hs
  rw [← typeClass_outline]
  exact h _ (outlines_eq_map specs ▸ List.mem_map_of_mem hs)

theorem isValue_of_mem_outlines {specs : List Spec}
    (h : ∀ s ∈ specs, s.typeClass.isValue = true) :
    ∀ s ∈ outlines specs, s.typeClass.isValue = true := by
  intro s hs
  rw [outlines_eq_map] at hs
  obtain ⟨t, ht, rfl⟩ := List.mem_map.mp hs
  rw [typeClass_outline]
  exact h t ht

end Spec

section EachFrom

variable {α : Type} {P : Nat → α → Prop} {first : Nat} {a : α} {before after : List α}

/-- The elements of a list, numbered from the first number on, have the property. -/
def EachFrom (P : Nat → α → Prop) (first : Nat) (l : List α) : Prop :=
  ∀ i a, l[i]? = some a → P (first + i) a

theorem eachFrom_nil : EachFrom P first [] := nofun

theorem eachFrom_cons :
    EachFrom P first (a :: after) ↔ P first a ∧ EachFrom P (first + 1) after := by
  constructor
  · intro h
    refine ⟨h 0 a rfl, ?_⟩
    intro i b hi
    rw [Nat.add_right_comm]
    exact h (i + 1) b hi
  · rintro ⟨hHead, hTail⟩ i b hi
    cases i with
    | zero =>
      cases hi
      exact hHead
    | succ i =>
      rw [← Nat.add_assoc, Nat.add_right_comm]
      exact hTail i b hi

theorem eachFrom_append :
    EachFrom P first (before ++ after) ↔
      EachFrom P first before ∧ EachFrom P (first + before.length) after := by
  induction before generalizing first with
  | nil => simp [eachFrom_nil]
  | cons b before ih =>
    rw [List.cons_append, eachFrom_cons, eachFrom_cons, ih, and_assoc, List.length_cons,
      Nat.add_right_comm, Nat.add_assoc]

end EachFrom

/-- The draft of a struct with its body, named by the number. -/
def Named (config : Config) (number : Nat) (d : Draft) : Prop :=
  ∃ fields, d = ⟨config.structName number, some fields⟩

mutual

theorem Arranged.length_drafts (config : Config) {n m : Nat} {s : Spec} (h : Arranged n s m) :
    n + (s.drafts config).length = m := by
  cases h with
  | scalar | reference => simp [Spec.drafts]
  | pointer h | array h | vector h => simpa [Spec.drafts] using h.length_drafts config
  | record h => simpa [Spec.drafts] using h.length_draftsAll config
  | define h =>
    have hLength := h.length_draftsAll config
    simp only [Spec.drafts, List.length_cons]
    omega
  | function _ hParams _ hRet =>
    have hFirst := hParams.length_draftsAll config
    have hSecond := hRet.length_drafts config
    simp only [Spec.drafts, List.length_append]
    omega

theorem ArrangedAll.length_draftsAll (config : Config) {n m : Nat} {specs : List Spec}
    (h : ArrangedAll n specs m) : n + (Spec.draftsAll config specs).length = m := by
  cases h with
  | nil => simp [Spec.draftsAll]
  | cons hHead hTail =>
    have hFirst := hHead.length_drafts config
    have hSecond := hTail.length_draftsAll config
    simp only [Spec.draftsAll, List.length_append]
    omega

end

theorem Spells.length_drafts (config : Config) {n m : Nat} {text : List Char} {s : Spec}
    (h : Spells n text s m) : n + (s.drafts config).length = m :=
  h.arranged.length_drafts config

theorem SpellsAll.length_draftsAll (config : Config) {n m : Nat} {text : List Char}
    {specs : List Spec} (h : SpellsAll n text specs m) :
    n + (Spec.draftsAll config specs).length = m :=
  h.arranged.length_draftsAll config

mutual

theorem Spells.named_drafts (config : Config) {n m : Nat} {text : List Char} {s : Spec}
    (h : Spells n text s m) : EachFrom (Named config) n (s.drafts config) := by
  cases h with
  | scalar | reference => exact eachFrom_nil
  | pointer h => exact h.named_drafts config
  | array h | vector h => exact h.named_drafts config
  | record h => exact h.named_draftsAll config
  | define _ _ h => exact eachFrom_cons.mpr ⟨⟨_, rfl⟩, h.named_draftsAll config⟩
  | nullary h | nullaryVariadic h => exact h.named_drafts config
  | function hParams _ _ hRet | variadic hParams _ hRet =>
    refine eachFrom_append.mpr ⟨hParams.named_draftsAll config, ?_⟩
    rw [hParams.length_draftsAll config]
    exact hRet.named_drafts config
termination_by sizeOf s

theorem SpellsAll.named_draftsAll (config : Config) {n m : Nat} {text : List Char}
    {specs : List Spec} (h : SpellsAll n text specs m) :
    EachFrom (Named config) n (Spec.draftsAll config specs) := by
  cases h with
  | nil => exact eachFrom_nil
  | cons hHead hTail =>
    refine eachFrom_append.mpr ⟨hHead.named_drafts config, ?_⟩
    rw [hHead.length_drafts config]
    exact hTail.named_draftsAll config
termination_by sizeOf specs

end

/-- References to the structs with the first numbers. -/
def references (count : Nat) : Array Spec := ((List.range count).map Spec.reference).toArray

theorem size_references (count : Nat) : (references count).size = count := by
  simp [references]

theorem references_push (count : Nat) :
    (references count).push (.reference count) = references (count + 1) := by
  simp [references, List.range_succ]

theorem getElem?_references {count number : Nat} (h : number < count) :
    (references count)[number]? = some (.reference number) := by
  simp [references, h]

end CompactType
