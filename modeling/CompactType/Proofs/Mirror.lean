import CompactType.Proofs.Coupling
import CompactType.Proofs.Denotation
import CompactType.TypeTable.Parse

/-!
# A table and the trees that are parsed into it

A table and a store of trees are filled from the same text. Each handle of the table denotes the
tree that the other side has in its place, whatever the table held before.
-/

set_option autoImplicit false

namespace CompactType.TypeTable

/-- The named structs with the given ids have the names and the bodies of the drafts. Those of the
structs that wait have no body. -/
structure Mirrors (t : TypeTable) (ids : List Nat) (waiting : List (Nat × Spec))
    (drafts : List Draft) : Prop where
  indexed : t.Indexed
  nodup : ids.Nodup
  length_eq : ids.length = drafts.length
  drafted {n : Nat} {d : Draft} : drafts[n]? = some d → ∃ id body, ids[n]? = some id ∧
    t.kind? id = some (.struct (some d.name) body) ∧ Option.Rel (DenotesAll t ids) body d.body
  waits {id : Nat} {s : Spec} : (id, s) ∈ waiting → ∃ n name, ids[n]? = some id ∧
    s = .reference n ∧ drafts[n]? = some ⟨name, none⟩
  distinct : (waiting.map Prod.snd).Nodup

theorem optionRel_mono {α β : Type} {R R' : α → β → Prop} (hLe : ∀ a b, R a b → R' a b)
    {left : Option α} {right : Option β} (h : Option.Rel R left right) :
    Option.Rel R' left right := by
  cases h with
  | none => exact .none
  | some h => exact .some (hLe _ _ h)

theorem getElem?_concat_eq_some {α : Type} {l : List α} {a b : α} {n : Nat}
    (h : (l ++ [a])[n]? = some b) : l[n]? = some b ∨ n = l.length ∧ b = a := by
  rw [List.getElem?_append] at h
  split at h
  · exact .inl h
  · next hn =>
    obtain ⟨hLt, hEq⟩ := List.getElem?_eq_some_iff.mp h
    simp only [List.length_singleton] at hLt
    exact .inr ⟨by omega, by simpa using hEq.symm⟩

namespace Mirrors

variable {t : TypeTable} {ids : List Nat} {waiting : List (Nat × Spec)} {drafts : List Draft}

theorem exists_name (h : Mirrors t ids waiting drafts) {id : Nat} (hId : id ∈ ids) :
    ∃ name body, t.kind? id = some (.struct (some name) body) := by
  obtain ⟨n, hn, rfl⟩ := List.getElem_of_mem hId
  obtain ⟨id', body, hId', hKind, -⟩ :=
    h.drafted (List.getElem?_eq_getElem (h.length_eq ▸ hn))
  rw [List.getElem?_eq_getElem hn] at hId'
  cases hId'
  exact ⟨_, body, hKind⟩

theorem of_indexed (h : t.Indexed) : Mirrors t [] [] [] where
  indexed := h
  nodup := List.nodup_nil
  length_eq := rfl
  drafted := nofun
  waits := nofun
  distinct := List.nodup_nil

theorem make (h : Mirrors t ids waiting drafts) (request : Request Nat) :
    Mirrors (t.make request).2 ids waiting drafts where
  indexed := h.indexed.make request
  nodup := h.nodup
  length_eq := h.length_eq
  drafted hDraft := by
    obtain ⟨id, body, hId, hKind, hBody⟩ := h.drafted hDraft
    exact ⟨id, body, hId, kind?_make_of_kind? hKind request,
      optionRel_mono (fun _ _ hAll => hAll.mono (grows_make t request) (List.prefix_refl _)) hBody⟩
  waits := h.waits
  distinct := h.distinct

theorem number_lt {id : Nat} {s : Spec} (h : Mirrors t ids waiting drafts)
    (hMem : (id, s) ∈ waiting) : ∃ n < drafts.length, s = .reference n := by
  obtain ⟨n, _, -, rfl, hDraft⟩ := h.waits hMem
  exact ⟨n, (List.getElem?_eq_some_iff.mp hDraft).1, rfl⟩

theorem declare (h : Mirrors t ids waiting drafts) (name : String) :
    Mirrors (t.declare name).2 (ids ++ [t.size]) ((t.size, .reference drafts.length) :: waiting)
      (drafts ++ [⟨name, none⟩]) where
  indexed := h.indexed.push _
  nodup := by
    refine List.nodup_append.mpr ⟨h.nodup, by simp, ?_⟩
    intro id hId new hNew
    obtain ⟨_, _, hKind⟩ := h.exists_name hId
    have hLt := lt_size_of_kind? hKind
    rw [List.mem_singleton.mp hNew]
    omega
  length_eq := by simp [h.length_eq]
  drafted {n d} hDraft := by
    obtain hOld | ⟨rfl, rfl⟩ := getElem?_concat_eq_some hDraft
    · obtain ⟨id, body, hId, hKind, hBody⟩ := h.drafted hOld
      have hGrows := grows_make t (.declare name)
      exact ⟨id, body, getElem?_of_isPrefix (List.prefix_append _ _) hId,
        kind?_push_of_kind? hKind,
        optionRel_mono (fun _ _ hAll => hAll.mono hGrows (List.prefix_append _ _)) hBody⟩
    · exact ⟨t.size, none, by simp [← h.length_eq], kind?_push_self t _, .none⟩
  waits {id s} hMem := by
    obtain hNew | hOld := List.mem_cons.mp hMem
    · cases hNew
      exact ⟨drafts.length, name, by simp [← h.length_eq], rfl, by simp⟩
    · obtain ⟨n, name', hId, rfl, hDraft⟩ := h.waits hOld
      exact ⟨n, name', getElem?_of_isPrefix (List.prefix_append _ _) hId, rfl,
        (List.getElem?_append_left (List.getElem?_eq_some_iff.mp hDraft).1).trans hDraft⟩
  distinct := by
    refine List.nodup_cons.mpr ⟨?_, h.distinct⟩
    intro hMem
    obtain ⟨⟨id, s⟩, hWaits, hEq⟩ := List.mem_map.mp hMem
    obtain ⟨n, hn, rfl⟩ := h.number_lt hWaits
    cases hEq
    omega

theorem exists_declared {id : Nat} {s : Spec} (h : Mirrors t ids ((id, s) :: waiting) drafts) :
    ∃ n name, s = .reference n ∧ ids[n]? = some id ∧ drafts[n]? = some ⟨name, none⟩ ∧
      t.kind? id = some (.struct (some name) none) := by
  obtain ⟨n, name, hId, rfl, hDraft⟩ := h.waits List.mem_cons_self
  obtain ⟨id', body, hId', hKind, hBody⟩ := h.drafted hDraft
  obtain rfl : id = id' := Option.some.inj (hId.symm.trans hId')
  cases hBody
  exact ⟨n, name, rfl, hId, hDraft, hKind⟩

theorem complete {id : Nat} {s : Spec} (h : Mirrors t ids ((id, s) :: waiting) drafts)
    {elems : List Nat} {fields : List Spec} (hFields : DenotesAll t ids elems fields) :
    (t.setBody id elems).1 = .ok () ∧
      Mirrors (t.setBody id elems).2 ids waiting (s.setBody fields drafts) := by
  obtain ⟨n, name, rfl, hId, hDraft, hKind⟩ := h.exists_declared
  have hComplete : t.complete id elems = _ := complete_of_declared hKind
  have hGrows := grows_setBody t id elems
  have hAfter : (t.setBody id elems).2 = t.setKind id (.struct (some name) (some elems)) := by
    simp [setBody, hComplete]
  have hAll : ∀ as bs, DenotesAll t ids as bs → DenotesAll (t.setBody id elems).2 ids as bs :=
    fun _ _ hAll => hAll.mono hGrows (List.prefix_refl _)
  refine ⟨by simp [setBody, hComplete], h.indexed.setBody id elems, h.nodup,
    by simp [h.length_eq], ?_, ?_, (List.nodup_cons.mp h.distinct).2⟩
  · intro i d hd
    by_cases hi : n = i
    · subst hi
      rw [Spec.setBody, List.getElem?_modify_eq, hDraft] at hd
      cases hd
      refine ⟨id, some elems, hId, ?_, .some (hAll _ _ hFields)⟩
      rw [hAfter, kind?_setKind, if_pos rfl, hKind]
      rfl
    · rw [Spec.setBody, List.getElem?_modify_ne _ _ hi] at hd
      obtain ⟨id', body, hId', hKind', hBody⟩ := h.drafted hd
      refine ⟨id', body, hId', ?_, optionRel_mono hAll hBody⟩
      have hNe : id' ≠ id := by
        rintro rfl
        exact hi ((List.getElem?_inj (List.getElem?_eq_some_iff.mp hId).1 h.nodup).mp
          (hId.trans hId'.symm))
      rw [hAfter, kind?_setKind, if_neg hNe, hKind']
  · intro id' s' hMem
    obtain ⟨i, name', hId', rfl, hDraft'⟩ := h.waits (List.mem_cons_of_mem _ hMem)
    refine ⟨i, name', hId', rfl, ?_⟩
    have hNe : n ≠ i := by
      rintro rfl
      exact (List.nodup_cons.mp h.distinct).1 (List.mem_map.mpr ⟨_, hMem, rfl⟩)
    rw [Spec.setBody, List.getElem?_modify_ne _ _ hNe, hDraft']

end Mirrors

theorem denotes_make {t : TypeTable} {ids : List Nat} {p : Request Nat} {q : Request Spec}
    (hIndexed : t.Indexed) (h : p.Matches (Denotes t ids) q) (drafts : List Draft) :
    Denotes (t.make p).2 ids (t.make p).1 (Spec.make q drafts).1 ∧
      (Spec.make q drafts).2 = drafts := by
  have hKind := hIndexed.kind?_make p
  have hMono {id : Nat} {s : Spec} (hId : Denotes t ids id s) : Denotes (t.make p).2 ids id s :=
    hId.mono (grows_make t p) (List.prefix_refl _)
  have hMonoAll {elems : List Nat} {specs : List Spec}
      (hAll : List.Forall₂ (Denotes t ids) elems specs) :
      DenotesAll (t.make p).2 ids elems specs :=
    denotesAll_iff.mpr (hAll.imp fun _ _ => hMono)
  refine ⟨?_, by cases h <;> rfl⟩
  cases h with
  | scalar k => exact .scalar hKind
  | pointer hElem => exact .pointer hKind (hMono hElem)
  | array count hElem => exact .array hKind (hMono hElem)
  | vector count hElem => exact .vector hKind (hMono hElem)
  | record hFields => exact .record hKind (hMonoAll hFields)
  | function hParams hRet hVariadic =>
    cases hVariadic
    exact .function hKind (hMonoAll hParams) (hMono hRet)

/-- Tables are coupled with trees by what their types denote. -/
def coupling : Coupling factory Spec.factory where
  Rel known waiting t drafts := ∃ ids, known = Denotes t ids ∧ Mirrors t ids waiting drafts
  classOf := by
    rintro _ waiting t drafts id s ⟨ids, rfl, -⟩ hKnown
    exact hKnown.classOf_eq
  make := by
    rintro _ waiting t drafts p q ⟨ids, rfl, hMirrors⟩ h
    obtain ⟨hDenotes, hDrafts⟩ := denotes_make hMirrors.indexed h drafts
    refine ⟨_, fun _ _ hKnown => hKnown.mono (grows_make t p) (List.prefix_refl _),
      ⟨ids, rfl, ?_⟩, hDenotes⟩
    exact hDrafts.symm ▸ hMirrors.make p
  declare := by
    rintro _ waiting t drafts name ⟨ids, rfl, hMirrors⟩
    refine ⟨_, fun _ _ hKnown => hKnown.mono (grows_make t (.declare name))
      (List.prefix_append _ _), ⟨ids ++ [t.size], rfl, hMirrors.declare name⟩, ?_⟩
    have hId : (ids ++ [t.size])[drafts.length]? = some t.size := by simp [← hMirrors.length_eq]
    exact .reference hId (kind?_push_self t _)
  setBody := by
    rintro _ waiting t drafts id s elems fields ⟨ids, rfl, hMirrors⟩ hFields
    obtain ⟨hOk, hMirrors'⟩ := hMirrors.complete (denotesAll_iff.mpr hFields)
    exact ⟨hOk, _, waiting, fun _ _ hKnown => hKnown.mono (grows_setBody t id elems)
      (List.prefix_refl _), ⟨ids, rfl, hMirrors'⟩, fun _ => rfl⟩

/-- The end of a parse does not depend on the table, and leaves its index sound. -/
theorem parse_matches {t : TypeTable} (h : t.Indexed) (spec : String) (config : Config) :
    Parse.RunsMatch coupling (Denotes t []) [] (t.parse spec config)
      (Parse.run Spec.factory config spec []) :=
  Parse.runs_match coupling config spec ⟨[], rfl, .of_indexed h⟩

theorem Indexed.parse {t : TypeTable} (h : t.Indexed) (spec : String) (config : Config) :
    (t.parse spec config).store.Indexed := by
  cases parse_matches h spec config with
  | ok _ _ _ _ hRel =>
    obtain ⟨_, -, hMirrors⟩ := hRel
    exact hMirrors.indexed
  | error _ _ hRel =>
    obtain ⟨_, -, hMirrors⟩ := hRel
    exact hMirrors.indexed

end CompactType.TypeTable
