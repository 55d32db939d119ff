import CompactType.Proofs.Braces
import CompactType.Proofs.Coherence
import CompactType.Proofs.Parsed

/-!
# The effect of a parse on a table

A parse adds types and leaves those before alone. The named structs among the new types are the
definitions of the text, in order. Those whose closing brace was not read are left without a body;
every other one has the body that the text gives it.
-/

set_option autoImplicit false

namespace CompactType.TypeTable

/-- Ids of the named structs that the second table has in addition to the first, in order. -/
def newStructs (t t' : TypeTable) : List Nat :=
  (List.range' t.size (t'.size - t.size)).filter fun id => (t'.kind? id).any Kind.isNamed

/-- The named struct has a body, which one of the calls gave it. It is made of types with values. -/
def Filled (t : TypeTable) (calls : List (Call Nat)) (name : String) (id : Nat) : Prop :=
  ∃ fields, t.kind? id = some (.struct (some name) (some fields)) ∧ .body id fields ∈ calls ∧
    fields ≠ [] ∧ ∀ f ∈ fields, (t.classOf f).isValue = true

variable {t t' t'' : TypeTable} {config : Config} {calls : List (Call Nat)} {waiting : List Nat}
  {id : Nat}

section NewStructs

theorem mem_newStructs : id ∈ newStructs t t' ↔
    t.size ≤ id ∧ id < t'.size ∧ (t'.kind? id).any Kind.isNamed = true := by
  simp only [newStructs, List.mem_filter, List.mem_range'_1]
  constructor
  · rintro ⟨⟨hLe, hLt⟩, hNamed⟩
    exact ⟨hLe, by omega, hNamed⟩
  · rintro ⟨hLe, hLt, hNamed⟩
    exact ⟨⟨hLe, by omega⟩, hNamed⟩

theorem nodup_newStructs (t t' : TypeTable) : (newStructs t t').Nodup :=
  List.Pairwise.filter _ List.nodup_range'

theorem Grows.any_isNamed (h : Grows t' t'') (hLt : id < t'.size) :
    (t''.kind? id).any Kind.isNamed = (t'.kind? id).any Kind.isNamed := by
  obtain ⟨k, hKind⟩ := exists_kind?_of_lt hLt
  obtain hSame | ⟨name, fields, rfl, hSet⟩ := h id k hKind
  · rw [hSame, hKind]
  · rw [hSet, hKind]
    rfl

theorem newStructs_of_size_eq (h : Grows t' t'') (hSize : t''.size = t'.size) :
    newStructs t t'' = newStructs t t' := by
  rw [newStructs, newStructs, hSize]
  apply List.filter_congr
  intro id hMem
  rw [List.mem_range'_1] at hMem
  exact h.any_isNamed (by omega)

theorem newStructs_of_size_succ (h : Grows t' t'') (hLe : t.size ≤ t'.size)
    (hSize : t''.size = t'.size + 1) {k : Kind} (hKind : t''.kind? t'.size = some k) :
    newStructs t t'' = newStructs t t' ++ if k.isNamed then [t'.size] else [] := by
  have hCount : t''.size - t.size = t'.size - t.size + 1 := by omega
  have hLast : t.size + (t'.size - t.size) = t'.size := by omega
  rw [newStructs, hCount, List.range'_1_concat, List.filter_append, hLast, newStructs]
  congr 1
  · apply List.filter_congr
    intro id hMem
    rw [List.mem_range'_1] at hMem
    exact h.any_isNamed (by omega)
  · simp [List.filter_cons, hKind]

end NewStructs

section Steps

theorem make_cases (t : TypeTable) (r : Request Nat) :
    (t.make r).2 = t ∧ r.name? = none ∨ (t.make r).1 = t.size ∧
      (t.make r).2.size = t.size + 1 ∧ (t.make r).2.kind? t.size = some r.kind := by
  have hIntern (k : Kind) : (t.intern k).2 = t ∨ (t.intern k).1 = t.size ∧
      (t.intern k).2.size = t.size + 1 ∧ (t.intern k).2.kind? t.size = some k := by
    cases hLookup : t.interned.lookup k with
    | some id => exact .inl (by rw [intern_of_lookup hLookup])
    | none =>
      rw [intern_of_lookup_none hLookup]
      exact .inr ⟨rfl, t.size_push k, kind?_push_self t k⟩
  cases r with
  | declare name => exact .inr ⟨rfl, t.size_push _, kind?_push_self t _⟩
  | _ => exact (hIntern _).imp_left fun h => ⟨h, rfl⟩

theorem isNamed_kind (r : Request Nat) : r.kind.isNamed = r.name?.isSome := by
  cases r <;> rfl

theorem Grows.isValue (h : Grows t t') (hValue : (t.classOf id).isValue = true) :
    (t'.classOf id).isValue = true := by
  unfold classOf at hValue ⊢
  cases hKind : t.kind? id with
  | none =>
    rw [hKind] at hValue
    cases hValue
  | some k =>
    obtain hSame | ⟨name, fields, rfl, hSet⟩ := h id k hKind
    · rwa [hSame, ← hKind]
    · rw [hSet]
      rfl

theorem Filled.mono {name : String} {calls' : List (Call Nat)} (h : Filled t calls name id)
    (hGrows : Grows t t') (hCalls : calls ⊆ calls') : Filled t' calls' name id := by
  obtain ⟨fields, hKind, hMem, hNonempty, hValue⟩ := h
  exact ⟨fields, hGrows.completed hKind, hCalls hMem, hNonempty,
    fun f hf => hGrows.isValue (hValue f hf)⟩

end Steps

/-- What calls did to a table, after which some structs wait for a body. -/
structure Effect (t : TypeTable) (config : Config) (calls : List (Call Nat)) (waiting : List Nat)
    (t' : TypeTable) : Prop where
  grows : Grows t t'
  kept : ∀ id < t.size, t'.kind? id = t.kind? id
  declared : (Parse.declarations calls).map Prod.snd = newStructs t t'
  incomplete : ∀ k id, (newStructs t t')[k]? = some id → id ∈ waiting →
    t'.kind? id = some (.struct (some (config.structName k)) none)
  filled : ∀ k id, (newStructs t t')[k]? = some id → id ∉ waiting →
    Filled t' calls (config.structName k) id

namespace Effect

theorem nil (t : TypeTable) (config : Config) : Effect t config [] [] t := by
  have hNone : newStructs t t = [] := by simp [newStructs]
  refine ⟨.refl t, fun _ _ => rfl, hNone.symm, ?_, ?_⟩
  · intro k id h
    simp [hNone] at h
  · intro k id h
    simp [hNone] at h

theorem request (h : Effect t config calls waiting t') {r : Request Nat} (hName : r.name? = none) :
    Effect t config (calls ++ [.made r id]) waiting (t'.make r).2 := by
  have hGrows := grows_make t' r
  have hNew : newStructs t (t'.make r).2 = newStructs t t' := by
    obtain ⟨hSame, -⟩ | ⟨-, hSize, hKind⟩ := t'.make_cases r
    · rw [hSame]
    · rw [newStructs_of_size_succ hGrows h.grows.size_le hSize hKind, isNamed_kind, hName]
      exact List.append_nil _
  refine ⟨h.grows.trans hGrows, ?_, ?_, ?_, ?_⟩
  · intro i hi
    obtain ⟨k, hKind⟩ := exists_kind?_of_lt (Nat.lt_of_lt_of_le hi h.grows.size_le)
    rw [kind?_make_of_kind? hKind, ← hKind, h.kept i hi]
  · rw [hNew, Parse.declarations_made _ _ hName, h.declared]
  · intro k i hi hWaits
    exact kind?_make_of_kind? (h.incomplete k i (hNew ▸ hi) hWaits) r
  · intro k i hi hDone
    exact (h.filled k i (hNew ▸ hi) hDone).mono hGrows (List.subset_append_left ..)

theorem declare (h : Effect t config calls waiting t') :
    Effect t config
      (calls ++ [.made (.declare (config.structName (Parse.declarations calls).length)) t'.size])
      (t'.size :: waiting)
      (t'.declare (config.structName (Parse.declarations calls).length)).2 := by
  have hGrows := grows_make t' (.declare (config.structName (Parse.declarations calls).length))
  have hNew := newStructs_of_size_succ hGrows h.grows.size_le (t'.size_push _)
    (kind?_push_self t' _)
  have hLength : (newStructs t t').length = (Parse.declarations calls).length := by
    rw [← h.declared, List.length_map]
  refine ⟨h.grows.trans hGrows, ?_, ?_, ?_, ?_⟩
  · intro i hi
    obtain ⟨k, hKind⟩ := exists_kind?_of_lt (Nat.lt_of_lt_of_le hi h.grows.size_le)
    rw [TypeTable.declare, kind?_push_of_kind? hKind, ← hKind, h.kept i hi]
  · rw [Parse.declarations_declare, List.map_append, h.declared]
    exact hNew.symm
  · intro k i hi hWaits
    obtain hOld | ⟨rfl, rfl⟩ := getElem?_concat_eq_some (hNew ▸ hi)
    · have hLt := (mem_newStructs.mp (List.mem_of_getElem? hOld)).2.1
      have hWaits' := List.mem_of_ne_of_mem (Nat.ne_of_lt hLt) hWaits
      exact kind?_push_of_kind? (h.incomplete k i hOld hWaits')
    · rw [hLength]
      exact kind?_push_self t' _
  · intro k i hi hDone
    obtain ⟨hNe, hDone'⟩ := not_or.mp (mt List.mem_cons.mpr hDone)
    obtain hOld | ⟨-, rfl⟩ := getElem?_concat_eq_some (hNew ▸ hi)
    · exact (h.filled k i hOld hDone').mono hGrows (List.subset_append_left ..)
    · exact absurd rfl hNe

theorem body (h : Effect t config calls (id :: waiting) t') (hNew : id ∈ newStructs t t')
    (hOnce : id ∉ waiting) {fields : List Nat} (hNonempty : fields ≠ [])
    (hValue : ∀ f ∈ fields, (t'.classOf f).isValue = true) :
    Effect t config (calls ++ [.body id fields]) waiting (t'.setBody id fields).2 := by
  obtain ⟨n, hn⟩ := List.mem_iff_getElem?.mp hNew
  have hDeclared := h.incomplete n id hn List.mem_cons_self
  have hGrows := grows_setBody t' id fields
  have hSet : (t'.setBody id fields).2 =
      t'.setKind id (.struct (some (config.structName n)) (some fields)) := by
    rw [setBody_of_declared hDeclared]
  have hSame : newStructs t (t'.setBody id fields).2 = newStructs t t' :=
    newStructs_of_size_eq hGrows (by rw [hSet, size_setKind])
  have hOther {i : Nat} (hi : i ≠ id) : (t'.setBody id fields).2.kind? i = t'.kind? i := by
    rw [hSet, kind?_setKind, if_neg hi]
  refine ⟨h.grows.trans hGrows, ?_, ?_, ?_, ?_⟩
  · intro i hi
    have hLe := (mem_newStructs.mp hNew).1
    rw [hOther (by omega), h.kept i hi]
  · rw [hSame, Parse.declarations_body, h.declared]
  · intro k i hi hWaits
    have hNe : i ≠ id := by
      rintro rfl
      exact hOnce hWaits
    rw [hOther hNe]
    exact h.incomplete k i (hSame ▸ hi) (List.mem_cons_of_mem id hWaits)
  · intro k i hi hDone
    rw [hSame] at hi
    by_cases hNe : i = id
    · subst hNe
      obtain rfl : k = n := (List.getElem?_inj (List.getElem?_eq_some_iff.mp hi).1
        (nodup_newStructs t t')).mp (hi.trans hn.symm)
      refine ⟨fields, ?_, by simp, hNonempty, fun f hf => hGrows.isValue (hValue f hf)⟩
      rw [hSet, kind?_setKind, if_pos rfl, hDeclared]
      rfl
    · have hDone' : i ∉ id :: waiting := mt (List.mem_of_ne_of_mem hNe) hDone
      exact (h.filled k i hi hDone').mono hGrows (List.subset_append_left ..)

end Effect

theorem effect_replay (h : Parse.Conforms factory config t calls waiting) :
    Effect t config calls waiting (factory.replay t calls) := by
  induction h with
  | nil => exact .nil t config
  | @request calls _ _ r _ _ hName _ hAsks ih =>
    rw [hAsks.calls_eq, Factory.replay_concat]
    exact ih.request hName
  | @declare calls _ _ _ _ hAsks ih =>
    obtain ⟨-, rfl, rfl⟩ := hAsks
    rw [Factory.replay_concat]
    exact ih.declare
  | @body calls _ waiting fields id hConforms _ hFills ih =>
    rw [hFills.calls_eq, Factory.replay_concat]
    have hPerm := hConforms.nested.perm
    rw [ih.declared] at hPerm
    have hNodup := hPerm.nodup_iff.mpr (nodup_newStructs _ _)
    have hNew : id ∈ newStructs t (factory.replay t calls) :=
      hPerm.mem_iff.mp (List.mem_append_right _ List.mem_cons_self)
    exact ih.body hNew (List.nodup_cons.mp (List.nodup_append.mp hNodup).2.1).1 hFills.ne_nil
      hFills.isValue

section Guarded

/-- Answers as the tables do wherever they are asked for what they have. Anything may happen for an
id outside the table, a scalar that is missing or a body of a type without a printed form. -/
structure Guarded (G : Factory TypeTable Nat) : Prop where
  scalar : ∀ t k id, t.interned.lookup (.scalar k) = some id →
    G.make (.scalar k) t = factory.make (.scalar k) t
  make : ∀ t r, (∀ k, r ≠ .scalar k) → G.make r t = factory.make r t
  setBody : ∀ t id fields text, t.text id = .ok text →
    G.setBody id fields t = factory.setBody id fields t
  classOf : ∀ t id, id < t.size → G.classOf t id = factory.classOf t id

def InTable (t : TypeTable) (a b : Nat) : Prop := a = b ∧ b < t.size

/-- Two equal tables that have all that a parse can ask for. -/
structure Safe (known : Nat → Nat → Prop) (waiting : List (Nat × Nat)) (t t' : TypeTable) :
    Prop where
  eq : t = t'
  coherent : t.Coherent
  scalars : ∀ k, ∃ id, t.kind? id = some (.scalar k)
  known_le : known ≤ t.InTable
  waiting_named : ∀ p ∈ waiting, p.1 = p.2 ∧
    ∃ name body, t.kind? p.1 = some (.struct (some name) body)

variable {known : Nat → Nat → Prop} {waiting : List (Nat × Nat)} {G : Factory TypeTable Nat}

theorem Grows.inTable_le (h : Grows t t') : t.InTable ≤ t'.InTable :=
  fun _ _ hIn => ⟨hIn.1, Nat.lt_of_lt_of_le hIn.2 h.size_le⟩

theorem Safe.grow (h : Safe known waiting t t') (hGrows : Grows t t'') (hCoherent : t''.Coherent) :
    Safe t''.InTable waiting t'' t'' where
  eq := rfl
  coherent := hCoherent
  scalars k := by
    obtain ⟨id, hKind⟩ := h.scalars k
    exact ⟨id, hGrows.unnamed hKind rfl⟩
  known_le := le_rfl
  waiting_named p hp := by
    obtain ⟨hEq, name, body, hKind⟩ := h.waiting_named p hp
    exact ⟨hEq, name, hGrows.named hKind⟩

theorem Guarded.make_eq (hG : Guarded G) (h : Safe known waiting t t') (r : Request Nat) :
    G.make r t = factory.make r t := by
  cases r with
  | scalar k =>
    obtain ⟨id, hKind⟩ := h.scalars k
    exact hG.scalar t k id (h.coherent.interned _ id hKind rfl)
  | _ => exact hG.make t _ nofun

theorem Coherent.make_lt_size (h : t.Coherent) (r : Request Nat) :
    (t.make r).1 < (t.make r).2.size :=
  (h.between_make r).lt_size _ List.mem_cons_self

def Guarded.coupling (hG : Guarded G) : Coupling factory G where
  Rel := Safe
  classOf := by
    rintro known waiting t _ a b ⟨rfl, -, -, hKnown, -⟩ hab
    obtain ⟨rfl, hLt⟩ := hKnown a b hab
    exact (hG.classOf t a hLt).symm
  make := by
    intro known waiting t t' p q h hMatches
    obtain rfl := hMatches.eq fun a b hab => (h.known_le a b hab).1
    obtain rfl := h.eq
    rw [hG.make_eq h]
    exact ⟨_, h.known_le.trans (grows_make t p).inTable_le,
      h.grow (grows_make t p) (h.coherent.make p), rfl, h.coherent.make_lt_size p⟩
  declare := by
    intro known waiting t t' name h
    obtain rfl := h.eq
    rw [hG.make_eq h]
    have hSafe := h.grow (grows_make t (.declare name)) (h.coherent.declare name)
    refine ⟨_, h.known_le.trans (grows_make t (.declare name)).inTable_le,
      { hSafe with waiting_named := ?_ }, rfl, h.coherent.make_lt_size _⟩
    rintro p (_ | ⟨_, hp⟩)
    · exact ⟨rfl, name, none, kind?_push_self t _⟩
    · exact hSafe.waiting_named p hp
  setBody := by
    intro known waiting t t' a b as bs h hFields
    obtain rfl := h.eq
    obtain ⟨hEq, name, body, hKind⟩ := h.waiting_named (a, b) List.mem_cons_self
    obtain rfl : a = b := hEq
    obtain rfl : as = bs :=
      List.forall₂_eq_eq_eq ▸ hFields.imp fun a b hab => (h.known_le a b hab).1
    rw [hG.setBody t a as _ (text_of_named hKind)]
    have hSafe := h.grow (grows_setBody t a as) (h.coherent.setBody a as)
    exact ⟨rfl, _, waiting, h.known_le.trans (grows_setBody t a as).inTable_le,
      { hSafe with waiting_named := fun p hp => hSafe.waiting_named p (List.mem_cons_of_mem _ hp) },
      fun _ => rfl⟩

theorem Guarded.run_eq (hG : Guarded G) (h : Reachable t) (config : Config) (spec : String) :
    (Parse.run G config spec t).outcome = (t.parse spec config).outcome ∧
      (Parse.run G config spec t).store = (t.parse spec config).store := by
  have hSafe : hG.coupling.Rel (fun _ _ => False) [] t t :=
    ⟨rfl, h.coherent, h.exists_scalar, fun _ _ => False.elim, nofun⟩
  cases Parse.runs_match hG.coupling config spec hSafe with
  | ok hLeft hRight _ hKnown hRel =>
    rw [parse, hLeft, hRight, (hRel.known_le _ _ hKnown).1]
    exact ⟨rfl, hRel.eq.symm⟩
  | error hLeft hRight hRel => exact ⟨hRight.trans hLeft.symm, hRel.eq.symm⟩

end Guarded

theorem Indexed.cause_ne_factory (h : t.Indexed) {spec : String} {diagnostic : Diagnostic}
    (hError : (t.parse spec config).outcome = .error diagnostic) (refusal : Refusal) :
    diagnostic.cause ≠ .factory refusal := by
  cases parse_matches h spec config with
  | ok hLeft => cases hLeft.symm.trans hError
  | error hLeft hRight =>
    cases hLeft.symm.trans hError
    unfold Parse.run at hRight
    cases hRun : (Parse.whole Spec.factory config).run (Parse.start spec []) with
    | ok handle s =>
      rw [hRun] at hRight
      cases hRight
    | error fault s =>
      rw [hRun] at hRight
      cases hRight
      intro hCause
      obtain ⟨calls, -, -, hRefused, -⟩ := Parse.exists_stops hRun
      obtain ⟨before, handle, fields, -, hAnswer⟩ := hRefused refusal hCause
      cases hAnswer

theorem Effect.namedBy (h : Effect t config calls waiting t') :
    t'.NamedBy (newStructs t t') config.structName := by
  intro k i hi
  by_cases hWaits : i ∈ waiting
  · exact ⟨none, h.incomplete k i hi hWaits⟩
  · obtain ⟨fields, hKind, -⟩ := h.filled k i hi hWaits
    exact ⟨some fields, hKind⟩

theorem Effect.getElem?_of_numbered (h : Effect t config calls waiting t') {k : Nat}
    (hNumbered : Parse.Numbered calls k id) : (newStructs t t')[k]? = some id := by
  obtain ⟨name, hName⟩ := hNumbered
  rw [← h.declared, List.getElem?_map, hName]
  rfl

theorem Effect.mem_iff (h : Effect t config calls waiting t') {numbers : List Nat}
    (hNumbered : List.Forall₂ (Parse.Numbered calls) numbers waiting) {k : Nat}
    (hk : (newStructs t t')[k]? = some id) : k ∈ numbers ↔ id ∈ waiting := by
  have hUnique : Relator.BiUnique fun (k : Nat) i => (newStructs t t')[k]? = some i := by
    constructor
    · intro k k' i hk hk'
      exact (List.getElem?_inj (List.getElem?_eq_some_iff.mp hk).1 (nodup_newStructs t t')).mp
        (hk.trans hk'.symm)
    · intro k i i' hi hi'
      exact Option.some.inj (hi.symm.trans hi')
  exact List.rel_mem hUnique hk (hNumbered.imp fun _ _ => h.getElem?_of_numbered)

open Braces (unclosed)

/-- The new structs of a table after a parse that made the calls, by the outcome of the parse. -/
inductive Leaves (t : TypeTable) (config : Config) (spec : String) (calls : List (Call Nat))
    (t' : TypeTable) : Except Diagnostic Nat → Prop where
  | ok {id : Nat} : (newStructs t t').length = spec.toList.count '=' →
    (∀ k i, (newStructs t t')[k]? = some i → Filled t' calls (config.structName k) i) →
    Leaves t config spec calls t' (.ok id)
  | error {fault : Fault} {s : Parse.State TypeTable Nat} :
    (Parse.whole factory config).run (Parse.start spec t) = .error fault s →
    (∀ refusal, fault.cause ≠ .factory refusal) →
    /- An unexpected character starts at the position of the fault, which is measured in bytes. -/
    (∀ c, fault.cause = .unexpectedChar c → spec.toList[fault.pos]? = some c ∧
      ∀ d ∈ spec.toList.take fault.pos, d.utf8Size = 1) →
    (∀ k ∈ unclosed (spec.toList.take (Parse.boundary fault s)), k < (newStructs t t').length) →
    (∀ k i, (newStructs t t')[k]? = some i →
      if k ∈ unclosed (spec.toList.take (Parse.boundary fault s)) then
        t'.kind? i = some (.struct (some (config.structName k)) none)
      else Filled t' calls (config.structName k) i) →
    Leaves t config spec calls t' (.error ⟨fault, spec⟩)

theorem Effect.length_newStructs {text : List Char}
    (hMakes : Parse.Makes factory config t [] text id calls)
    (h : Effect t config calls waiting t') : (newStructs t t').length = text.count '=' := by
  rw [← h.declared, List.length_map, hMakes.balanced.length_eq]
  exact Nat.zero_add _

theorem leaves_of_makes {spec : String}
    (hMakes : Parse.Makes factory config t [] spec.toList id calls)
    (h : Effect t config calls [] t') : Leaves t config spec calls t' (.ok id) :=
  .ok (h.length_newStructs hMakes) fun k i hi => h.filled k i hi List.not_mem_nil

theorem Effect.lt_length (h : Effect t config calls waiting t') {numbers : List Nat}
    (hNumbered : List.Forall₂ (Parse.Numbered calls) numbers waiting) :
    ∀ k ∈ numbers, k < (newStructs t t').length := by
  intro k hk
  obtain ⟨n, hn⟩ := List.mem_iff_getElem?.mp hk
  have hRel := forall₂_getElem? hNumbered n
  rw [hn] at hRel
  generalize waiting[n]? = found at hRel
  cases hRel with
  | some hNumber => exact (List.getElem?_eq_some_iff.mp (h.getElem?_of_numbered hNumber)).1

theorem Indexed.leaves_of_error (h : t.Indexed) {spec : String} {fault : Fault}
    {s : Parse.State TypeTable Nat}
    (hRun : (Parse.whole factory config).run (Parse.start spec t) = .error fault s)
    (hTracks : Parse.Tracks factory t calls s)
    (hOutcome : (t.parse spec config).outcome = .error ⟨fault, spec⟩) :
    Leaves t config spec calls (factory.replay t calls) (.error ⟨fault, spec⟩) := by
  obtain ⟨_, hTracks', hHalts, -, hStops⟩ := Parse.exists_stops hRun
  obtain rfl := hTracks'.calls_eq.symm.trans hTracks.calls_eq
  obtain ⟨waiting, hConforms, hNumbered⟩ := hStops.exists_unclosed
  have hEffect := effect_replay hConforms
  refine .error hRun (h.cause_ne_factory hOutcome) ?_ (hEffect.lt_length hNumbered) ?_
  · intro c hCause
    have hBoundary : Parse.boundary fault s = fault.pos := by rw [Parse.boundary, hCause]
    rw [hBoundary] at hHalts
    obtain ⟨more, hMore⟩ := hHalts.unexpected c hCause
    have hLength : fault.pos = (spec.toList.take fault.pos).length :=
      hBoundary.symm.trans (hHalts.boundary_eq.trans (Nat.zero_add _))
    refine ⟨?_, hHalts.utf8Size_eq⟩
    calc spec.toList[fault.pos]? = (spec.toList.take fault.pos ++ c :: more)[fault.pos]? :=
          congrArg (·[fault.pos]?) hMore
      _ = some c := by
          rw [List.getElem?_append_right (Nat.le_of_eq hLength.symm), ← hLength, Nat.sub_self]
          rfl
  · intro k i hi
    split
    · next hk => exact hEffect.incomplete k i hi ((hEffect.mem_iff hNumbered hi).mp hk)
    · next hk => exact hEffect.filled k i hi (mt (hEffect.mem_iff hNumbered hi).mpr hk)

/-- Parsing into a reachable table neither panics nor is refused by the table. Older types stay as
they are, and new structs are named in order and complete but for those with unclosed braces. -/
theorem Reachable.parse_leaves {t : TypeTable} (h : t.Reachable) (spec : String) (config : Config) :
    ∃ calls, Journal.calls (t.parse spec config).journal = calls ∧
      (∀ G, Guarded G → (Parse.run G config spec t).outcome = (t.parse spec config).outcome ∧
        (Parse.run G config spec t).store = (t.parse spec config).store) ∧
      (∀ id < t.size, (t.parse spec config).store.kind? id = t.kind? id) ∧
      (t.parse spec config).store.NamedBy (newStructs t (t.parse spec config).store)
        config.structName ∧
      Leaves t config spec calls (t.parse spec config).store (t.parse spec config).outcome := by
  obtain ⟨calls, waiting, hCalls, hStore, hConforms, hEnding⟩ :=
    Parse.exists_conforms factory config spec t
  have hEffect := effect_replay hConforms
  refine ⟨calls, hCalls, fun G hG => hG.run_eq h config spec, ?_, ?_, ?_⟩
  · rw [parse, hStore]
    exact hEffect.kept
  · rw [parse, hStore]
    exact hEffect.namedBy
  · rw [parse, hStore]
    generalize hOutcome : (Parse.run factory config spec t).outcome = outcome at hEnding
    cases hEnding with
    | ok hNone hMakes =>
      subst hNone
      exact leaves_of_makes hMakes hEffect
    | error hRun hTracks => exact h.indexed.leaves_of_error hRun hTracks hOutcome

theorem parse_leaves_unfinished :
    (initial.after [.make (.declare "node")]).Reachable ∧
    ∃ calls,
      Leaves (initial.after [.make (.declare "node")]) .shallow "=0\x7bi=1\x7b*%0\x7d" calls
        ((initial.after [.make (.declare "node")]).parse "=0\x7bi=1\x7b*%0\x7d" .shallow).store
        (.error ⟨⟨.missingClose '}', 11⟩, "=0\x7bi=1\x7b*%0\x7d"⟩) ∧
      newStructs (initial.after [.make (.declare "node")])
        ((initial.after [.make (.declare "node")]).parse "=0\x7bi=1\x7b*%0\x7d" .shallow).store =
          [10, 11] ∧
      ((initial.after [.make (.declare "node")]).parse
        "=0\x7bi=1\x7b*%0\x7d" .shallow).store.kind? 9 = some (.struct (some "node") none) := by
  have hReachable : (initial.after [.make (.declare "node")]).Reachable := ⟨_, rfl⟩
  have hOutcome : ((initial.after [.make (.declare "node")]).parse
      "=0\x7bi=1\x7b*%0\x7d" .shallow).outcome =
        .error ⟨⟨.missingClose '}', 11⟩, "=0\x7bi=1\x7b*%0\x7d"⟩ := by
    decide +kernel
  obtain ⟨calls, -, -, hKept, -, hLeaves⟩ := hReachable.parse_leaves "=0\x7bi=1\x7b*%0\x7d" .shallow
  refine ⟨hReachable, calls, hOutcome ▸ hLeaves, by decide +kernel, ?_⟩
  rw [hKept 9 (by decide)]
  decide

end CompactType.TypeTable
