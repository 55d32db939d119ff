import CompactType.Proofs.Coherence
import CompactType.Proofs.PrintedForms
import CompactType.Proofs.RoundTrip

/-!
# The same type for the same tree

In a coherent table no two types stand for one tree. So texts that define no struct are parsed to
the same type if and only if their canonical texts are the same, whatever is done with the table in
between, and if and only if the types are printed in the same way. A type that is there already is
found again, with all its parts, and nothing is added for it.
-/

set_option autoImplicit false

namespace CompactType

theorem Spells.eq_of_not_mem {n m : Nat} {text : List Char} {s : Spec} (h : Spells n text s m)
    (hPlain : '=' ∉ text) : m = n := by
  rw [h.eq_add_count, List.count_eq_zero_of_not_mem hPlain, Nat.add_zero]

namespace TypeTable

mutual

/-- In a coherent table no two types stand for the same tree. -/
theorem Denotes.unique {t : TypeTable} (hCoherent : t.Coherent) {ids : List Nat} {a b : Nat}
    {s : Spec} (h : Denotes t ids a s) (h' : Denotes t ids b s) : a = b := by
  cases h with
  | scalar hKind =>
    cases h' with
    | scalar hKind' => exact hCoherent.unique rfl hKind hKind'
  | pointer hKind h =>
    cases h' with
    | pointer hKind' h' =>
      obtain rfl := h.unique hCoherent h'
      exact hCoherent.unique rfl hKind hKind'
  | array hKind h =>
    cases h' with
    | array hKind' h' =>
      obtain rfl := h.unique hCoherent h'
      exact hCoherent.unique rfl hKind hKind'
  | vector hKind h =>
    cases h' with
    | vector hKind' h' =>
      obtain rfl := h.unique hCoherent h'
      exact hCoherent.unique rfl hKind hKind'
  | record hKind h =>
    cases h' with
    | record hKind' h' =>
      obtain rfl := h.unique hCoherent h'
      exact hCoherent.unique rfl hKind hKind'
  | define hId =>
    cases h' with
    | define hId' => exact Option.some.inj (hId.symm.trans hId')
  | reference hId =>
    cases h' with
    | reference hId' => exact Option.some.inj (hId.symm.trans hId')
  | function hKind h hRet =>
    cases h' with
    | function hKind' h' hRet' =>
      obtain rfl := h.unique hCoherent h'
      obtain rfl := hRet.unique hCoherent hRet'
      exact hCoherent.unique rfl hKind hKind'
termination_by sizeOf s

theorem DenotesAll.unique {t : TypeTable} (hCoherent : t.Coherent) {ids as bs : List Nat}
    {specs : List Spec} (h : DenotesAll t ids as specs) (h' : DenotesAll t ids bs specs) :
    as = bs := by
  cases h with
  | nil =>
    cases h'
    rfl
  | cons hHead hTail =>
    cases h' with
    | cons hHead' hTail' =>
      rw [hHead.unique hCoherent hHead', hTail.unique hCoherent hTail']
termination_by sizeOf specs

end

/-- The type stands for a tree without named structs. -/
def Plain (t : TypeTable) (id : Nat) : Prop := ∃ s, Denotes t [] id s

section Plain

variable {t t' : TypeTable} {id : Nat} {k : Kind}

theorem Plain.isNamed_eq (h : t.Plain id) (hKind : t.kind? id = some k) : k.isNamed = false := by
  obtain ⟨s, h⟩ := h
  cases h with
  | scalar hKind' | pointer hKind' | array hKind' | vector hKind' | record hKind'
  | function hKind' =>
    cases hKind.symm.trans hKind'
    rfl
  | define hId | reference hId => cases hId

theorem Plain.parts (h : t.Plain id) (hKind : t.kind? id = some k) :
    ∀ part ∈ k.parts, t.Plain part := by
  intro part hPart
  have hNot := h.isNamed_eq hKind
  obtain ⟨s, hDenotes⟩ := h
  obtain ⟨s', hPart', -⟩ := hDenotes.inner ⟨k, hKind, hNot, hPart⟩
  exact ⟨s', hPart'⟩

theorem Plain.kind?_eq (h : t.Plain id) (hGrows : Grows t t') (hKind : t'.kind? id = some k) :
    t.kind? id = some k := by
  have ⟨s, hDenotes⟩ := h
  obtain ⟨k', hKind', -⟩ := hDenotes.exists_kind?
  rw [← hKind, hKind', hGrows.unnamed hKind' (h.isNamed_eq hKind')]

end Plain

theorem make_eq_intern {r : Request Nat} (h : r.kind.isNamed = false) (t : TypeTable) :
    t.make r = t.intern r.kind := by
  cases r with
  | declare name => cases h
  | _ => rfl

theorem grows_of_isPrefix {calls calls' : List (Call Nat)} (h : calls <+: calls') (t : TypeTable) :
    Grows (factory.replay t calls) (factory.replay t calls') := by
  obtain ⟨more, rfl⟩ := h
  rw [Factory.replay_append]
  exact grows_replay _ more

theorem Coherent.plain_of_void {t t' : TypeTable} (h : t'.Coherent) (hGrows : Grows t t')
    {void : Nat} (hKind : t.kind? void = some (.scalar .void)) {id : Nat} (hLt : id < t'.size)
    (hClass : t'.classOf id = .void) : t.Plain id := by
  obtain ⟨k, hk⟩ := exists_kind?_of_lt hLt
  have hScalar : k = .scalar .void := by
    simp only [classOf, hk, Option.map_some, Option.getD_some] at hClass
    cases k with
    | scalar k => cases k <;> first | rfl | cases hClass
    | _ => cases hClass
  obtain rfl := h.unique rfl (hScalar ▸ hk) (hGrows.unnamed hKind rfl)
  exact ⟨_, .scalar hKind⟩

end TypeTable

namespace Parse

open TypeTable

theorem Amount.mem_or_void {H : Type} {classOf : H → TypeClass} {before : List (Element H)}
    {params : List H} {variadic : Bool} (h : Amount classOf before params variadic) {p : H}
    (hp : .type p ∈ before) : p ∈ params ∨ classOf p = .void := by
  cases h with
  | params | variadic => exact .inl (by simpa using hp)
  | void hVoid | voidVariadic hVoid =>
    obtain rfl : p = _ := by simpa using hp
    exact .inr hVoid

section Found

variable {t : TypeTable} {config : Config}

theorem Asks.replay_eq {before calls calls' : List (Call Nat)} {r : Request Nat} {id : Nat}
    (hAsks : Asks factory t calls r id calls') (hCoherent : t.Coherent)
    (hNot : r.kind.isNamed = false) (hBefore : before <+: calls)
    (hPlain : (factory.replay t before).Plain id)
    (hParts : (∀ part ∈ r.kind.parts, (factory.replay t before).Plain part) →
      factory.replay t calls = factory.replay t before) :
    factory.replay t calls' = factory.replay t before := by
  have hMake := make_eq_intern hNot (factory.replay t calls)
  have hAfter : factory.replay t calls' = ((factory.replay t calls).intern r.kind).2 := by
    rw [hAsks.calls_eq, Factory.replay_concat]
    exact congrArg Prod.snd hMake
  have hId : ((factory.replay t calls).intern r.kind).1 = id :=
    (congrArg Prod.fst hMake).symm.trans hAsks.answer_eq
  have hGrows := grows_of_isPrefix (hBefore.trans hAsks.isPrefix) t
  have hKind : (factory.replay t before).kind? id = some r.kind := by
    apply hPlain.kind?_eq hGrows
    rw [hAfter, ← hId]
    exact (hCoherent.replay calls).kind?_intern hNot
  rw [hAfter, hParts (hPlain.parts hKind), (hCoherent.replay before).intern_of_kind? hNot hKind]

theorem Conforms.answer_lt_size (hCoherent : t.Coherent) {calls : List (Call Nat)}
    {waiting : List Nat} (h : Conforms factory config t calls waiting) {p : Nat}
    (hp : p ∈ answers calls) : p < (factory.replay t calls).size := by
  obtain ⟨call, hCall, hAnswer⟩ := List.mem_filterMap.mp hp
  cases call with
  | made r id =>
    obtain rfl := Option.some.inj hAnswer
    exact (hCoherent.between_replay h).lt_size _ (List.mem_filterMap.mpr ⟨_, hCall, rfl⟩)
  | body => cases hAnswer

theorem Amount.plain {before calls : List (Call Nat)} {waiting : List Nat}
    {elements : List (Element Nat)} {params : List Nat} {variadic : Bool}
    (hAmount : Amount (factory.replay t calls).classOf elements params variadic)
    (hReachable : t.Reachable) (hConforms : Conforms factory config t calls waiting)
    (hBefore : before <+: calls) (hParams : ∀ p ∈ params, (factory.replay t before).Plain p)
    {p : Nat} (hp : .type p ∈ elements) (hAnswer : p ∈ answers calls) :
    (factory.replay t before).Plain p := by
  obtain hp | hClass := hAmount.mem_or_void hp
  · exact hParams p hp
  · obtain ⟨void, hKind⟩ := hReachable.exists_scalar .void
    exact (hReachable.coherent.replay calls).plain_of_void (grows_of_isPrefix hBefore t)
      ((grows_replay t before).unnamed hKind rfl)
      (hConforms.answer_lt_size hReachable.coherent hAnswer) hClass

mutual

/-- Reading a plain type that is there already leaves the table as it is. -/
theorem Makes.replay_eq (hReachable : t.Reachable) {waiting : List Nat}
    {calls calls' : List (Call Nat)} {text : List Char} {id : Nat} :
    Makes factory config t calls text id calls' →
      Conforms factory config t calls waiting → '=' ∉ text → (factory.replay t calls).Plain id →
      factory.replay t calls' = factory.replay t calls
  | .scalar letter hAsks, _, _, hPlain =>
    hAsks.replay_eq hReachable.coherent rfl List.prefix_rfl hPlain fun _ => rfl
  | .pointer hElem hAsks, hConforms, hText, hPlain
  | .array hElem _ _ hAsks, hConforms, hText, hPlain
  | .vector hElem _ _ hAsks, hConforms, hText, hPlain => by
    refine hAsks.replay_eq hReachable.coherent rfl hElem.keeps.1.isPrefix hPlain fun hParts => ?_
    exact hElem.replay_eq hReachable hConforms (fun hMem => hText (by simp [hMem]))
      (hParts _ List.mem_cons_self)
  | .record hBody hAsks, hConforms, hText, hPlain => by
    refine hAsks.replay_eq hReachable.coherent rfl hBody.keeps.1.isPrefix hPlain fun hParts => ?_
    refine hBody.replay_eq hReachable hConforms (fun hMem => hText (by simp [hMem])) fun f hf => ?_
    obtain ⟨_, hField, hEq⟩ := List.mem_map.mp hf
    exact Element.type.inj hEq ▸ hParts _ hField
  | .define .., _, hText, _ => absurd List.mem_cons_self hText
  | .reference _ _, _, _, _ => rfl
  | .function hBody hAmount hAsks, hConforms, hText, hPlain => by
    obtain ⟨hKeeps, hMem⟩ := hBody.keeps
    refine hAsks.replay_eq hReachable.coherent rfl hKeeps.isPrefix hPlain fun hParts => ?_
    obtain ⟨hParams, hRet⟩ := List.forall_mem_append.mp hParts
    refine hBody.replay_eq hReachable hConforms (fun hMem => hText (by simp [hMem])) fun p hp => ?_
    obtain hFirst | hLast := List.mem_append.mp hp
    · exact hAmount.plain hReachable (hKeeps.conforms _ hConforms) hKeeps.isPrefix hParams hFirst
        (hMem p hp)
    · obtain rfl := Element.type.inj (List.mem_singleton.mp hLast)
      exact hRet p List.mem_cons_self

theorem MakesAll.replay_eq (hReachable : t.Reachable) {waiting : List Nat}
    {calls calls' : List (Call Nat)} {text : List Char} {elements : List (Element Nat)} :
    MakesAll factory config t calls text elements calls' →
      Conforms factory config t calls waiting → '=' ∉ text →
      (∀ id, .type id ∈ elements → (factory.replay t calls).Plain id) →
      factory.replay t calls' = factory.replay t calls
  | .nil _, _, _, _ => rfl
  | .type hHead hTail, hConforms, hText, hPlain => by
    have hFirst := hHead.replay_eq hReachable hConforms (fun hMem => hText (by simp [hMem]))
      (hPlain _ List.mem_cons_self)
    rw [← hFirst]
    refine hTail.replay_eq hReachable (hHead.keeps.1.conforms _ hConforms)
      (fun hMem => hText (by simp [hMem])) fun id hId => ?_
    rw [hFirst]
    exact hPlain id (List.mem_cons_of_mem _ hId)
  | .vararg hTail, hConforms, hText, hPlain =>
    hTail.replay_eq hReachable hConforms (fun hMem => hText (by simp [hMem]))
      fun id hId => hPlain id (List.mem_cons_of_mem _ hId)

end

end Found

end Parse

namespace TypeTable

theorem Reachable.parse_of_plain {t : TypeTable} (h : t.Reachable) {spec : String}
    {config : Config} {id : Nat} (hText : '=' ∉ spec.toList)
    (hOk : (t.parse spec config).outcome = .ok id) (hPlain : t.Plain id) :
    (t.parse spec config).store = t := by
  obtain ⟨calls, waiting, -, hStore, hConforms, hEnding⟩ :=
    Parse.exists_conforms factory config spec t
  rw [parse] at hOk
  rw [hOk] at hEnding
  cases hEnding with
  | ok _ hMakes =>
    rw [parse, hStore]
    exact hMakes.replay_eq h .nil hText hPlain

/-- What a text without definitions is parsed to stands for a tree, which has the canonical text,
in the table and in all later ones. -/
theorem Indexed.exists_tree {t : TypeTable} (h : t.Indexed) {spec : String} {config : Config}
    {id : Nat} (hText : '=' ∉ spec.toList) (hOk : (t.parse spec config).outcome = .ok id) :
    ∃ s, Arranged 0 s 0 ∧ canonicalText spec = s.text ∧
      Denotes (t.parse spec config).store [] id s := by
  obtain ⟨s, m, ids, hSpells, -, hLength, hHolds⟩ := h.holds_of_ok hOk
  obtain rfl := hSpells.eq_of_not_mem hText
  obtain rfl := List.length_eq_zero_iff.mp hLength
  refine ⟨s, hSpells.arranged, ?_, hHolds.denotes⟩
  rw [canonicalText, hSpells.canonicalChars_eq, Spec.text]

theorem namedBy_nil (t : TypeTable) (name : Nat → String) : t.NamedBy [] name :=
  fun _ _ h => nomatch h

theorem Denotes.eq_of_plain {t : TypeTable} {id : Nat} {s s' : Spec} (h : Denotes t [] id s)
    (h' : Denotes t [] id s') (hArranged : Arranged 0 s 0) (hArranged' : Arranged 0 s' 0) :
    s = s' := by
  have hNames := t.namedBy_nil (Config.structName default)
  have hDescribe := h.describe_eq hNames List.nodup_nil hArranged
  exact Except.ok.inj (hDescribe.symm.trans (h'.describe_eq hNames List.nodup_nil hArranged'))

/-- A text is parsed, the table is used in any way, and a text is parsed again. If neither of them
defines a struct, both give the same type exactly if their canonical texts are the same, and
exactly if the types are printed in the same way. Then the second parse adds nothing. -/
theorem Reachable.parse_eq_iff {t before : TypeTable} (h : Reachable t) {spec spec' : String}
    {config config' : Config} {operations : List Operation} {a b : Nat}
    (hText : '=' ∉ spec.toList) (hText' : '=' ∉ spec'.toList)
    (hOk : (t.parse spec config).outcome = .ok a)
    (hOk' : (before.parse spec' config').outcome = .ok b)
    (hBefore : before = (t.parse spec config).store.after operations) :
    (a = b ↔ canonicalText spec = canonicalText spec') ∧
      (∃ label label', (t.parse spec config).store.text a = .ok label ∧
        (before.parse spec' config').store.text a = .ok label ∧
        (before.parse spec' config').store.text b = .ok label' ∧ (a = b ↔ label = label')) ∧
      (a = b → (before.parse spec' config').store = before) := by
  have hReachable : Reachable before :=
    hBefore ▸ (h.after [.parse spec config]).after operations
  obtain ⟨s, hArranged, hCanonical, hFirst⟩ := h.indexed.exists_tree hText hOk
  obtain ⟨s', hArranged', hCanonical', hLast'⟩ := hReachable.indexed.exists_tree hText' hOk'
  have hThen : Denotes before [] a s :=
    hFirst.mono (hBefore ▸ grows_after _ operations) List.prefix_rfl
  have hLast : Denotes (before.parse spec' config').store [] a s :=
    hThen.mono (grows_apply before (.parse spec' config')) List.prefix_rfl
  have hCoherent := (hReachable.after [.parse spec' config']).coherent
  have hIff : a = b ↔ s = s' := by
    constructor
    · rintro rfl
      exact hLast.eq_of_plain hLast' hArranged hArranged'
    · rintro rfl
      exact hLast.unique hCoherent hLast'
  refine ⟨?_, ⟨_, _, hFirst.text_eq (namedBy_nil _ config.structName),
    hLast.text_eq (namedBy_nil _ _), hLast'.text_eq (namedBy_nil _ config.structName), ?_⟩, ?_⟩
  · rw [hIff, hCanonical, hCanonical']
    exact ⟨congrArg Spec.text, hArranged.text_injective hArranged'⟩
  · constructor
    · intro hEq
      rw [hIff.mp hEq]
    · intro hPrinted
      have hOutline := Spec.outline_eq_of_printed_eq hPrinted
      exact hLast.outline.unique hCoherent (hOutline ▸ hLast'.outline)
  · rintro rfl
    exact hReachable.parse_of_plain hText' hOk' ⟨s, hThen⟩

theorem parse_eq_iff_after_failure :
    (initial.parse "(v&*[Hx07])" {}).outcome = .ok 11 ∧
    (((initial.parse "(v&*[Hx07])" {}).store.after
      [.parse "=0\x7b*%0" {}, .make (.declare "node")]).parse
        "(&*[hx7])" { maxDepth := 4 }).outcome = .ok 11 ∧
    (((initial.parse "(v&*[Hx07])" {}).store.after
      [.parse "=0\x7b*%0" {}, .make (.declare "node")]).parse
        "(&*[hx7])" { maxDepth := 4 }).store =
      (initial.parse "(v&*[Hx07])" {}).store.after
        [.parse "=0\x7b*%0" {}, .make (.declare "node")] := by
  have hOk : (initial.parse "(v&*[Hx07])" {}).outcome = .ok 11 := by decide +kernel
  have hOk' : (((initial.parse "(v&*[Hx07])" {}).store.after
      [.parse "=0\x7b*%0" {}, .make (.declare "node")]).parse
        "(&*[hx7])" { maxDepth := 4 }).outcome = .ok 11 := by decide +kernel
  have hIff := reachable_initial.parse_eq_iff (by decide) (by decide) hOk hOk' rfl
  exact ⟨hOk, hOk', hIff.2.2 rfl⟩

end TypeTable

end CompactType
