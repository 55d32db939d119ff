import CompactType.Proofs.Marks
import CompactType.Proofs.Tours
import CompactType.TypeTable.History

/-!
# Exploring a table

The walk that describes a type follows the tour of the type, whatever the table has in it, if no id
is missing and cycles pass through named structs. If the tour meets structs without a body, the walk
ends at the first of them. Otherwise it gives a tree in which every named struct is defined once,
where the tour enters it.
-/

set_option autoImplicit false

namespace CompactType.TypeTable

open Relation (ReflTransGen TransGen)
open Mark (Numbering)

/-- All ids that are mentioned are in the table, and cycles pass through named structs. -/
structure Closed (t : TypeTable) : Prop where
  lt_size {a b : Nat} : t.Refers a b → b < t.size
  acyclic (a : Nat) : ¬TransGen t.Inner a a

/-- Ids that are mentioned are in the table, and unnamed types mention only what was there before
them. -/
def Grounded (t : TypeTable) : Prop :=
  ∀ a < t.size, ∀ k ∈ t.kind? a, ∀ b ∈ k.parts, b < t.size ∧ (k.isNamed = false → b < a)

/-- Structs that a walk may have entered. -/
structure Entered (t : TypeTable) (seen : Seen) : Prop where
  nodup : seen.Nodup
  isEntered : ∀ a ∈ seen, t.IsEntered a

/-- What is made of the types that a tour meets: something that holds, or a refusal for the first of
them that is incomplete. -/
inductive Reports {α : Type} (t : TypeTable) (met : List Nat) (after : Seen) (P : α → Prop) :
    Except Refusal (α × Seen) → Prop where
  | ok {a : α} : (∀ x ∈ met, ¬t.IsIncomplete x) → P a → Reports t met after P (.ok (a, after))
  | error {before rest : List Nat} {u : Nat} {label : String} :
    met = before ++ u :: rest → (∀ x ∈ before, ¬t.IsIncomplete x) → t.IsIncomplete u →
    t.text u = .ok label → Reports t met after P (.error (.incomplete label))

/-- The types to do have a tour, by which the result is explained. -/
def Explores {α : Type} (t : TypeTable) (todo : List Nat) (seen : Seen) (P : α → Seen → Prop)
    (result : Except Refusal (α × Seen)) : Prop :=
  ∃ met after, Tours t todo seen met after ∧ Reports t met after (P · after) result

def Described (t : TypeTable) (id : Nat) (seen : Seen) (s : Spec) (after : Seen) : Prop :=
  Denotes t after id s ∧ Numbering seen.length s.marks after.length

def DescribedAll (t : TypeTable) (elems : List Nat) (seen : Seen) (specs : List Spec)
    (after : Seen) : Prop :=
  DenotesAll t after elems specs ∧ Numbering seen.length (Spec.marksAll specs) after.length

/-- The types in the list can be explored, whatever was entered in between. -/
def ExploresParts (t : TypeTable) (one : Nat → Seen → Except Refusal (Spec × Seen))
    (elems : List Nat) (seen : Seen) : Prop :=
  ∀ e ∈ elems, ∀ before, Entered t before → seen <+: before →
    Explores t [e] before (Described t e before) (one e before)

variable {t : TypeTable} {id : Nat} {seen : Seen}

theorem not_isIncomplete_of_isEntered (h : t.IsEntered id) : ¬t.IsIncomplete id :=
  fun h' => not_isEntered_of_incomplete h' h

theorem Grounded.closed (h : t.Grounded) : t.Closed := by
  have hSmaller {a b : Nat} (hInner : t.Inner a b) : b < a := by
    obtain ⟨k, hKind, hNot, hPart⟩ := hInner
    exact (h a (lt_size_of_kind? hKind) k hKind b hPart).2 hNot
  have hBelow {a b : Nat} (hBelow : TransGen t.Inner a b) : b < a := by
    induction hBelow with
    | single hInner => exact hSmaller hInner
    | tail _ hInner ih => exact (hSmaller hInner).trans ih
  constructor
  · rintro a b ⟨k, hKind, hPart⟩
    exact (h a (lt_size_of_kind? hKind) k hKind b hPart).1
  · exact fun a hCycle => Nat.lt_irrefl a (hBelow hCycle)

namespace Entered

theorem nil (t : TypeTable) : Entered t [] := ⟨List.nodup_nil, nofun⟩

theorem of_tours (h : Entered t seen) {todo met after : List Nat}
    (hTour : Tours t todo seen met after) : Entered t after where
  nodup := hTour.nodup h.nodup
  isEntered a ha := by
    obtain hSeen | ⟨-, hEntered⟩ := hTour.mem_after.mp ha
    · exact h.isEntered a hSeen
    · exact hEntered

theorem concat (h : Entered t seen) (hNew : id ∉ seen) (hEntered : t.IsEntered id) :
    Entered t (seen ++ [id]) where
  nodup := by simpa [List.nodup_append, h.nodup] using fun a ha => by rintro rfl; exact hNew ha
  isEntered := by simpa [or_imp, forall_and, hEntered] using h.isEntered

theorem length_le_size (h : Entered t seen) : seen.length ≤ t.size := by
  refine length_le_size_of_nodup h.nodup fun a ha => ?_
  obtain ⟨_, _, hKind⟩ := h.isEntered a ha
  exact ⟨_, hKind⟩

theorem idxOf?_eq_none (h : Entered t seen) (hNot : ¬t.IsEntered id) : seen.idxOf? id = none :=
  List.idxOf?_eq_none_iff.mpr fun hMem => hNot (h.isEntered id hMem)

end Entered

section Rules

variable {α β γ : Type} {P : α → Seen → Prop} {result : Except Refusal (α × Seen)}
  {todo rest : List Nat}

theorem Reports.prepend {met before : List Nat} {after : Seen} {P : α → Prop}
    (hBefore : ∀ x ∈ before, ¬t.IsIncomplete x) (h : Reports t met after P result) :
    Reports t (before ++ met) after P result := by
  cases h with
  | ok hNone hP => exact .ok (List.forall_mem_append.mpr ⟨hBefore, hNone⟩) hP
  | error hSplit hNone hFirst hText =>
    refine .error (by rw [hSplit, List.append_assoc]) ?_ hFirst hText
    exact List.forall_mem_append.mpr ⟨hBefore, hNone⟩

theorem Reports.cons {met : List Nat} {after : Seen} {P : α → Prop} (hNot : ¬t.IsIncomplete id)
    (h : Reports t met after P result) : Reports t (id :: met) after P result :=
  h.prepend (List.forall_mem_singleton.mpr hNot)

theorem Explores.map {Q : β → Seen → Prop} (h : Explores t todo seen P result) (g : α → β)
    (hQ : ∀ a after, seen <+: after → P a after → Q (g a) after) :
    Explores t todo seen Q (result >>= fun x => .ok (g x.1, x.2)) := by
  obtain ⟨met, after, hTour, hReports⟩ := h
  refine ⟨met, after, hTour, ?_⟩
  cases hReports with
  | ok hNone hP => exact .ok hNone (hQ _ _ hTour.isPrefix hP)
  | error hSplit hNone hFirst hText => exact .error hSplit hNone hFirst hText

theorem Explores.pair {Q : Seen → β → Seen → Prop} {R : γ → Seen → Prop}
    {next : Seen → Except Refusal (β × Seen)} (hSeen : Entered t seen)
    (h : Explores t todo seen P result)
    (hNext : ∀ between, Entered t between → seen <+: between →
      Explores t rest between (Q between) (next between)) (g : α → β → γ)
    (hR : ∀ a between b after, P a between → between <+: after → Q between b after →
      R (g a b) after) :
    Explores t (todo ++ rest) seen R
      (result >>= fun x => next x.2 >>= fun y => .ok (g x.1 y.1, y.2)) := by
  obtain ⟨met, between, hTour, hReports⟩ := h
  obtain ⟨met', after, hTour', hReports'⟩ :=
    hNext between (hSeen.of_tours hTour) hTour.isPrefix
  refine ⟨met ++ met', after, hTour.append hTour', ?_⟩
  cases hReports with
  | error hSplit hNone hFirst hText =>
    exact .error (by rw [hSplit, List.append_assoc, List.cons_append]) hNone hFirst hText
  | ok hNone hP =>
    apply Reports.prepend hNone
    generalize hEq : next between = result' at hReports'
    change Reports _ _ _ _ (next between >>= _)
    rw [hEq]
    cases hReports' with
    | ok hNone' hQ => exact .ok hNone' (hR _ _ _ _ hP hTour'.isPrefix hQ)
    | error hSplit hNone' hFirst hText => exact .error hSplit hNone' hFirst hText

theorem Explores.inside {k : Kind} (hKind : t.kind? id = some k) (hNot : k.isNamed = false)
    (hComplete : k.isIncomplete = false) (h : Explores t k.parts seen P result) :
    Explores t [id] seen P result := by
  obtain ⟨met, after, hTour, hReports⟩ := h
  have hNot' : ¬t.IsIncomplete id := by
    rintro ⟨name, hKind'⟩
    cases hKind.symm.trans hKind'
    cases hComplete
  exact ⟨id :: met, after, .unnamed hKind hNot ((List.append_nil _).symm ▸ hTour),
    hReports.cons hNot'⟩

theorem Explores.entering {name : String} {fields : List Nat}
    (hKind : t.kind? id = some (.struct (some name) (some fields))) (hNew : id ∉ seen)
    (h : Explores t fields (seen ++ [id]) P result) : Explores t [id] seen P result := by
  obtain ⟨met, after, hTour, hReports⟩ := h
  exact ⟨id :: met, after, .enter hKind hNew ((List.append_nil _).symm ▸ hTour),
    hReports.cons (not_isIncomplete_of_isEntered ⟨name, fields, hKind⟩)⟩

theorem ExploresParts.mono {one : Nat → Seen → Except Refusal (Spec × Seen)}
    {elems more : List Nat} {before : Seen} (h : ExploresParts t one elems seen)
    (hSubset : more ⊆ elems) (hPrefix : seen <+: before) : ExploresParts t one more before :=
  fun e he after hAfter hPrefix' => h e (hSubset he) after hAfter (hPrefix.trans hPrefix')

theorem ExploresParts.first {one : Nat → Seen → Except Refusal (Spec × Seen)} {e : Nat}
    {elems : List Nat} (h : ExploresParts t one (e :: elems) seen) (hSeen : Entered t seen) :
    Explores t [e] seen (Described t e seen) (one e seen) :=
  h e List.mem_cons_self seen hSeen (List.prefix_refl _)

theorem ExploresParts.describeAll {one : Nat → Seen → Except Refusal (Spec × Seen)}
    {elems : List Nat} (hSeen : Entered t seen) (h : ExploresParts t one elems seen) :
    Explores t elems seen (DescribedAll t elems seen) (describeAll one elems seen) := by
  induction elems generalizing seen with
  | nil => exact ⟨[], seen, .nil seen, .ok nofun ⟨.nil, .nil _⟩⟩
  | cons e elems ih =>
    refine (h.first hSeen).pair hSeen (fun between hBetween hPrefix =>
      ih hBetween (h.mono (List.subset_cons_self _ _) hPrefix)) List.cons ?_
    rintro s between specs after ⟨hDenotes, hMarks⟩ hPrefix ⟨hDenotesAll, hMarksAll⟩
    exact ⟨.cons (hDenotes.mono (.refl t) hPrefix) hDenotesAll, hMarks.append hMarksAll⟩

end Rules

section Forms

variable {one : Nat → Seen → Except Refusal (Spec × Seen)} {elem ret : Nat}
  {fields params : List Nat} {name : Option String}

theorem explores_elem {k : Kind} (hSeen : Entered t seen) (hKind : t.kind? id = some k)
    (hNot : k.isNamed = false) (hComplete : k.isIncomplete = false) (hParts : k.parts = [elem])
    (hOne : ExploresParts t one k.parts seen) (wrap : Spec → Spec)
    (hDenotes : ∀ s after, Denotes t after elem s → Denotes t after id (wrap s))
    (hMarks : ∀ s, (wrap s).marks = s.marks) :
    Explores t [id] seen (Described t id seen)
      (one elem seen >>= fun x => .ok (wrap x.1, x.2)) := by
  rw [hParts] at hOne
  apply Explores.inside hKind hNot hComplete
  rw [hParts]
  refine (hOne.first hSeen).map wrap ?_
  rintro s after - ⟨hElem, hNumbering⟩
  exact ⟨hDenotes s after hElem, (hMarks s).symm ▸ hNumbering⟩

theorem explores_record (hSeen : Entered t seen)
    (hKind : t.kind? id = some (.struct none (some fields)))
    (hOne : ExploresParts t one fields seen) :
    Explores t [id] seen (Described t id seen)
      (t.describeLayer one id (.struct none (some fields)) seen) := by
  have hNone := hSeen.idxOf?_eq_none (not_isEntered_of_unnamed hKind rfl)
  have hLayer : t.describeLayer one id (.struct none (some fields)) seen =
      (describeAll one fields seen >>= fun x => .ok (.record x.1, x.2)) := by
    simp only [describeLayer, hNone]
    rfl
  rw [hLayer]
  refine ((hOne.describeAll hSeen).map Spec.record ?_).inside hKind rfl rfl
  rintro specs after - ⟨hFields, hNumbering⟩
  exact ⟨.record hKind hFields, hNumbering⟩

theorem explores_define {label : String} (hSeen : Entered t seen)
    (hKind : t.kind? id = some (.struct (some label) (some fields))) (hNew : id ∉ seen)
    (hOne : ExploresParts t one fields (seen ++ [id])) :
    Explores t [id] seen (Described t id seen)
      (t.describeLayer one id (.struct (some label) (some fields)) seen) := by
  have hSeen' := hSeen.concat hNew ⟨label, fields, hKind⟩
  have hLayer : t.describeLayer one id (.struct (some label) (some fields)) seen =
      (describeAll one fields (seen ++ [id]) >>= fun x =>
        .ok (.define seen.length x.1, x.2)) := by
    simp only [describeLayer, List.idxOf?_eq_none_iff.mpr hNew]
    rfl
  rw [hLayer]
  refine ((hOne.describeAll hSeen').map (Spec.define seen.length) ?_).entering hKind hNew
  rintro specs after hPrefix ⟨hFields, hNumbering⟩
  have hId : after[seen.length]? = some id := getElem?_of_isPrefix hPrefix (by simp)
  rw [List.length_append, List.length_singleton] at hNumbering
  exact ⟨.define hId hKind hFields, .defined hNumbering⟩

theorem explores_reference {label : String}
    (hKind : t.kind? id = some (.struct (some label) (some fields))) (hOld : id ∈ seen) :
    Explores t [id] seen (Described t id seen)
      (t.describeLayer one id (.struct (some label) (some fields)) seen) := by
  obtain ⟨number, hNumber⟩ : ∃ number, seen.idxOf? id = some number := by
    apply Option.ne_none_iff_exists'.mp
    rwa [Ne, List.idxOf?_eq_none_iff, not_not]
  obtain ⟨hLt, hId, -⟩ := List.idxOf?_eq_some_iff.mp hNumber
  rw [describeLayer_reference hNumber]
  refine ⟨[id], seen, .again hKind hOld (.nil seen), .ok ?_ ⟨?_, .referred hLt (.nil _)⟩⟩
  · simpa using not_isIncomplete_of_isEntered ⟨label, fields, hKind⟩
  · exact .reference (List.getElem?_eq_some_iff.mpr ⟨hLt, hId⟩) hKind

theorem exists_text_of_incomplete (hKind : t.kind? id = some (.struct name none)) :
    ∃ label, t.text id = .ok label := by
  cases name with
  | some label => exact ⟨_, text_of_named hKind⟩
  | none =>
    rw [TypeTable.text, textWithin_succ hKind]
    exact ⟨_, rfl⟩

theorem explores_incomplete (hSeen : Entered t seen)
    (hKind : t.kind? id = some (.struct name none)) :
    Explores t [id] seen (Described t id seen)
      (t.describeLayer one id (.struct name none) seen) := by
  have hIncomplete : t.IsIncomplete id := ⟨name, hKind⟩
  have hNone := hSeen.idxOf?_eq_none (not_isEntered_of_incomplete hIncomplete)
  obtain ⟨label, hText⟩ := exists_text_of_incomplete hKind
  have hLayer : t.describeLayer one id (.struct name none) seen =
      .error (.incomplete label) := by
    simp only [describeLayer, hNone, hText]
    rfl
  rw [hLayer]
  refine ⟨[id], seen, ?_, .error (List.nil_append _).symm nofun hIncomplete hText⟩
  cases name with
  | some label => exact .incomplete hKind (.nil seen)
  | none => exact .unnamed hKind rfl (.nil seen)

theorem explores_function {variadic : Bool} (hSeen : Entered t seen)
    (hKind : t.kind? id = some (.function params ret variadic))
    (hOne : ExploresParts t one (params ++ [ret]) seen) :
    Explores t [id] seen (Described t id seen)
      (t.describeLayer one id (.function params ret variadic) seen) := by
  have hParams := (hOne.mono (List.subset_append_left _ _) (List.prefix_refl _)).describeAll hSeen
  have hRet (between : Seen) (hBetween : Entered t between) (hPrefix : seen <+: between) :
      Explores t [ret] between (Described t ret between) (one ret between) :=
    (hOne.mono (List.subset_append_right _ _) hPrefix).first hBetween
  refine Explores.inside hKind rfl rfl (hParams.pair hSeen hRet (Spec.function · · variadic) ?_)
  rintro specs between s after ⟨hSpecs, hNumbering⟩ hPrefix ⟨hDenotes, hMarks⟩
  exact ⟨.function hKind (hSpecs.mono (.refl t) hPrefix) hDenotes, hNumbering.append hMarks⟩

end Forms

/-- The cases are those of the walk. Parts of unnamed types have a smaller rank, and a struct that
is entered makes room for all types that can follow. -/
theorem Closed.explores (h : t.Closed) {layers : Nat} (hLt : id < t.size) (hSeen : Entered t seen)
    (hLayers : t.budget seen.length id < layers) :
    Explores t [id] seen (Described t id seen) (t.describeWithin layers id seen) := by
  induction layers generalizing id seen with
  | zero => omega
  | succ layers ih =>
    obtain ⟨k, hKind⟩ := exists_kind?_of_lt hLt
    have hParts (hNot : k.isNamed = false) :
        ExploresParts t (t.describeWithin layers) k.parts seen := by
      intro e he before hBefore hPrefix
      have hPartLt := h.lt_size ⟨k, hKind, he⟩
      have hRank := rank_lt_of_inner ⟨k, hKind, hNot, he⟩ hPartLt (h.acyclic e)
      have hBudget := budget_lt_of_rank_lt hRank hLayers
      exact ih hPartLt hBefore ((budget_le_of_le hPrefix.length_le e).trans_lt hBudget)
    rw [describeWithin_succ hKind]
    cases k with
    | scalar k =>
      refine Explores.inside hKind rfl rfl ⟨[], seen, .nil seen, .ok nofun ⟨.scalar hKind, .nil _⟩⟩
    | pointer e =>
      exact explores_elem hSeen hKind rfl rfl rfl (hParts rfl) Spec.pointer
        (fun s after => .pointer hKind) fun s => rfl
    | array e count =>
      exact explores_elem hSeen hKind rfl rfl rfl (hParts rfl) (Spec.array · count)
        (fun s after => .array hKind) fun s => rfl
    | vector e count =>
      exact explores_elem hSeen hKind rfl rfl rfl (hParts rfl) (Spec.vector · count)
        (fun s after => .vector hKind) fun s => rfl
    | function params ret variadic => exact explores_function hSeen hKind (hParts rfl)
    | struct name body =>
      cases body with
      | none => exact explores_incomplete hSeen hKind
      | some fields =>
        cases name with
        | none => exact explores_record hSeen hKind (hParts rfl)
        | some label =>
          by_cases hOld : id ∈ seen
          · exact explores_reference hKind hOld
          · refine explores_define hSeen hKind hOld ?_
            have hRoom := (hSeen.concat hOld ⟨label, fields, hKind⟩).length_le_size
            rw [List.length_append, List.length_singleton] at hRoom
            intro e he before hBefore hPrefix
            have hLength := hPrefix.length_le
            rw [List.length_append, List.length_singleton] at hLength
            have hBudget := budget_succ_lt (b := e) hRoom hLayers
            exact ih (h.lt_size ⟨_, hKind, he⟩) hBefore
              ((budget_le_of_le hLength e).trans_lt hBudget)

/-- What is written for a type: a tree that the type stands for. The numbers of the definitions in
the text count up from zero and go with the named structs that can be reached, one for each. What is
referred to is defined before. -/
structure Written (t : TypeTable) (id : Nat) (ids : List Nat) (w : String) : Prop where
  exists_denotes : ∃ s, w = s.text ∧ Denotes t ids id s
  nodup : ids.Nodup
  mem_iff : ∀ a, a ∈ ids ↔ ReflTransGen t.Refers id a ∧ t.IsNamed a
  definitions_eq : (Mark.scan w.toList).filterMap Mark.definition? =
    (List.range ids.length).map Spec.digits
  defined_before : ∀ before run rest, Mark.scan w.toList = before ++ .referred run :: rest →
    .defined run ∈ before

theorem Described.written {met ids : List Nat} {s : Spec} (hTour : Tours t [id] [] met ids)
    (hComplete : ∀ a ∈ met, ¬t.IsIncomplete a) (h : Described t id [] s ids) :
    Written t id ids s.text where
  exists_denotes := ⟨s, rfl, h.1⟩
  nodup := hTour.nodup List.nodup_nil
  mem_iff a := by
    rw [hTour.mem_after, ← hTour.mem_met_iff]
    constructor
    · rintro (hNone | ⟨hMet, hEntered⟩)
      · cases hNone
      · exact ⟨hMet, hEntered.isNamed⟩
    · rintro ⟨hMet, hNamed⟩
      exact .inr ⟨hMet, (isEntered_or_isIncomplete hNamed).resolve_right (hComplete a hMet)⟩
  definitions_eq := by
    rw [s.scan_text, h.2.definitions_eq, List.range_eq_range']
    rfl
  defined_before before run rest hSplit := by
    rw [s.scan_text] at hSplit
    obtain ⟨k, hk, -⟩ | hDefined := h.2.defined_before hSplit
    · exact absurd hk (Nat.not_lt_zero k)
    · exact hDefined

/-- A type is written unless an incomplete struct can be reached from it, and refused for the first
of those that the tour of the type meets. -/
theorem Closed.encode_tour (h : t.Closed) (hLt : id < t.size) :
    ∃ met ids, Tours t [id] [] met ids ∧
      (∀ met' ids', Tours t [id] [] met' ids' → met' = met ∧ ids' = ids) ∧
      (∀ a, a ∈ met ↔ ReflTransGen t.Refers id a) ∧
      ((∃ refusal, t.encode id = .error refusal) ↔
        ∃ u, ReflTransGen t.Refers id u ∧ t.IsIncomplete u) ∧
      (∀ refusal, t.encode id = .error refusal → ∃ before u rest label,
        met = before ++ u :: rest ∧ (∀ a ∈ before, ¬t.IsIncomplete a) ∧ t.IsIncomplete u ∧
        t.text u = .ok label ∧ refusal = .incomplete label) ∧
      ∀ w, t.encode id = .ok w → Written t id ids w := by
  obtain ⟨met, ids, hTour, hReports⟩ := h.explores hLt (.nil t) (t.budget_zero_lt id)
  refine ⟨met, ids, hTour, fun _ _ => hTour.unique, fun a => hTour.mem_met_iff, ?_⟩
  generalize hResult : t.describeWithin ((t.size + 1) * (t.size + 1)) id [] = result at hReports
  cases hReports with
  | @ok s hComplete hDescribed =>
    have hEncode : t.encode id = .ok s.text := by
      simp only [encode, describe, hResult]
      rfl
    simp only [hEncode, reduceCtorEq, exists_false, false_iff, false_implies, implies_true,
      true_and, Except.ok.injEq, forall_eq']
    refine ⟨?_, hDescribed.written hTour hComplete⟩
    rintro ⟨u, hReach, hIncomplete⟩
    exact hComplete u (hTour.mem_met_iff.mpr hReach) hIncomplete
  | @error before rest u label hSplit hNone hFirst hText =>
    have hEncode : t.encode id = .error (.incomplete label) := by
      simp only [encode, describe, hResult]
      rfl
    have hReach : ReflTransGen t.Refers id u := hTour.mem_met_iff.mp (by simp [hSplit])
    simp only [hEncode, Except.error.injEq, exists_eq', true_iff, reduceCtorEq, false_implies,
      implies_true, and_true]
    refine ⟨⟨u, hReach, hFirst⟩, ?_⟩
    rintro refusal rfl
    exact ⟨before, u, rest, label, hSplit, hNone, hFirst, hText, rfl⟩

theorem encode_tour_nodes :
    let t := initial.after [.make (.declare "node"), .make (.pointer 9), .complete 9 [3, 10],
      .make (.record [10, 9]), .make (.declare "open"), .make (.record [9, 12, 10])]
    t.Closed ∧ 11 < t.size ∧ 13 < t.size ∧
      (∃ u, ReflTransGen t.Refers 13 u ∧ t.IsIncomplete u) ∧
      ∃ ids, Written t 11 ids "\x7b*=0\x7bi*%0\x7d%0\x7d" := by
  intro t
  have hGrounded : t.Grounded := by
    unfold Grounded
    decide +kernel
  have hLt : 11 < t.size := by decide +kernel
  have hLt' : 13 < t.size := by decide +kernel
  obtain ⟨_, ids, -, -, -, -, -, hWritten⟩ := hGrounded.closed.encode_tour hLt
  obtain ⟨_, _, -, -, -, hError, -⟩ := hGrounded.closed.encode_tour hLt'
  exact ⟨hGrounded.closed, hLt, hLt', hError.mp ⟨.incomplete "%open", by decide +kernel⟩, ids,
    hWritten _ (by decide +kernel)⟩

end CompactType.TypeTable
