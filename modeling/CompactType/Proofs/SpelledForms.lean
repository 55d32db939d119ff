import CompactType.Proofs.Drafts
import CompactType.Proofs.Leads

/-!
# Forms around types that are read

A form is read up to and with its closing character if the types inside it are. The parser is the
one that builds trees, so no step depends on what else is stored, definitions aside.
-/

set_option autoImplicit false

namespace CompactType.Parse

variable {sub : ElementParser (List Draft) Spec} {s s' : State (List Draft) Spec}
  {pos : Nat} {rest : List Char} {opened : Array Spec} {store : List Draft}
  {journal : Journal Spec}

theorem leads_request (r : Request Spec) (h : (Spec.make r store).2 = store) :
    Leads (request Spec.factory r) ⟨⟨pos, rest⟩, opened, store, journal⟩ (Spec.make r store).1
      ⟨⟨pos, rest⟩, opened, store, journal⟩ := by
  intro events
  refine ⟨events.push (.call (.made r (Spec.make r store).1)), ?_⟩
  simp [run_request, Spec.factory, h]

theorem leads_classOf {α : Type} {t : Spec} {f : TypeClass → Parser (List Draft) Spec α} {a : α}
    (h : Leads (f t.typeClass) s a s') : Leads (classOf Spec.factory t >>= f) s a s' :=
  (Leads.classOf Spec.factory t s).bind h

theorem leads_mapM {check : Placed Spec → Parser (List Draft) Spec Spec}
    (hCheck : ∀ t pos, t.typeClass.isValue = true → Leads (check ⟨.type t, pos⟩) s t s)
    {placed : List (Placed Spec)} {specs : List Spec}
    (hPlaced : placed.map Placed.element = specs.map Element.type)
    (hValue : ∀ t ∈ specs, t.typeClass.isValue = true) : Leads (placed.mapM check) s specs s := by
  induction placed generalizing specs with
  | nil =>
    obtain rfl : specs = [] := by simpa using hPlaced.symm
    exact Leads.pure _ _
  | cons p placed ih =>
    obtain ⟨t, specs, rfl, hp, hTail⟩ := List.map_eq_cons_iff.mp hPlaced.symm
    obtain ⟨_, start⟩ := p
    obtain rfl : Element.type t = _ := hp
    rw [List.mapM_cons]
    exact (hCheck t start (hValue t List.mem_cons_self)).bind

      ((ih hTail.symm fun u hu => hValue u (List.mem_cons_of_mem _ hu)).bind (Leads.pure _ _))

theorem leads_valued {onMarker onType : Cause} (t : Spec) (start : Nat)
    (h : t.typeClass.isValue = true) :
    Leads (valued Spec.factory onMarker onType ⟨.type t, start⟩) s t s := by
  apply leads_classOf
  rw [h]
  exact Leads.pure _ _

theorem leads_returned (t : Spec) (start : Nat) (h : t.typeClass ≠ .function) :
    Leads (returned Spec.factory ⟨.type t, start⟩) s t s := by
  apply leads_classOf
  rw [if_neg h]
  exact Leads.pure _ _

theorem leads_fields {specs : List Spec}
    (h : LeadsAll sub '}' s (specs.map Element.type)
      ⟨⟨pos, '}' :: rest⟩, opened, store, journal⟩)
    (hNonempty : specs ≠ []) (hValue : ∀ t ∈ specs, t.typeClass.isValue = true) :
    Leads (fields Spec.factory sub) s specs ⟨⟨pos + 1, rest⟩, opened, store, journal⟩ := by
  obtain ⟨placed, hPlaced, hRun⟩ := h.sequence (by simp [Cursor.looksAt, Cursor.peek?])
  refine hRun.bind ?_
  have hEmpty : placed.isEmpty = false := by
    cases placed with
    | nil => exact absurd hPlaced.symm (by simpa using hNonempty)
    | cons => rfl
  rw [hEmpty]
  exact (leads_mapM leads_valued hPlaced hValue).bind ((Leads.close _).bind (Leads.pure _ _))

theorem leads_crossedElement {t : Spec} {form : String} {allowed : TypeClass → Bool}
    (hSub : Leads sub s (some (.type t)) ⟨⟨pos, 'x' :: rest⟩, opened, store, journal⟩)
    (hAllowed : allowed t.typeClass = true) :
    Leads (crossedElement Spec.factory sub form allowed) s t
      ⟨⟨pos + 1, rest⟩, opened, store, journal⟩ := by
  refine (Leads.here s).bind ((Leads.elementType hSub _).bind ?_)
  apply leads_classOf
  rw [hAllowed]
  exact (Leads.eat _).bind (Leads.pure _ _)

theorem leads_array {t : Spec} {run : List Char} {count : Nat}
    (hSub : Leads sub s (some (.type t))
      ⟨⟨pos, 'x' :: (run ++ ']' :: rest)⟩, opened, store, journal⟩)
    (hValue : t.typeClass.isValue = true) (hRun : Numeral run count) (hPos : 1 ≤ count)
    (hCount : count < UInt64.size) :
    Leads (array Spec.factory sub) s (.array t (UInt64.ofNat count))
      ⟨⟨pos + 1 + run.length + 1, rest⟩, opened, store, journal⟩ := by
  refine (leads_crossedElement hSub hValue).bind ((Leads.here _).bind
    ((Leads.number hRun hCount _ (noDigit_cons.mpr rfl)).bind ((Leads.close _).bind ?_)))
  rw [if_neg (by omega)]
  exact leads_request _ rfl

theorem leads_vector {t : Spec} {run : List Char} {count : Nat}
    (hSub : Leads sub s (some (.type t))
      ⟨⟨pos, 'x' :: (run ++ '>' :: rest)⟩, opened, store, journal⟩)
    (hLane : t.typeClass.isLane = true) (hRun : Numeral run count) (hPos : 1 ≤ count)
    (hCount : count < UInt32.size) :
    Leads (vector Spec.factory sub) s (.vector t (UInt32.ofNat count))
      ⟨⟨pos + 1 + run.length + 1, rest⟩, opened, store, journal⟩ := by
  refine (leads_crossedElement hSub hLane).bind ((Leads.here _).bind
    ((Leads.number hRun hCount _ (noDigit_cons.mpr rfl)).bind ?_))
  rw [if_neg (by omega)]
  exact (Leads.close _).bind (leads_request _ rfl)

theorem leads_dropLoneVoid {placed : List (Placed Spec)} {specs : List Spec}
    (hPlaced : placed.map Placed.element = specs.map Element.type)
    (hValue : ∀ t ∈ specs, t.typeClass.isValue = true) :
    Leads (dropLoneVoid Spec.factory placed) s placed s := by
  cases placed with
  | nil => exact Leads.pure _ _
  | cons last before =>
    obtain ⟨t, specs, rfl, hLast, -⟩ := List.map_eq_cons_iff.mp hPlaced.symm
    obtain ⟨_, start⟩ := last
    obtain rfl : Element.type t = _ := hLast
    have hVoid : t.typeClass ≠ .void := by
      intro hVoid
      have hFirst := hValue t List.mem_cons_self
      rw [hVoid] at hFirst
      cases hFirst
    apply leads_classOf
    rw [if_pos hVoid]
    exact Leads.pure _ _

theorem leads_dropLoneVoid_void (start : Nat) :
    Leads (dropLoneVoid Spec.factory [⟨.type (.scalar .void), start⟩]) s [] s :=
  leads_classOf (Leads.pure _ _)

/-- What the elements before the returned type amount to, the last of them first. -/
def Amounts (before : List (Placed Spec)) (params : List Spec) (variadic : Bool) : Prop :=
  (splitVararg before).1 = variadic ∧ ∀ s, ∃ kept,
    Leads (dropLoneVoid Spec.factory (splitVararg before).2) s kept s ∧
      kept.reverse.map Placed.element = params.map Element.type

theorem amounts_void {placed : List (Placed Spec)}
    (h : placed.map Placed.element = [.type (.scalar .void)]) :
    Amounts placed.reverse [] false := by
  obtain ⟨⟨e, start⟩, rfl, he⟩ := List.map_eq_singleton_iff.mp h
  obtain rfl : e = .type (.scalar .void) := by simpa using he
  refine ⟨rfl, ?_⟩
  intro s
  exact ⟨[], leads_dropLoneVoid_void start, rfl⟩

theorem amounts_void_vararg {placed : List (Placed Spec)}
    (h : placed.map Placed.element = [.type (.scalar .void), .vararg]) :
    Amounts placed.reverse [] true := by
  obtain ⟨⟨e, start⟩, rest, rfl, he, hRest⟩ := List.map_eq_cons_iff.mp h
  obtain ⟨⟨mark, _⟩, rfl, hMark⟩ := List.map_eq_singleton_iff.mp hRest
  obtain rfl : e = .type (.scalar .void) := by simpa using he
  obtain rfl : mark = .vararg := by simpa using hMark
  refine ⟨rfl, ?_⟩
  intro s
  exact ⟨[], leads_dropLoneVoid_void start, rfl⟩

theorem reverse_element {placed : List (Placed Spec)} {specs : List Spec}
    (h : placed.map Placed.element = specs.map Element.type) :
    placed.reverse.map Placed.element = specs.reverse.map Element.type := by
  rw [List.map_reverse, h, List.map_reverse]

theorem amounts_params {placed : List (Placed Spec)} {specs : List Spec}
    (hPlaced : placed.map Placed.element = specs.map Element.type)
    (hValue : ∀ t ∈ specs, t.typeClass.isValue = true) :
    Amounts placed.reverse specs false := by
  have hReverse := reverse_element hPlaced
  have hSplit : splitVararg placed.reverse = (false, placed.reverse) := by
    unfold splitVararg
    split
    · next h =>
      rw [h] at hReverse
      cases hSpecs : specs.reverse <;> simp [hSpecs] at hReverse
    · rfl
  rw [Amounts, hSplit]
  constructor
  · rfl
  · intro s
    refine ⟨placed.reverse, leads_dropLoneVoid hReverse (by simpa using hValue), ?_⟩
    rw [List.reverse_reverse, hPlaced]

theorem amounts_params_vararg {placed : List (Placed Spec)} {specs : List Spec}
    (h : placed.map Placed.element = specs.map Element.type ++ [.vararg])
    (hValue : ∀ t ∈ specs, t.typeClass.isValue = true) :
    Amounts placed.reverse specs true := by
  obtain ⟨before, mark, rfl, hBefore, hMark⟩ := List.map_eq_append_iff.mp h
  obtain ⟨⟨e, _⟩, rfl, he⟩ := List.map_eq_singleton_iff.mp hMark
  obtain rfl : e = .vararg := by simpa using he
  rw [List.reverse_append, List.reverse_singleton, List.singleton_append]
  have hReverse := reverse_element hBefore
  refine ⟨rfl, ?_⟩
  intro s
  refine ⟨before.reverse, leads_dropLoneVoid hReverse (by simpa using hValue), ?_⟩
  rw [List.reverse_reverse, hBefore]

theorem leads_function (init : List (Element Spec)) {r : Spec} {params : List Spec}
    {variadic : Bool}
    (h : LeadsAll sub ')' s (init ++ [.type r]) ⟨⟨pos, ')' :: rest⟩, opened, store, journal⟩)
    (hInit : init ≠ [])
    (hAmounts : ∀ placed : List (Placed Spec), placed.map Placed.element = init →
      Amounts placed.reverse params variadic)
    (hValue : ∀ t ∈ params, t.typeClass.isValue = true) (hr : r.typeClass ≠ .function) :
    Leads (function Spec.factory sub) s (.function params r variadic)
      ⟨⟨pos + 1, rest⟩, opened, store, journal⟩ := by
  obtain ⟨placed, hPlaced, hRun⟩ := h.sequence (by simp [Cursor.looksAt, Cursor.peek?])
  refine hRun.bind ?_
  obtain ⟨before, last, rfl, hBefore, hLast⟩ := List.map_eq_append_iff.mp hPlaced
  obtain ⟨⟨e, start⟩, rfl, hLast⟩ := List.map_eq_singleton_iff.mp hLast
  obtain rfl : e = Element.type r := by simpa using hLast
  obtain ⟨hVariadic, hKept⟩ := hAmounts before hBefore
  rw [List.reverse_append, List.reverse_singleton, List.singleton_append]
  cases hReverse : before.reverse with
  | nil =>
    rw [List.reverse_eq_nil_iff] at hReverse
    subst hReverse
    exact absurd hBefore.symm hInit
  | cons next more =>
    rw [hReverse] at hVariadic hKept
    subst hVariadic
    obtain ⟨kept, hDrop, hParams⟩ := hKept ⟨⟨pos, ')' :: rest⟩, opened, store, journal⟩
    exact (leads_returned r start hr).bind (hDrop.bind
      ((leads_mapM leads_valued hParams hValue).bind
        ((Leads.close _).bind (leads_request _ rfl))))

/-- A state in which exactly the drafts are defined. -/
def draftState (cursor : Cursor Char) (drafts : List Draft) : State (List Draft) Spec :=
  ⟨cursor, references drafts.length, drafts, #[]⟩

theorem leads_reference {number : Nat} {run : List Char} {drafts : List Draft}
    (hRun : Numeral run number) (hNumber : number < drafts.length)
    (hLimit : drafts.length ≤ UInt32.size) (hRest : NoDigit rest) :
    Leads reference (draftState ⟨pos, run ++ rest⟩ drafts) (.reference number)
      (draftState ⟨pos + run.length, rest⟩ drafts) := by
  refine (Leads.here _).bind ((Leads.number hRun (by omega) _ hRest).bind ?_)
  intro journal
  refine ⟨journal, ?_⟩
  simp only [opened?, EStateM.run_bind, EStateM.run_get, EStateM.run_pure]
  rw [getElem?_references hNumber]
  rfl

theorem leads_declare (name : String) (cursor : Cursor Char) (drafts : List Draft) :
    Leads (request Spec.factory (.declare name)) (draftState cursor drafts)
      (.reference drafts.length)
      ⟨cursor, references drafts.length, drafts ++ [⟨name, none⟩], #[]⟩ :=
  fun journal => ⟨journal.push (.call (.made (.declare name) (.reference drafts.length))), rfl⟩

theorem leads_register (cursor : Cursor Char) {drafts : List Draft} {count : Nat}
    (h : drafts.length = count + 1) :
    Leads (register (.reference count)) ⟨cursor, references count, drafts, #[]⟩ ()
      (draftState cursor drafts) := by
  intro journal
  refine ⟨journal, ?_⟩
  simp only [draftState, h, ← references_push]
  rfl

theorem leads_complete (name : String) (fields : List Spec) (cursor : Cursor Char)
    (before inner : List Draft) :
    Leads (complete Spec.factory (.reference before.length) fields)
      (draftState cursor (before ++ ⟨name, none⟩ :: inner)) ()
      (draftState cursor (before ++ ⟨name, some fields⟩ :: inner)) := by
  intro journal
  refine ⟨journal.push (.call (.body (.reference before.length) fields)), ?_⟩
  have hModify : (before ++ (⟨name, none⟩ : Draft) :: inner).modify before.length
      (fun d => { d with body := some fields }) = before ++ ⟨name, some fields⟩ :: inner := by
    rw [List.modify_eq_take_cons_drop (by simp)]
    simp
  simp only [run_complete, draftState, Spec.factory, Spec.setBody, hModify]
  simp

theorem leads_definition {config : Config} {run body : List Char}
    {specs : List Spec} {drafts inner : List Draft} {last : Nat}
    (hRun : Numeral run drafts.length) (hLimit : drafts.length < UInt32.size)
    (hFields : LeadsAll sub '}'
      (draftState ⟨pos + run.length + 1, body⟩
        (drafts ++ [⟨config.structName drafts.length, none⟩]))
      (specs.map Element.type)
      (draftState ⟨last, '}' :: rest⟩
        (drafts ++ ⟨config.structName drafts.length, none⟩ :: inner)))
    (hNonempty : specs ≠ []) (hValue : ∀ t ∈ specs, t.typeClass.isValue = true) :
    Leads (definition Spec.factory config sub)
      (draftState ⟨pos, run ++ '{' :: body⟩ drafts) (.reference drafts.length)
      (draftState ⟨last + 1, rest⟩
        (drafts ++ ⟨config.structName drafts.length, some specs⟩ :: inner)) := by
  refine (Leads.here _).bind ((Leads.number hRun hLimit _ (noDigit_cons.mpr rfl)).bind ?_)
  refine (Leads.nextNumber _).bind ?_
  rw [if_neg (by simp [size_references])]
  refine (Leads.eat _).bind ?_
  rw [if_pos rfl]
  exact (leads_declare _ _ _).bind ((leads_register _ (by simp)).bind ((Leads.emit _ _).bind
    ((leads_fields hFields hNonempty hValue).bind
      ((leads_complete _ _ _ _ _).bind (Leads.pure _ _)))))

end CompactType.Parse
