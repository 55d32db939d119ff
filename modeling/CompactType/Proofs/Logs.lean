import CompactType.Proofs.Bodies
import CompactType.Proofs.Chronicles
import CompactType.Proofs.Comparison
import CompactType.Proofs.Effects

/-!
# The log of a parse

The log begins with the specification and ends with the outcome. In between it tells, symbol by
symbol, what was read, and when structs were declared, numbered and completed.
-/

set_option autoImplicit false

namespace CompactType

namespace Parse

variable {σ H : Type} {F : Factory σ H} {config : Config} {spec : String} {store : σ}

def conclusion (outcome : Except Diagnostic H) (structs : Nat) : Event H :=
  match outcome with
  | .ok _ => .accepted structs
  | .error diagnostic => ending diagnostic.toFault

/-- How the log tells the outcome of a parse that assigned so many structs. -/
def verdict (outcome : Except Diagnostic H) (structs : Nat) : String :=
  match outcome with
  | .ok _ => s!"success, {structs} named structs"
  | .error diagnostic =>
    if diagnostic.cause = .trailingInput then s!"fail: trailing input at {diagnostic.pos}"
    else "fail: " ++ diagnostic.message

theorem entry?_conclusion [ToString H] (outcome : Except Diagnostic H) (structs : Nat) :
    Event.entry? (conclusion outcome structs) = some (.info, verdict outcome structs) := by
  cases outcome with
  | ok => rfl
  | error diagnostic =>
    simp only [conclusion, ending, verdict]
    split <;> rfl

theorem call?_conclusion (outcome : Except Diagnostic H) (structs : Nat) :
    Event.call? (conclusion outcome structs) = none := by
  cases outcome with
  | ok => rfl
  | error diagnostic =>
    rw [conclusion, ending]
    split <;> rfl

theorem traced?_conclusion (outcome : Except Diagnostic H) (structs : Nat) :
    Event.traced? (conclusion outcome structs) = none := by
  cases outcome with
  | ok => rfl
  | error diagnostic =>
    rw [conclusion, ending]
    split <;> rfl

theorem verdict_success_iff (outcome : Except Diagnostic H) (structs : Nat) :
    (∃ n : Nat, verdict outcome structs = s!"success, {n} named structs") ↔
      ∃ handle, outcome = .ok handle := by
  cases outcome with
  | ok handle => exact ⟨fun _ => ⟨handle, rfl⟩, fun _ => ⟨structs, rfl⟩⟩
  | error diagnostic =>
    refine ⟨?_, nofun⟩
    rintro ⟨n, hSuccess⟩
    have hFirst := congrArg (fun text => text.toList.head?) hSuccess
    simp only [verdict] at hFirst
    split at hFirst <;> simp [toString] at hFirst

/-- What a parse wrote down between its begin and its end, and the text that it read meanwhile. -/
structure Chronicle (config : Config) (spec : String) (r : Run σ H) (events : List (Event H)) :
    Prop where
  journal_eq : r.journal.toList =
    .begun spec :: (events ++ [conclusion r.outcome (assignments events).length])
  announced : Announced config 0 events (assignments events).length
  read : ∃ text rest, spec.toList = text ++ rest ∧ (∀ c ∈ text, c.utf8Size = 1) ∧
    (traces events).Sublist text.zipIdx ∧
    ∀ handle, r.outcome = .ok handle → rest = [] ∧ traces events = told false 0 text

theorem tells_firstType (F : Factory σ H) (config : Config) (s : State σ H) :
    Tells config false s (fun _ _ _ => True) ((firstType F config).run s) :=
  ((chronicling_elements F config _ s.opened.size).firstType s rfl).weaken fun _ _ _ _ => trivial

theorem Narrates.chronicle {s : State σ H} {text : List Char} {events : List (Event H)}
    (h : Narrates config (start spec store) s text events)
    (hTraces : (traces events).Sublist text.zipIdx) {outcome : Except Diagnostic H}
    (hOk : ∀ handle, outcome = .ok handle →
      s.cursor.rest = [] ∧ traces events = told false 0 text) :
    Chronicle config spec
      ⟨outcome, s.store, s.journal.push (conclusion outcome s.opened.size)⟩ events := by
  have hCount : (assignments events).length = s.opened.size :=
    (Nat.zero_add _).symm.trans h.announced.assignments_eq.1
  refine ⟨?_, hCount ▸ h.announced, text, s.cursor.rest, h.passes.rest_eq, h.passes.utf8Size_eq,
    hTraces, hOk⟩
  rw [Array.toList_push, h.journal_eq, hCount]
  rfl

theorem Narrates.chronicle_error {s : State σ H} {text : List Char} {events : List (Event H)}
    (h : Narrates config (start spec store) s text events)
    (hTraces : (traces events).Sublist text.zipIdx) (diagnostic : Diagnostic) :
    Chronicle config spec ⟨.error diagnostic, s.store,
      s.journal.push (conclusion (.error diagnostic : Except Diagnostic H) s.opened.size)⟩
      events := by
  refine h.chronicle hTraces ?_
  rintro _ ⟨⟩

theorem exists_chronicle (F : Factory σ H) (config : Config) (spec : String) (store : σ) :
    ∃ events, Chronicle config spec (run F config spec store) events := by
  have hTells := tells_firstType F config (start spec store)
  rw [run, run_whole]
  generalize (firstType F config).run (start spec store) = result at hTells ⊢
  cases hTells with
  | error hNarrates hTraces => exact ⟨_, hNarrates.chronicle_error hTraces _⟩
  | @ok handle s _ _ hNarrates hTraces _ =>
    have hSublist := hTraces ▸ told_sublist ..
    by_cases hEnd : s.cursor.atEnd = true
    · simp only [hEnd, if_true]
      exact ⟨_, hNarrates.chronicle hSublist fun _ _ => ⟨List.isEmpty_iff.mp hEnd, hTraces⟩⟩
    · simp only [hEnd]
      exact ⟨_, hNarrates.chronicle_error hSublist _⟩

section Chronicle

variable {r : Run σ H} {events : List (Event H)}

theorem Chronicle.calls_eq (h : Chronicle config spec r events) :
    Journal.calls r.journal = events.filterMap Event.call? := by
  rw [Journal.calls, h.journal_eq, List.filterMap_cons, List.filterMap_append, List.filterMap_cons,
    call?_conclusion]
  exact List.append_nil _

theorem Chronicle.log_eq [ToString H] (h : Chronicle config spec r events) :
    Journal.log r.journal = (.info, "parsing type specification '" ++ spec ++ "'") ::
      (events.filterMap Event.entry? ++
        [(.info, verdict r.outcome (assignments events).length)]) := by
  rw [Journal.log, h.journal_eq, List.filterMap_cons, List.filterMap_append, List.filterMap_cons,
    entry?_conclusion]
  rfl

theorem Chronicle.level_eq [ToString H] (h : Chronicle config spec r events)
    {entry : Level × String} (hEntry : entry ∈ events.filterMap Event.entry?) :
    entry.1 = .trace ∨ entry.1 = .debug := by
  obtain ⟨e, hMem, hEntry⟩ := List.mem_filterMap.mp hEntry
  have hNot := h.announced.level_ne_info e hMem entry hEntry
  cases hLevel : entry.1 with
  | info => exact absurd hLevel hNot
  | debug => exact .inr rfl
  | trace => exact .inl rfl

theorem Chronicle.increasing (h : Chronicle config spec r events) :
    (traces events).Pairwise fun a b => a.2 < b.2 := by
  obtain ⟨text, -, -, -, hSublist, -⟩ := h.read
  refine List.Pairwise.sublist hSublist (List.pairwise_map.mp ?_)
  rw [List.zipIdx_map_snd]
  exact List.pairwise_lt_range'

theorem Chronicle.exists_traced (h : Chronicle config spec r events) {c : Char} {pos : Nat}
    (hMem : (c, pos) ∈ traces events) :
    ∃ before after, spec.toList = before ++ c :: after ∧ String.utf8Len before = pos := by
  obtain ⟨text, rest, hText, hSize, hSublist, -⟩ := h.read
  obtain ⟨hLt, rfl⟩ := List.getElem?_eq_some_iff.mp
    (List.mk_mem_zipIdx_iff_getElem?.mp (hSublist.mem hMem))
  have hCut : text = text.take pos ++ text[pos] :: text.drop (pos + 1) := by
    rw [← List.drop_eq_getElem_cons hLt, List.take_append_drop]
  refine ⟨text.take pos, text.drop (pos + 1) ++ rest, ?_, ?_⟩
  · rw [← List.cons_append, ← List.append_assoc, ← hCut, hText]
  · rw [utf8Len_eq_length fun c hc => hSize c (List.mem_of_mem_take hc),
      List.length_take_of_le hLt.le]

theorem Chronicle.length_traces_le (h : Chronicle config spec r events) :
    (traces r.journal.toList).length ≤ spec.toList.length := by
  obtain ⟨text, rest, hText, -, hSublist, -⟩ := h.read
  have hTraces : traces r.journal.toList = traces events := by
    rw [h.journal_eq, traces, List.filterMap_cons, List.filterMap_append, List.filterMap_cons,
      traced?_conclusion]
    exact List.append_nil _
  have hLength := hSublist.length_le
  rw [List.length_zipIdx] at hLength
  rw [hTraces, hText, List.length_append]
  omega

/-- Characters that an accepted specification has traced, where they stand behind a text. -/
def Traced (before : List Char) (c : Char) : Prop :=
  c.isDigit = false ∧ c ≠ 'x' ∧ c ∉ ['}', ']', '>', ')'] ∧ ¬(c = '{' ∧ EndsWithHeading before)

theorem silent_eq_false_iff {before : List Char} {c : Char} :
    silent (headed false before) c = false ↔ Traced before c := by
  rw [Traced, ← headed_eq_true_iff]
  simp only [silent, Bool.or_eq_false_iff, Bool.and_eq_false_imp, beq_eq_false_iff_ne,
    List.mem_cons, List.not_mem_nil, or_false, not_or, not_and]
  tauto

theorem Chronicle.traced_iff (h : Chronicle config spec r events) {handle : H}
    (hOk : r.outcome = .ok handle) {before after : List Char} {c : Char}
    (hSpec : spec.toList = before ++ c :: after) :
    (c, String.utf8Len before) ∈ traces events ↔ Traced before c := by
  obtain ⟨text, rest, hText, hSize, -, hEnd⟩ := h.read
  obtain ⟨rfl, hTold⟩ := hEnd handle hOk
  rw [List.append_nil, hSpec] at hText
  subst hText
  rw [hTold, mem_told, utf8Len_eq_length fun c hc => hSize c (List.mem_append_left _ hc),
    ← silent_eq_false_iff]
  constructor
  · rintro ⟨before', after', hSplit, hLength, hSilent⟩
    rw [Nat.zero_add] at hLength
    obtain ⟨rfl, -⟩ := List.append_inj hSplit hLength
    exact hSilent
  · exact fun hSilent => ⟨before, after, rfl, (Nat.zero_add _).symm, hSilent⟩

theorem Chronicle.assigned (h : Chronicle config spec r events) {before after : List (Event H)}
    {number : Nat} {name : String} (hEvents : events = before ++ .assigned number name :: after) :
    number = (assignments before).length ∧ ∃ front handle,
      before = front ++ [.call (.made (.declare name) handle)] ∧
      (declarations (Journal.calls r.journal))[number]? = some (name, handle) := by
  obtain ⟨hNumber, front, handle, rfl, hCount⟩ := h.announced.declared_before hEvents
  rw [Nat.zero_add] at hNumber hCount
  refine ⟨hNumber, front, handle, rfl, ?_⟩
  rw [h.calls_eq, hEvents, hCount, List.append_assoc, List.filterMap_append, declarations_append]
  rw [List.getElem?_append_right le_rfl, Nat.sub_self]
  rfl
end Chronicle

end Parse

namespace TypeTable

open Parse

/-- What the log of a parse tells. The events are those between its begin and its end. -/
structure LogTells (config : Config) (spec : String) (r : Run TypeTable Nat)
    (events : List (Event Nat)) : Prop where
  log_eq : Journal.log r.journal = (.info, "parsing type specification '" ++ spec ++ "'") ::
    (events.filterMap Event.entry? ++ [(.info, verdict r.outcome (assignments events).length)])
  level_eq : ∀ entry ∈ events.filterMap Event.entry?, entry.1 = .trace ∨ entry.1 = .debug
  success_iff : (∃ n : Nat, verdict r.outcome (assignments events).length =
    s!"success, {n} named structs") ↔ ∃ id, r.outcome = .ok id
  increasing : (traces events).Pairwise fun a b => a.2 < b.2
  exists_traced : ∀ c pos, (c, pos) ∈ traces events →
    ∃ before after, spec.toList = before ++ c :: after ∧ String.utf8Len before = pos
  traced_iff : ∀ id, r.outcome = .ok id → ∀ before c after, spec.toList = before ++ c :: after →
    ((c, String.utf8Len before) ∈ traces events ↔ Traced before c)
  calls_eq : Journal.calls r.journal = events.filterMap Event.call?
  /-- Numbers count up, and each goes to the struct that was declared just before. -/
  assigned : ∀ before number name after, events = before ++ .assigned number name :: after →
    number = (assignments before).length ∧ ∃ front id,
      before = front ++ [.call (.made (.declare name) id)] ∧
      (declarations (Journal.calls r.journal))[number]? = some (name, id)
  nested : ∃ waiting, Nested (Journal.calls r.journal) waiting ∧
    ∀ id, r.outcome = .ok id → waiting = []
  /-- The fields of a body are written between the braces of the struct with its number. -/
  written : ∀ id fields, .body id fields ∈ Journal.calls r.journal →
    ∃ number, Numbered (Journal.calls r.journal) number id ∧
      Defines factory config initial 0 spec.toList number fields
  nodup : ((declarations (Journal.calls r.journal)).map Prod.snd).Nodup
  once : ∀ id, r.outcome = .ok id →
    ∀ struct ∈ (declarations (Journal.calls r.journal)).map Prod.snd,
      (completions (Journal.calls r.journal)).count struct = 1

/-- The log tells the parse: symbols where they stand, structs with their numbers in order, bodies
from the inside out, and the outcome last. -/
theorem exists_logTells (spec : String) (config : Config) :
    ∃ events, LogTells config spec (initial.parse spec config) events := by
  obtain ⟨events, hChronicle⟩ := exists_chronicle factory config spec initial
  obtain ⟨calls, waiting, hCalls, -, hConforms, hEnding⟩ :=
    exists_conforms factory config spec initial
  have hNodup : ((declarations calls).map Prod.snd).Nodup :=
    (effect_replay hConforms).declared ▸ nodup_newStructs _ _
  have hWaiting (id : Nat) (hOk : (run factory config spec initial).outcome = .ok id) :
      waiting = [] := by
    rw [hOk] at hEnding
    cases hEnding with
    | ok hNone => exact hNone
  refine ⟨events, hChronicle.log_eq, fun _ => hChronicle.level_eq, verdict_success_iff _ _,
    hChronicle.increasing, fun _ _ => hChronicle.exists_traced,
    fun _ hOk _ _ _ => hChronicle.traced_iff hOk, hChronicle.calls_eq,
    fun _ _ _ _ => hChronicle.assigned, ?_, ?_, ?_, ?_⟩
  all_goals rw [parse, hCalls]
  · exact ⟨waiting, hConforms.nested, hWaiting⟩
  · exact fun _ _ => hEnding.defines
  · exact hNodup
  · intro id hOk struct hStruct
    obtain rfl := hWaiting id hOk
    have hPerm := hConforms.nested.perm
    rw [List.append_nil] at hPerm
    exact List.count_eq_one_of_mem (hPerm.nodup_iff.mpr hNodup) (hPerm.mem_iff.mpr hStruct)

example : Journal.log (initial.parse "=0\x7bi*%0\x7d" { structPrefix := "s" }).journal =
    [(.info, "parsing type specification '=0\x7bi*%0\x7d'"), (.trace, "symbol '=' at 0"),
      (.debug, "created opaque struct 's0' as #9"), (.debug, "assigned type id 0 to struct 's0'"),
      (.trace, "symbol 'i' at 3"), (.trace, "symbol '*' at 4"), (.trace, "symbol '%' at 5"),
      (.debug, "setting body of 9, 2 fields"), (.info, "success, 1 named structs")] := by
  decide +kernel

end TypeTable

end CompactType
