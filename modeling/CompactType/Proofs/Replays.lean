import CompactType.Factory.Recorder
import CompactType.Proofs.Comparison
import CompactType.Proofs.Parsed

/-!
# Replays of recorded calls

A parse does nothing to a table that its calls do not say. They can be recorded with a factory that
shares nothing and be made on the table later, each handle translated to the id that its call
returned.
-/

set_option autoImplicit false

namespace CompactType

section Logging

variable {σ H : Type}

/-- The factory with a log of its calls. -/
def Factory.logging (F : Factory σ H) : Factory (σ × List (Call H)) H where
  make r s := ((F.make r s.1).1, (F.make r s.1).2, s.2 ++ [.made r (F.make r s.1).1])
  setBody h fields s :=
    ((F.setBody h fields s.1).1, (F.setBody h fields s.1).2, s.2 ++ [.body h fields])
  classOf s h := F.classOf s.1 h

namespace Parse

variable (F : Factory σ H) (store : σ)

theorem fst_replay_logging (log calls : List (Call H)) :
    (F.logging.replay (store, log) calls).1 = F.replay store calls := by
  induction calls generalizing store log with
  | nil => rfl
  | cons call calls ih => cases call <;> exact ih _ _

theorem snd_replay_logging {config : Config} {calls : List (Call H)} {waiting : List H}
    (h : Conforms F.logging config (store, []) calls waiting) :
    (F.logging.replay (store, []) calls).2 = calls := by
  have hMade {calls calls' : List (Call H)} {r : Request H} {handle : H}
      (hAsks : Asks F.logging (store, []) calls r handle calls')
      (ih : (F.logging.replay (store, []) calls).2 = calls) :
      (F.logging.replay (store, []) calls').2 = calls' := by
    rw [hAsks.calls_eq, Factory.replay_concat, ← hAsks.answer_eq]
    exact congrArg (· ++ [_]) ih
  induction h with
  | nil => rfl
  | request _ _ _ hAsks ih => exact hMade hAsks ih
  | declare _ hAsks ih => exact hMade hAsks ih
  | body _ _ hFills ih =>
    rw [hFills.calls_eq, Factory.replay_concat]
    exact congrArg (· ++ [_]) ih

theorem run_logging (config : Config) (spec : String) :
    (run F.logging config spec (store, [])).outcome = (run F config spec store).outcome ∧
      (run F.logging config spec (store, [])).store.2 =
        Journal.calls (run F config spec store).journal := by
  have hAlike : AnswerAlike (Named config config) F store F.logging (store, []) := by
    constructor
    · intro calls calls' r r' hCalls hRequest
      rw [hCalls.eq (named_le_eq config), hRequest.eq (named_le_eq config),
        ← fst_replay_logging F store []]
      rfl
    · intro calls calls' h fields hCalls
      rw [hCalls.eq (named_le_eq config), ← fst_replay_logging F store []]
      rfl
    · intro calls calls' h hCalls
      rw [hCalls.eq (named_le_eq config), ← fst_replay_logging F store []]
      rfl
  obtain ⟨hOutcome, hCalls⟩ := runs_eq hAlike spec
  obtain ⟨calls, waiting, hEq, hStore, hConforms, -⟩ :=
    exists_conforms F.logging config spec (store, [])
  refine ⟨hOutcome, ?_⟩
  rw [hStore, snd_replay_logging F store hConforms, ← hEq, hCalls]

end Parse

end Logging

namespace TypeTable

/-- A table on which recorded calls are made, with the ids that they returned. -/
structure Replay where
  table : TypeTable
  /-- The id that the call with this handle returned. -/
  idOf : Nat → Nat

namespace Replay

def apply (r : Replay) : Call Nat → Replay
  | .made request handle =>
    let (id, table) := r.table.make (request.map r.idOf)
    ⟨table, fun h => if h = handle then id else r.idOf h⟩
  | .body handle fields =>
    { r with table := (r.table.setBody (r.idOf handle) (fields.map r.idOf)).2 }

def after (r : Replay) (calls : List (Call Nat)) : Replay := calls.foldl apply r

/-- The calls of a parse with a factory that shares nothing, made on a table. -/
def recorded (t : TypeTable) (idOf : Nat → Nat) (spec : String) (config : Config) : Replay :=
  after ⟨t, idOf⟩
    (Journal.calls (Parse.run (Recorder.factory {}) config spec Recorder.empty).journal)

theorem after_concat (r : Replay) (calls : List (Call Nat)) (call : Call Nat) :
    r.after (calls ++ [call]) = (r.after calls).apply call := by
  simp [after]

end Replay

/-- The replay has made the recorded calls so far. Each handle stands for a type of the same class,
and the structs that wait are declared. -/
structure Replays (r : Replay) (waiting : List (Nat × Nat)) (recorder : Recorder) : Prop where
  indexed : r.table.Indexed
  classed {handle : Nat} {c : TypeClass} : recorder.classes[handle]? = some c →
    ∃ k, r.table.kind? (r.idOf handle) = some k ∧ k.typeClass = c
  waits {handle id : Nat} : (handle, id) ∈ waiting → handle < recorder.classes.size ∧
    id = r.idOf handle ∧ ∃ name, r.table.kind? id = some (.struct (some name) none)
  distinct : (waiting.map Prod.snd).Nodup

/-- A recorded handle and the id that it stands for. -/
def Replay.Known (r : Replay) (recorder : Recorder) (handle id : Nat) : Prop :=
  handle < recorder.classes.size ∧ id = r.idOf handle

namespace Replays

variable {r : Replay} {waiting : List (Nat × Nat)} {recorder : Recorder}

theorem of_indexed {t : TypeTable} (h : t.Indexed) (idOf : Nat → Nat) :
    Replays ⟨t, idOf⟩ [] Recorder.empty where
  indexed := h
  classed := nofun
  waits := nofun
  distinct := List.nodup_nil

theorem classOf_eq (h : Replays r waiting recorder) {handle : Nat}
    (hLt : handle < recorder.classes.size) :
    recorder.classOf {} handle = r.table.classOf (r.idOf handle) := by
  have hClass := Array.getElem?_eq_getElem hLt
  obtain ⟨k, hKind, hEq⟩ := h.classed hClass
  simp [Recorder.classOf, TypeTable.classOf, hClass, hKind, hEq]

theorem made (h : Replays r waiting recorder) (request : Request Nat) :
    Replays (r.apply (.made request recorder.classes.size)) waiting (recorder.make request).2 where
  indexed := h.indexed.make _
  classed {handle c} hClass := by
    rw [Recorder.make, Array.getElem?_push] at hClass
    change ∃ k, (r.table.make _).2.kind? (if handle = _ then _ else _) = some k ∧ _
    split at hClass
    · next hNew =>
      obtain rfl := Option.some.inj hClass
      rw [if_pos hNew]
      exact ⟨_, h.indexed.kind?_make _,
        (Request.typeClass_kind _).trans (Request.typeClass_map _ _)⟩
    · next hOld =>
      obtain ⟨k, hKind, hEq⟩ := h.classed hClass
      rw [if_neg hOld]
      exact ⟨k, kind?_make_of_kind? hKind _, hEq⟩
  waits {handle id} hMem := by
    obtain ⟨hLt, hId, name, hKind⟩ := h.waits hMem
    refine ⟨by simp [Recorder.make]; omega, ?_, name, kind?_make_of_kind? hKind _⟩
    change id = if handle = _ then _ else _
    rw [if_neg (Nat.ne_of_lt hLt), hId]
  distinct := h.distinct

theorem declared (h : Replays r waiting recorder) (name : String) :
    Replays (r.apply (.made (.declare name) recorder.classes.size))
      ((recorder.classes.size, r.table.size) :: waiting) (recorder.make (.declare name)).2 where
  indexed := (h.made _).indexed
  classed := (h.made _).classed
  waits {handle id} hMem := by
    obtain hNew | hOld := List.mem_cons.mp hMem
    · cases hNew
      refine ⟨by simp [Recorder.make], (if_pos rfl).symm, name, kind?_push_self r.table _⟩
    · exact (h.made _).waits hOld
  distinct := by
    refine List.nodup_cons.mpr ⟨?_, h.distinct⟩
    intro hMem
    obtain ⟨⟨handle, id⟩, hWaits, hEq⟩ := List.mem_map.mp hMem
    obtain ⟨-, -, _, hKind⟩ := h.waits hWaits
    have hLt := lt_size_of_kind? hKind
    have hId : id = r.table.size := hEq
    omega

theorem completed {handle id : Nat} (h : Replays r ((handle, id) :: waiting) recorder)
    (fields : List Nat) :
    (r.table.setBody id (fields.map r.idOf)).1 = .ok () ∧
      Replays (r.apply (.body handle fields)) waiting (recorder.setBody {}).2 := by
  obtain ⟨-, rfl, name, hKind⟩ := h.waits List.mem_cons_self
  have hSet : r.table.setBody (r.idOf handle) (fields.map r.idOf) = _ :=
    setBody_of_declared hKind
  refine ⟨congrArg Prod.fst hSet, h.indexed.setBody _ _, ?_, ?_,
    (List.nodup_cons.mp h.distinct).2⟩
  · intro handle' c hClass
    obtain ⟨k, hKind', hEq⟩ := h.classed hClass
    obtain hSame | ⟨_, _, rfl, hSet⟩ :=
      grows_setBody r.table (r.idOf handle) (fields.map r.idOf) _ _ hKind'
    · exact ⟨k, hSame, hEq⟩
    · exact ⟨_, hSet, hEq⟩
  · intro handle' id' hMem
    obtain ⟨hLt, hId, name', hKind'⟩ := h.waits (List.mem_cons_of_mem _ hMem)
    have hNe : id' ≠ r.idOf handle := by
      rintro rfl
      exact (List.nodup_cons.mp h.distinct).1 (List.mem_map.mpr ⟨_, hMem, rfl⟩)
    refine ⟨hLt, hId, name', ?_⟩
    change (r.table.setBody _ _).2.kind? id' = _
    rw [hSet, kind?_setKind, if_neg hNe, hKind']

end Replays

theorem Replay.known_made (r : Replay) (recorder : Recorder) (request : Request Nat) :
    r.Known recorder ≤
      (r.apply (.made request recorder.classes.size)).Known (recorder.make request).2 := by
  rintro handle id ⟨hLt, rfl⟩
  refine ⟨by simp [Recorder.make]; omega, ?_⟩
  exact (if_neg (Nat.ne_of_lt hLt)).symm

theorem Replay.map_eq {r : Replay} {recorder : Recorder} {handles ids : List Nat}
    (h : List.Forall₂ (r.Known recorder) handles ids) : ids = handles.map r.idOf := by
  induction h with
  | nil => rfl
  | cons hHead _ ih => rw [List.map_cons, ← hHead.2, ← ih]

theorem Replay.request_eq {r : Replay} {recorder : Recorder} {p q : Request Nat}
    (h : p.Matches (r.Known recorder) q) : q = p.map r.idOf := by
  cases h with
  | scalar => rfl
  | pointer hElem | array _ hElem | vector _ hElem => rw [hElem.2]; rfl
  | record hFields => rw [map_eq hFields]; rfl
  | function hParams hRet hVariadic => rw [map_eq hParams, hRet.2, hVariadic]; rfl

/-- The log is replayed on the table, and both factories are asked for the same types. -/
structure Logged (start : Replay) (known : Nat → Nat → Prop) (waiting : List (Nat × Nat))
    (s : Recorder × List (Call Nat)) (t : TypeTable) : Prop where
  table_eq : (start.after s.2).table = t
  known_eq : known = (start.after s.2).Known s.1
  replays : Replays (start.after s.2) waiting s.1

def replayCoupling (start : Replay) : Coupling (Recorder.factory {}).logging factory where
  Rel := Logged start
  classOf := by
    rintro _ waiting ⟨recorder, calls⟩ _ handle _ ⟨rfl, rfl, hReplays⟩ ⟨hLt, rfl⟩
    exact hReplays.classOf_eq hLt
  make := by
    rintro _ waiting ⟨recorder, calls⟩ _ p q ⟨rfl, rfl, hReplays⟩ hMatches
    obtain rfl := Replay.request_eq hMatches
    have hAfter := start.after_concat calls (.made p recorder.classes.size)
    refine ⟨_, Replay.known_made _ recorder p, ⟨?_, ?_, ?_⟩, ?_⟩
    · exact congrArg Replay.table hAfter
    · exact congrArg (Replay.Known · (recorder.make p).2) hAfter.symm
    · exact hAfter.symm ▸ hReplays.made p
    · exact ⟨by simp [Recorder.factory, Factory.logging, Recorder.make], (if_pos rfl).symm⟩
  declare := by
    rintro _ waiting ⟨recorder, calls⟩ _ name ⟨rfl, rfl, hReplays⟩
    have hAfter := start.after_concat calls (.made (.declare name) recorder.classes.size)
    refine ⟨_, Replay.known_made _ recorder (.declare name), ⟨?_, ?_, ?_⟩, ?_⟩
    · exact congrArg Replay.table hAfter
    · exact congrArg (Replay.Known · (recorder.make (.declare name)).2) hAfter.symm
    · exact hAfter.symm ▸ hReplays.declared name
    · exact ⟨by simp [Recorder.factory, Factory.logging, Recorder.make], (if_pos rfl).symm⟩
  setBody := by
    rintro _ waiting ⟨recorder, calls⟩ _ handle id fields elems ⟨rfl, rfl, hReplays⟩ hFields
    obtain rfl := Replay.map_eq hFields
    have hAfter := start.after_concat calls (.body handle fields)
    obtain ⟨hOk, hReplays'⟩ := hReplays.completed fields
    obtain ⟨-, rfl, -⟩ := hReplays.waits List.mem_cons_self
    refine ⟨hOk.symm, _, waiting, le_rfl, ⟨?_, ?_, ?_⟩, fun _ => rfl⟩
    · exact congrArg Replay.table hAfter
    · change _ = (start.after (calls ++ [.body handle fields])).Known _
      rw [hAfter]
      rfl
    · exact hAfter.symm ▸ hReplays'

/-- A parse into a table leads to the table and the outcome that a replay of the recorded calls
leads to, whatever handles stand for that no call returned. -/
theorem Reachable.parse_eq_replay {t : TypeTable} (h : t.Reachable) (spec : String)
    (config : Config) (idOf : Nat → Nat) :
    (t.parse spec config).store = (Replay.recorded t idOf spec config).table ∧
      (t.parse spec config).outcome =
        (Parse.run (Recorder.factory {}) config spec Recorder.empty).outcome.map
          (Replay.recorded t idOf spec config).idOf := by
  obtain ⟨hOutcome, hLog⟩ := Parse.run_logging (Recorder.factory {}) Recorder.empty config spec
  have hStart : (replayCoupling ⟨t, idOf⟩).Rel
      (Replay.Known ⟨t, idOf⟩ Recorder.empty) [] (Recorder.empty, []) t :=
    ⟨rfl, rfl, .of_indexed h.indexed idOf⟩
  have hMatch := Parse.runs_match (replayCoupling ⟨t, idOf⟩) config spec hStart
  rw [Replay.recorded, ← hLog, ← hOutcome]
  cases hMatch with
  | error hLeft hRight hRel =>
    refine ⟨hRel.table_eq.symm, hRight.trans ?_⟩
    rw [hLeft]
    rfl
  | ok hLeft hRight _ hKnown hRel =>
    refine ⟨hRel.table_eq.symm, hRight.trans ?_⟩
    rw [hRel.known_eq] at hKnown
    rw [hLeft, hKnown.2]
    rfl

/-- Two equal pointers are recorded apart, and both calls return the pointer that the table has. -/
theorem parse_eq_replay_unfinished :
    (initial.after [.parse "*i" {}]).Reachable ∧
    ((initial.after [.parse "*i" {}]).parse "=0\x7b*i*i" {}).store =
      (Replay.recorded (initial.after [.parse "*i" {}]) id "=0\x7b*i*i" {}).table ∧
    ((initial.after [.parse "*i" {}]).parse "=0\x7b*i*i" {}).outcome =
      .error ⟨⟨.missingClose '}', 7⟩, "=0\x7b*i*i"⟩ := by
  have hReachable : (initial.after [.parse "*i" {}]).Reachable := ⟨_, rfl⟩
  obtain ⟨hStore, hOutcome⟩ := hReachable.parse_eq_replay "=0\x7b*i*i" {} id
  refine ⟨hReachable, hStore, hOutcome.trans ?_⟩
  have hRecorded : (Parse.run (Recorder.factory {}) {} "=0\x7b*i*i" Recorder.empty).outcome =
      .error ⟨⟨.missingClose '}', 7⟩, "=0\x7b*i*i"⟩ := by
    decide +kernel
  rw [hRecorded]
  rfl

end TypeTable

end CompactType
