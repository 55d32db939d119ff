import CompactType.Proofs.Depth
import CompactType.Proofs.Evolution
import CompactType.Proofs.Logs
import CompactType.Proofs.Tariffs

/-!
# What a parse takes

Every element that is found uses up some text, so the loops and the recursion end by themselves:
the numbers that bound them are never reached. A text has a character for each symbol and each call
of its parse, and one that opens a form for each type that is added to a table.
-/

set_option autoImplicit false

namespace CompactType

namespace Parse

variable {σ H : Type}

def State.stop (s : State σ H) : Nat := s.cursor.pos + String.utf8Len s.cursor.rest

/-- The second state is between the first one and the end of the same text. -/
structure Towards (s s' : State σ H) : Prop where
  pos_le : s.cursor.pos ≤ s'.cursor.pos
  le_stop : s'.cursor.pos ≤ s.stop
  stop_eq : s'.stop = s.stop

/-- A parse for an element goes ahead. It goes farther if it finds one, and it finds none at the end
of the text only. -/
inductive Advances (s : State σ H) :
    EStateM.Result Fault (State σ H) (Option (Element H)) → Prop where
  | element {e : Element H} {s' : State σ H} :
    Towards s s' → s.cursor.pos < s'.cursor.pos → Advances s (.ok (some e) s')
  | none {s' : State σ H} : Towards s s' → s'.cursor.pos = s.stop → Advances s (.ok none s')
  | error {fault : Fault} {s' : State σ H} : Towards s s' → Advances s (.error fault s')

/-- The rounds of a loop that reads elements until the closing character or the end of the text.
Nothing else stops it. -/
inductive Loops (sub : ElementParser σ H) (closing : Char) : Nat → State σ H →
    EStateM.Result Fault (State σ H) (List (Placed H)) → Prop where
  | closed {s : State σ H} : s.cursor.looksAt closing = true → Loops sub closing 0 s (.ok [] s)
  | ended {s s' : State σ H} : s.cursor.looksAt closing = false → sub.run s = .ok none s' →
    Loops sub closing 0 s (.ok [] s')
  | failed {s s' : State σ H} {fault : Fault} : s.cursor.looksAt closing = false →
    sub.run s = .error fault s' → Loops sub closing 0 s (.error fault s')
  | found {rounds : Nat} {s s₁ s' : State σ H} {e : Element H} {placed : List (Placed H)} :
    s.cursor.looksAt closing = false → sub.run s = .ok (some e) s₁ →
    Loops sub closing rounds s₁ (.ok placed s') →
    Loops sub closing (rounds + 1) s (.ok (⟨e, s.cursor.pos⟩ :: placed) s')
  | failedLater {rounds : Nat} {s s₁ s' : State σ H} {e : Element H} {fault : Fault} :
    s.cursor.looksAt closing = false → sub.run s = .ok (some e) s₁ →
    Loops sub closing rounds s₁ (.error fault s') →
    Loops sub closing (rounds + 1) s (.error fault s')

section Steps

variable {s s' : State σ H}

theorem Passes.towards {text : List Char} (h : Passes s text s') : Towards s s' := by
  have hRest := congrArg String.utf8Len h.rest_eq
  rw [String.utf8Len_append, utf8Len_eq_length h.utf8Size_eq] at hRest
  have hPos := h.pos_eq
  refine ⟨?_, ?_, ?_⟩
  · omega
  · rw [State.stop]
    omega
  · rw [State.stop, State.stop]
    omega

theorem element_eq_none {F : Factory σ H} {config : Config} {depth : Nat}
    (h : (element F config depth).run s = .ok none s') : s' = s ∧ s.cursor.rest = [] := by
  cases depth with
  | zero => cases h
  | succ depth =>
    have hRest := rest_eq_nil_of_dispatch h
    have hRun := run_dispatch_nil F config (element F config depth) hRest
    cases hRun.symm.trans h
    exact ⟨rfl, hRest⟩

theorem advances_element (F : Factory σ H) (config : Config) (depth : Nat) (s : State σ H) :
    Advances s ((element F config depth).run s) := by
  have hTells := (chronicling_elements F config depth s.opened.size).related _ trivial s rfl
  have hReaches := forwardElements_element F config depth 0 s.cursor.pos (Nat.zero_le _) s rfl
  generalize hRun : (element F config depth).run s = result at hTells hReaches
  cases hTells with
  | error hNarrates => exact .error hNarrates.passes.towards
  | @ok answer s' _ _ hNarrates =>
    cases answer with
    | some e =>
      cases hReaches with
      | ok _ hAnswers => exact .element hNarrates.passes.towards (hAnswers rfl)
    | none =>
      obtain ⟨rfl, hEnd⟩ := element_eq_none hRun
      refine .none hNarrates.passes.towards ?_
      rw [State.stop, hEnd]
      rfl

end Steps

theorem Progresses.loops {sub : ElementParser σ H} (h : Progresses sub) (closing : Char)
    {bound : Nat} {s : State σ H} (hBound : s.cursor.rest.length < bound) :
    ∃ rounds ≤ s.cursor.rest.length,
      Loops sub closing rounds s ((sequenceWithin sub closing bound).run s) := by
  induction bound generalizing s with
  | zero => exact absurd hBound (Nat.not_lt_zero _)
  | succ bound ih =>
    rw [sequenceWithin, run_looksAt_bind]
    by_cases hLooks : s.cursor.looksAt closing = true
    · rw [if_pos hLooks]
      exact ⟨0, Nat.zero_le _, .closed hLooks⟩
    rw [if_neg hLooks, run_here_bind, EStateM.run_bind]
    rw [Bool.not_eq_true] at hLooks
    cases hRun : sub.run s with
    | error fault s' => exact ⟨0, Nat.zero_le _, .failed hLooks hRun⟩
    | ok answer s₁ =>
      cases answer with
      | none => exact ⟨0, Nat.zero_le _, .ended hLooks hRun⟩
      | some e =>
        have hLess := h s e s₁ hRun
        obtain ⟨rounds, hRounds, hLoops⟩ := ih (s := s₁) (by omega)
        refine ⟨rounds + 1, by omega, ?_⟩
        simp only [EStateM.run_bind]
        generalize (sequenceWithin sub closing bound).run s₁ = result at hLoops ⊢
        cases result with
        | ok placed s' => exact .found hLooks hRun hLoops
        | error fault s' => exact .failedLater hLooks hRun hLoops

theorem Progresses.exists_loops {sub : ElementParser σ H} (h : Progresses sub) (closing : Char)
    (s : State σ H) : ∃ rounds ≤ s.cursor.rest.length,
      Loops sub closing rounds s ((sequence sub closing).run s) :=
  h.loops closing (Nat.lt_succ_self _)

/-- What a parse takes, from the single calls to the whole run. -/
structure Economical (F : Factory σ H) (config : Config) (spec : String) (store : σ) : Prop where
  advances : ∀ depth s, Advances s ((element F config depth).run s)
  /-- With the nesting counted while elements are read, the count is restored by each of them,
  however it ends. A bound on the recursion has no influence. -/
  restores : ∀ depth bound peak s, depth ≤ config.maxDepth → config.maxDepth ≤ depth + bound →
    ∃ peak' ≤ max peak config.maxDepth, (counted F config bound).run (s.under ⟨depth, peak⟩) =
      underResult ⟨depth, peak'⟩ ((element F config (config.maxDepth - depth)).run s)
  loops : ∀ depth closing s, ∃ rounds ≤ s.cursor.rest.length,
    Loops (element F config depth) closing rounds s
      ((sequence (element F config depth) closing).run s)
  symbols_le : (traces (run F config spec store).journal.toList).length ≤ spec.utf8ByteSize
  calls_le : (Journal.calls (run F config spec store).journal).length ≤ spec.utf8ByteSize

theorem economical (F : Factory σ H) (config : Config) (spec : String) (store : σ) :
    Economical F config spec store := by
  have hSize := length_le_utf8ByteSize spec.toList
  rw [String.ofList_toList] at hSize
  obtain ⟨events, hChronicle⟩ := exists_chronicle F config spec store
  exact
    { advances := advances_element F config
      restores := fun _ _ peak s hDepth hBound => exists_run_counted F config hDepth hBound peak s
      loops := fun depth closing s =>
        (progresses_element F config depth).exists_loops closing s
      symbols_le := hChronicle.length_traces_le.trans hSize
      calls_le := (length_calls_le F config spec store).trans hSize }

end Parse

namespace TypeTable

open Parse

variable {t : TypeTable}

theorem Reachable.apply_call (h : t.Reachable) (call : Call Nat) :
    (call.apply factory t).Reachable := by
  have hAfter := h.after [call.operation]
  cases call <;> exact hAfter

theorem Reachable.size_apply_le (h : t.Reachable) (call : Call Nat) :
    (call.apply factory t).size ≤ t.size + typeTariff.price call := by
  cases call with
  | body id fields =>
    obtain hSame | ⟨name, -, hSet⟩ := t.setBody_cases id fields
    · exact (congrArg size hSame).le
    · exact (congrArg size hSet).trans_le (size_setKind ..).le
  | made r id =>
    cases r with
    | scalar k =>
      obtain ⟨_, hKind⟩ := h.exists_scalar k
      have hSame : (t.make (.scalar k)).2 = t :=
        congrArg Prod.snd (h.coherent.intern_of_kind? rfl hKind)
      exact (congrArg size hSame).le
    | _ =>
      obtain ⟨hSame, -⟩ | ⟨-, hSize, -⟩ := t.make_cases _
      · exact (congrArg size hSame).trans_le (Nat.le_add_right _ _)
      · exact hSize.le

theorem Reachable.size_replay_le (h : t.Reachable) (calls : List (Call Nat)) :
    (factory.replay t calls).size ≤ t.size + typeTariff.cost calls := by
  induction calls generalizing t with
  | nil => exact Nat.le_refl _
  | cons call calls ih =>
    have hFirst := h.size_apply_le call
    have hRest := ih (h.apply_call call)
    change (factory.replay (call.apply factory t) calls).size ≤
      t.size + (typeTariff.price call + typeTariff.cost calls)
    omega

theorem Reachable.size_parse_le (h : t.Reachable) (spec : String) (config : Config) :
    (t.parse spec config).store.size ≤ t.size + spec.toList.countP (Opens ·) := by
  obtain ⟨calls, _, hCalls, hStore, -⟩ := exists_conforms factory config spec t
  have hCost := cost_le_value typeTariff factory config spec t
  rw [hCalls, value_typeTariff] at hCost
  rw [parse, hStore]
  exact (h.size_replay_le calls).trans (Nat.add_le_add_left hCost _)

/-- Every call of the recursion goes ahead and restores the depth, so that the parse of any text
ends. It takes no more symbols and calls than the text has bytes, and adds no more types to a table
than the text has openings. -/
theorem parse_economical {σ H : Type} (F : Factory σ H) (config : Config) (spec : String)
    (store : σ) (operations : List Operation) :
    Economical F config spec store ∧
      ((initial.after operations).parse spec config).store.size ≤
        (initial.after operations).size + spec.toList.countP (Opens ·) :=
  ⟨economical F config spec store, Reachable.size_parse_le ⟨operations, rfl⟩ spec config⟩

end TypeTable

end CompactType
