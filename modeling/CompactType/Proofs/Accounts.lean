import CompactType.Proofs.Readings
import CompactType.Proofs.Steps

/-!
# Accounts of a run

A run of a parser is accounted for by the text that it read and the calls that it made: these are
related in one way if the run ends well and in another if it fails. Accounts of composed parsers
are made of accounts of their parts.
-/

set_option autoImplicit false

namespace CompactType.Parse

variable {σ H α β : Type}

/-- The calls made so far are those in the journal, and the rest of the state follows from them. -/
structure Tracks (F : Factory σ H) (store : σ) (calls : List (Call H)) (s : State σ H) : Prop where
  calls_eq : Journal.calls s.journal = calls
  store_eq : s.store = F.replay store calls
  opened_eq : s.opened.toList = (declarations calls).map Prod.snd

/-- The text between two states, which takes one byte a character. -/
structure Passes (s : State σ H) (text : List Char) (s' : State σ H) : Prop where
  rest_eq : s.cursor.rest = text ++ s'.cursor.rest
  pos_eq : s'.cursor.pos = s.cursor.pos + text.length
  utf8Size_eq : ∀ c ∈ text, c.utf8Size = 1

/-- How far a text was read when a fault occurred. An unexpected character does not count. -/
def boundary (fault : Fault) (s : State σ H) : Nat :=
  match fault.cause with
  | .unexpectedChar _ => fault.pos
  | _ => s.cursor.pos

/-- The text that is read before a fault, up to the boundary. -/
structure Halts (s : State σ H) (text : List Char) (fault : Fault) (s' : State σ H) : Prop where
  rest_eq : ∃ more, s.cursor.rest = text ++ more
  boundary_eq : boundary fault s' = s.cursor.pos + text.length
  utf8Size_eq : ∀ c ∈ text, c.utf8Size = 1
  unexpected : ∀ c, fault.cause = .unexpectedChar c → ∃ more, s.cursor.rest = text ++ c :: more

/-- The result of a run is accounted for. If the factory caused the fault, then by the last call. -/
inductive Accounted (F : Factory σ H) (store : σ) (s : State σ H)
    (done : List Char → α → List (Call H) → Prop) (broken : List Char → List (Call H) → Prop) :
    EStateM.Result Fault (State σ H) α → Prop where
  | ok {text : List Char} {a : α} {calls : List (Call H)} {s' : State σ H} :
    Passes s text s' → Tracks F store calls s' → done text a calls →
    Accounted F store s done broken (.ok a s')
  | error {text : List Char} {fault : Fault} {calls : List (Call H)} {s' : State σ H} :
    Halts s text fault s' → Tracks F store calls s' →
    (∀ refusal, fault.cause = .factory refusal → Refused F store calls refusal) →
    broken text calls → Accounted F store s done broken (.error fault s')

/-- After the calls, every run of the parser is accounted for. -/
def Accounts (F : Factory σ H) (store : σ) (calls : List (Call H)) (x : Parser σ H α)
    (done : List Char → α → List (Call H) → Prop)
    (broken : List Char → List (Call H) → Prop) : Prop :=
  ∀ s, Tracks F store calls s → Accounted F store s done broken (x.run s)

theorem Passes.nil {s s' : State σ H} (h : s'.cursor = s.cursor) : Passes s [] s' :=
  ⟨by rw [h, List.nil_append], congrArg Cursor.pos h, by simp⟩

theorem Passes.trans {s s₁ s' : State σ H} {text more : List Char} (h : Passes s text s₁)
    (h' : Passes s₁ more s') : Passes s (text ++ more) s' where
  rest_eq := by rw [h.rest_eq, h'.rest_eq, List.append_assoc]
  pos_eq := by rw [h'.pos_eq, h.pos_eq, List.length_append, Nat.add_assoc]
  utf8Size_eq c hc := (List.mem_append.mp hc).elim (h.utf8Size_eq c) (h'.utf8Size_eq c)

theorem Passes.halts {s s₁ s' : State σ H} {text more : List Char} {fault : Fault}
    (h : Passes s text s₁) (h' : Halts s₁ more fault s') : Halts s (text ++ more) fault s' where
  rest_eq := by
    obtain ⟨rest, hRest⟩ := h'.rest_eq
    exact ⟨rest, by rw [h.rest_eq, hRest, List.append_assoc]⟩
  boundary_eq := by rw [h'.boundary_eq, h.pos_eq, List.length_append, Nat.add_assoc]
  utf8Size_eq c hc := (List.mem_append.mp hc).elim (h.utf8Size_eq c) (h'.utf8Size_eq c)
  unexpected c hCause := by
    obtain ⟨rest, hRest⟩ := h'.unexpected c hCause
    exact ⟨rest, by rw [h.rest_eq, hRest, List.append_assoc]⟩

/-- Causes that neither a character nor the factory is to blame for. -/
def Ordinary : Cause → Prop
  | .unexpectedChar _ | .factory _ => False
  | _ => True

theorem Halts.nil {s s' : State σ H} {fault : Fault} (h : s'.cursor = s.cursor)
    (hCause : ∀ c, fault.cause ≠ .unexpectedChar c) : Halts s [] fault s' where
  rest_eq := ⟨_, rfl⟩
  boundary_eq := by
    unfold boundary
    split
    · next c hUnexpected => exact absurd hUnexpected (hCause c)
    · exact congrArg Cursor.pos h
  utf8Size_eq := by simp
  unexpected c hUnexpected := absurd hUnexpected (hCause c)

theorem Halts.unexpectedChar {s : State σ H} {c : Char} {rest : List Char}
    (h : s.cursor.rest = c :: rest) (s' : State σ H) :
    Halts s [] ⟨.unexpectedChar c, s.cursor.pos⟩ s' where
  rest_eq := ⟨_, rfl⟩
  boundary_eq := rfl
  utf8Size_eq := by simp
  unexpected := by
    rintro _ ⟨⟩
    exact ⟨rest, h⟩

namespace Accounted

variable {F : Factory σ H} {store : σ} {s s₁ : State σ H}
  {done done' : List Char → α → List (Call H) → Prop}
  {broken broken' : List Char → List (Call H) → Prop}
  {result : EStateM.Result Fault (State σ H) α}

theorem weaken (h : Accounted F store s done broken result)
    (hDone : ∀ text a calls, done text a calls → done' text a calls)
    (hBroken : ∀ text calls, broken text calls → broken' text calls) :
    Accounted F store s done' broken' result := by
  cases h with
  | ok hPasses hTracks h => exact .ok hPasses hTracks (hDone _ _ _ h)
  | error hHalts hTracks hRefused h => exact .error hHalts hTracks hRefused (hBroken _ _ h)

theorem prepend {text : List Char} (hPasses : Passes s text s₁)
    (h : Accounted F store s₁ (fun more => done (text ++ more)) (fun more => broken (text ++ more))
      result) : Accounted F store s done broken result := by
  cases h with
  | ok hPasses' hTracks h => exact .ok (hPasses.trans hPasses') hTracks h
  | error hHalts hTracks hRefused h => exact .error (hPasses.halts hHalts) hTracks hRefused h

theorem of_cursor_eq (h : Accounted F store s₁ done broken result)
    (hCursor : s₁.cursor = s.cursor) : Accounted F store s done broken result := by
  cases h with
  | ok hPasses hTracks h =>
    exact .ok ⟨hCursor ▸ hPasses.rest_eq, hCursor ▸ hPasses.pos_eq, hPasses.utf8Size_eq⟩ hTracks h
  | error hHalts hTracks hRefused h =>
    exact .error ⟨hCursor ▸ hHalts.rest_eq, hCursor ▸ hHalts.boundary_eq, hHalts.utf8Size_eq,
      hCursor ▸ hHalts.unexpected⟩ hTracks hRefused h

end Accounted

namespace Accounts

variable {F : Factory σ H} {store : σ} {calls : List (Call H)}
  {done done' : List Char → α → List (Call H) → Prop}
  {after : List Char → β → List (Call H) → Prop}
  {broken broken' : List Char → List (Call H) → Prop} {x : Parser σ H α} {f : α → Parser σ H β}

theorem weaken (h : Accounts F store calls x done broken)
    (hDone : ∀ text a calls', done text a calls' → done' text a calls')
    (hBroken : ∀ text calls', broken text calls' → broken' text calls') :
    Accounts F store calls x done' broken' :=
  fun s hs => (h s hs).weaken hDone hBroken

theorem bind (hx : Accounts F store calls x done broken)
    (hf : ∀ text a calls', done text a calls' → Accounts F store calls' (f a)
      (fun more => after (text ++ more)) (fun more => broken (text ++ more))) :
    Accounts F store calls (x >>= f) after broken := by
  intro s hs
  have hResult := hx s hs
  rw [EStateM.run_bind]
  generalize x.run s = result at hResult ⊢
  cases hResult with
  | ok hPasses hTracks h => exact (hf _ _ _ h _ hTracks).prepend hPasses
  | error hHalts hTracks hRefused h => exact .error hHalts hTracks hRefused h

theorem pure {a : α} (h : done [] a calls) : Accounts F store calls (pure a) done broken :=
  fun _ hs => .ok (.nil rfl) hs h

theorem fail {cause : Cause} (hCause : Ordinary cause) (pos : Nat) (h : broken [] calls) :
    Accounts F store calls (fail cause pos) done broken := by
  intro s hs
  refine .error (.nil rfl ?_) hs ?_ h
  · rintro c rfl
    exact hCause.elim
  · rintro refusal rfl
    exact hCause.elim

theorem failHere {cause : Cause} (hCause : Ordinary cause) (h : broken [] calls) :
    Accounts F store calls (failHere cause) done broken :=
  fun s hs => fail hCause s.cursor.pos h s hs

theorem fail_bind {cause : Cause} (hCause : Ordinary cause) (pos : Nat) (h : broken [] calls) :
    Accounts F store calls (Parse.fail cause pos >>= f) after broken := by
  have hFail : Accounts F store calls (Parse.fail cause pos) (fun _ (_ : α) _ => False) broken :=
    fail hCause pos h
  exact hFail.bind nofun

theorem failHere_bind {cause : Cause} (hCause : Ordinary cause) (h : broken [] calls) :
    Accounts F store calls (Parse.failHere cause >>= f) after broken := by
  have hFail : Accounts F store calls (Parse.failHere cause) (fun _ (_ : α) _ => False) broken :=
    failHere hCause h
  exact hFail.bind nofun

theorem ite {c : Prop} [Decidable c] {y : Parser σ H α}
    (hThen : c → Accounts F store calls x done broken)
    (hElse : ¬c → Accounts F store calls y done broken) :
    Accounts F store calls (if c then x else y) done broken := by
  split
  · next hc => exact hThen hc
  · next hc => exact hElse hc

theorem map {g : α → β} (hx : Accounts F store calls x (fun text a => after text (g a)) broken) :
    Accounts F store calls (do return g (← x)) after broken := by
  apply hx.bind
  intro text a calls' h
  exact pure (by rwa [List.append_nil])

theorem here_bind {f : Nat → Parser σ H β}
    (hf : ∀ pos, Accounts F store calls (f pos) after broken) :
    Accounts F store calls (here >>= f) after broken :=
  fun s hs => hf s.cursor.pos s hs

theorem remaining_bind {f : Nat → Parser σ H β}
    (hf : ∀ count, Accounts F store calls (f count) after broken) :
    Accounts F store calls (remaining >>= f) after broken :=
  fun s hs => hf s.cursor.rest.length s hs

theorem looksAt_bind {c : Char} {f : Bool → Parser σ H β}
    (hf : ∀ found, Accounts F store calls (f found) after broken) :
    Accounts F store calls (looksAt c >>= f) after broken :=
  fun s hs => hf (s.cursor.looksAt c) s hs

theorem classOf_bind {handle : H} {f : TypeClass → Parser σ H β}
    (hf : Accounts F store calls (f (F.classOf (F.replay store calls) handle)) after broken) :
    Accounts F store calls (classOf F handle >>= f) after broken := by
  intro s hs
  rw [run_classOf_bind, hs.store_eq]
  exact hf s hs

theorem nextNumber_bind {f : Nat → Parser σ H β}
    (hf : Accounts F store calls (f (declarations calls).length) after broken) :
    Accounts F store calls (nextNumber >>= f) after broken := by
  intro s hs
  have hLength := congrArg List.length hs.opened_eq
  rw [Array.length_toList, List.length_map] at hLength
  rw [run_nextNumber_bind, hLength]
  exact hf s hs

theorem opened?_bind {number : Nat} {f : Option H → Parser σ H β}
    (hf : Accounts F store calls (f ((declarations calls)[number]?.map Prod.snd)) after broken) :
    Accounts F store calls (opened? number >>= f) after broken := by
  intro s hs
  rw [run_opened?_bind, ← Array.getElem?_toList, hs.opened_eq, List.getElem?_map]
  exact hf s hs

theorem emit_bind {e : Event H} (he : e.call? = none) {f : Unit → Parser σ H β}
    (hf : Accounts F store calls (f ()) after broken) :
    Accounts F store calls (emit e >>= f) after broken := by
  intro s hs
  have hTracks : Tracks F store calls { s with journal := s.journal.push e } :=
    ⟨by simp [Journal.calls_push, he, hs.calls_eq], hs.store_eq, hs.opened_eq⟩
  rw [run_emit_bind]
  exact (hf _ hTracks).of_cursor_eq rfl

theorem eat_bind {c : Char} (hSize : c.utf8Size = 1) {f : Bool → Parser σ H β}
    (hFound : Accounts F store calls (f true) (fun more => after (c :: more))
      (fun more => broken (c :: more)))
    (hMissing : Accounts F store calls (f false) after broken) :
    Accounts F store calls (eat c >>= f) after broken := by
  rintro ⟨⟨pos, rest⟩, opened, store', journal⟩ hs
  have hSame : Tracks F store calls ⟨⟨pos + 1, rest.tail⟩, opened, store', journal⟩ :=
    ⟨hs.calls_eq, hs.store_eq, hs.opened_eq⟩
  rw [EStateM.run_bind, run_eat]
  cases rest with
  | nil => exact hMissing _ hs
  | cons d rest =>
    by_cases hc : d = c
    · subst hc
      have hEat : Cursor.eat ⟨pos, d :: rest⟩ d = (true, ⟨pos + 1, rest⟩) := by
        simp [Cursor.eat, Cursor.looksAt, Cursor.peek?, Cursor.advance]
      have hPasses : Passes ⟨⟨pos, d :: rest⟩, opened, store', journal⟩ [d]
          ⟨⟨pos + 1, rest⟩, opened, store', journal⟩ := ⟨rfl, rfl, by simpa using hSize⟩
      simp only [hEat]
      exact (hFound _ hSame).prepend hPasses
    · have hEat : Cursor.eat ⟨pos, d :: rest⟩ c = (false, ⟨pos, d :: rest⟩) := by
        simp [Cursor.eat, Cursor.looksAt, Cursor.peek?, hc]
      simp only [hEat]
      exact hMissing _ hs

theorem close_bind {c : Char} (hSize : c.utf8Size = 1) {f : Unit → Parser σ H β}
    (hFound : Accounts F store calls (f ()) (fun more => after (c :: more))
      (fun more => broken (c :: more)))
    (hMissing : broken [] calls) : Accounts F store calls (close c >>= f) after broken := by
  have hClose : Accounts F store calls (close c)
      (fun text _ calls' => text = [c] ∧ calls' = calls) broken := by
    apply eat_bind hSize
    · exact pure ⟨rfl, rfl⟩
    · exact failHere trivial hMissing
  apply hClose.bind
  rintro _ _ _ ⟨rfl, rfl⟩
  exact hFound

theorem number_bind {limit : Nat} {cause : Cause} (hCause : Ordinary cause)
    {f : Nat → Parser σ H β}
    (hf : ∀ run value, Numeral run value → value < limit → Accounts F store calls (f value)
      (fun more => after (run ++ more)) (fun more => broken (run ++ more)))
    (hBroken : ∀ run : List Char, (∀ c ∈ run, c.isDigit = true) → broken run calls) :
    Accounts F store calls (number limit cause >>= f) after broken := by
  intro s hs
  have hDigits : ∀ c ∈ s.cursor.rest.takeWhile Char.isDigit, c.isDigit = true :=
    fun c hc => List.all_eq_true.mp List.all_takeWhile c hc
  have hPasses : Passes s (s.cursor.rest.takeWhile Char.isDigit)
      { s with cursor := (s.cursor.takeRun Char.isDigit).2 } :=
    ⟨List.takeWhile_append_dropWhile.symm, rfl, fun c hc => utf8Size_of_isDigit (hDigits c hc)⟩
  have hTracks : Tracks F store calls { s with cursor := (s.cursor.takeRun Char.isDigit).2 } :=
    ⟨hs.calls_eq, hs.store_eq, hs.opened_eq⟩
  rw [EStateM.run_bind, run_number]
  simp only
  split
  · next hRun =>
    split at hRun
    · cases hRun
    · next hNumber =>
      rw [not_or, Nat.not_le] at hNumber
      cases hRun
      exact (hf _ _ ⟨hNumber.1, hDigits, rfl⟩ hNumber.2 _ hTracks).prepend hPasses
  · next hRun =>
    split at hRun
    · cases hRun
      have hFail : Accounts F store calls (Parse.fail cause s.cursor.pos)
          (fun more => after (s.cursor.rest.takeWhile Char.isDigit ++ more))
          (fun more => broken (s.cursor.rest.takeWhile Char.isDigit ++ more)) :=
        fail hCause _ (by rw [List.append_nil]; exact hBroken _ hDigits)
      exact (hFail _ hTracks).prepend hPasses
    · cases hRun

theorem request {r : Request H} {done : List Char → H → List (Call H) → Prop}
    (hAllowed : r.Allowed (F.classOf (F.replay store calls))) (hName : r.name? = none)
    (hDone : ∀ h calls', Asks F store calls r h calls' → done [] h calls') :
    Accounts F store calls (request F r) done broken := by
  intro s hs
  rw [run_request, hs.store_eq]
  refine .ok (.nil rfl) ⟨?_, ?_, ?_⟩ (hDone _ _ ⟨hAllowed, rfl, rfl⟩)
  · rw [Journal.calls_push, hs.calls_eq]
    rfl
  · rw [Factory.replay_concat]
    rfl
  · rw [declarations_made _ _ hName]
    exact hs.opened_eq

theorem declare_bind {name : String} {f : H → Unit → Parser σ H β}
    (hf : ∀ h calls', Asks F store calls (.declare name) h calls' →
      Accounts F store calls' (f h ()) after broken) :
    Accounts F store calls
      (Parse.request F (.declare name) >>= fun h => register h >>= f h) after broken := by
  intro s hs
  rw [run_request_bind, run_register_bind, hs.store_eq]
  refine (hf _ _ ⟨trivial, rfl, rfl⟩ _ ⟨?_, ?_, ?_⟩).of_cursor_eq rfl
  · rw [Journal.calls_push, hs.calls_eq]
    rfl
  · rw [Factory.replay_concat]
    rfl
  · simp [hs.opened_eq]

theorem complete_bind {handle : H} {fields : List H} {f : Unit → Parser σ H β}
    (hNe : fields ≠ []) (hValue : ∀ h ∈ fields,
      (F.classOf (F.replay store calls) h).isValue = true)
    (hf : ∀ calls', Fills F store calls handle fields calls' →
      Accounts F store calls' (f ()) after broken)
    (hBroken : ∀ calls' refusal, Fills F store calls handle fields calls' →
      Refused F store calls' refusal → broken [] calls') :
    Accounts F store calls (complete F handle fields >>= f) after broken := by
  intro s hs
  have hFills : Fills F store calls handle fields (calls ++ [.body handle fields]) :=
    ⟨hNe, hValue, rfl⟩
  have hTracks : Tracks F store (calls ++ [.body handle fields])
      { s with
        store := (F.setBody handle fields s.store).2
        journal := s.journal.push (.call (.body handle fields)) } := by
    refine ⟨?_, ?_, ?_⟩
    · rw [Journal.calls_push, hs.calls_eq]
      rfl
    · rw [Factory.replay_concat, ← hs.store_eq]
      rfl
    · rw [declarations_body]
      exact hs.opened_eq
  rw [EStateM.run_bind, run_complete]
  simp only
  cases hAnswer : (F.setBody handle fields s.store).1 with
  | ok =>
    have hRest := hf _ hFills _ hTracks
    exact hRest.of_cursor_eq rfl
  | error refusal =>
    have hRefused : Refused F store (calls ++ [.body handle fields]) refusal :=
      ⟨calls, handle, fields, rfl, hs.store_eq ▸ hAnswer⟩
    refine .error (.nil rfl nofun) hTracks ?_ (hBroken _ _ hFills hRefused)
    rintro _ ⟨⟩
    exact hRefused

end Accounts

end CompactType.Parse
