import CompactType.Factory.Recorder
import CompactType.Proofs.Braces
import CompactType.Proofs.Comparison
import CompactType.Proofs.Lockstep

/-!
# Refused bodies

A parse whose factory refuses a body goes in lockstep with the one whose factory accepts all of
them, until the refusal. Then it is over: there are no more calls, and the failure is told behind
the closing brace of the struct.
-/

set_option autoImplicit false

namespace CompactType

namespace Parse

variable {σ τ H : Type}

/-- The text ends with the definition of the struct. What is between its braces opens and closes
braces in pairs, so the last one closes it. -/
def Shuts (calls : List (Call H)) (handle : H) (text : List Char) : Prop :=
  ∃ front run number body, text = front ++ '=' :: (run ++ '{' :: (body ++ ['}'])) ∧
    Numeral run number ∧ Numbered calls number handle ∧
    ∀ opened stack, ∃ opened',
      Braces.scan ⟨opened, false, stack⟩ body = ⟨opened', false, stack⟩

section Shuts

variable {F : Factory σ H} {config : Config} {store : σ}
  {calls calls₁ calls₂ calls' before : List (Call H)} {text : List Char} {handle : H}
  {fields : List H}

theorem Shuts.prepend (h : Shuts calls handle text) (front : List Char) :
    Shuts calls handle (front ++ text) := by
  obtain ⟨front', run, number, body, rfl, hDefinition⟩ := h
  exact ⟨front ++ front', run, number, body, (List.append_assoc _ _ _).symm, hDefinition⟩

theorem Shuts.of_body {h : H} (hShuts : Shuts (calls ++ [.body h fields]) handle text) :
    Shuts calls handle text := by
  obtain ⟨front, run, number, body, hText, hNumeral, hNumbered, hScan⟩ := hShuts
  rw [Numbered, declarations_body] at hNumbered
  exact ⟨front, run, number, body, hText, hNumeral, hNumbered, hScan⟩

theorem getLast?_ne_of_forall (h : ∀ c ∈ text, c ≠ '}') : text.getLast? ≠ some '}' :=
  fun hLast => h _ (List.mem_of_getLast? hLast) rfl

theorem Asks.ne_body {r : Request H} {h : H} (hAsks : Asks F store calls r h calls') :
    calls' ≠ before ++ [.body handle fields] := by
  rw [hAsks.calls_eq]
  intro hEq
  cases (List.append_inj' hEq rfl).2

theorem shuts_definition {run body : List Char} {h : H} {handles : List H}
    (hNumeral : Numeral run (declarations calls).length)
    (hDeclare : Asks F store calls (.declare (config.structName (declarations calls).length)) h
      calls₁)
    (hBody : MakesAll F config store calls₁ body (handles.map .type) calls₂)
    (hFills : Fills F store calls₂ h handles calls')
    (hCalls : calls' = before ++ [.body handle fields]) :
    Shuts calls' handle ('=' :: (run ++ '{' :: (body ++ ['}']))) := by
  obtain rfl : handle = h := by
    cases (List.append_inj' (hFills.calls_eq.symm.trans hCalls) rfl).2
    rfl
  have hNumbered : Numbered calls₁ (declarations calls).length handle := by
    rw [Numbered, hDeclare.declarations_declare]
    exact ⟨_, List.getElem?_concat_length⟩
  refine ⟨[], run, _, body, rfl, hNumeral, ?_, fun opened stack => ⟨_, hBody.balanced.scan_eq _ _⟩⟩
  exact numbered_mono (hBody.keeps.1.isPrefix.trans hFills.isPrefix) hNumbered

theorem Makes.ne_nil {h : H} (hMakes : Makes F config store calls text h calls') : text ≠ [] := by
  cases hMakes <;> exact List.cons_ne_nil _ _

theorem Makes.shuts {h : H} (hMakes : Makes F config store calls text h calls')
    (hLast : text.getLast? = some '}') (hCalls : calls' = before ++ [.body handle fields]) :
    Shuts calls' handle text := by
  cases hMakes with
  | scalar letter hAsks => exact absurd hCalls hAsks.ne_body
  | pointer _ hAsks => exact absurd hCalls hAsks.ne_body
  | array _ _ _ hAsks => exact absurd hCalls hAsks.ne_body
  | vector _ _ _ hAsks => exact absurd hCalls hAsks.ne_body
  | record _ hAsks => exact absurd hCalls hAsks.ne_body
  | define hNumeral hDeclare hBody hFills =>
    exact shuts_definition hNumeral hDeclare hBody hFills hCalls
  | reference hNumeral =>
    refine absurd hLast (getLast?_ne_of_forall (List.forall_mem_cons.mpr ⟨by decide, ?_⟩))
    exact fun c hc => (hNumeral.plain c hc).2.2
  | function _ _ hAsks => exact absurd hCalls hAsks.ne_body

theorem MakesAll.eq_of_nil {elements : List (Element H)}
    (h : MakesAll F config store calls text elements calls') (hText : text = []) :
    calls' = calls := by
  cases h with
  | nil => rfl
  | type hHead => exact absurd (List.append_eq_nil_iff.mp hText).1 hHead.ne_nil
  | vararg => cases hText

theorem MakesAll.shuts {calls calls' : List (Call H)} {text : List Char}
    {elements : List (Element H)} :
    MakesAll F config store calls text elements calls' → text.getLast? = some '}' →
      calls' = before ++ [.body handle fields] → Shuts calls' handle text
  | .nil _, hLast, _ => by cases hLast
  | .type hHead hTail, hLast, hCalls => by
    rw [List.getLast?_append, Option.or_eq_some_iff] at hLast
    obtain hLast | ⟨hNone, hLast⟩ := hLast
    · exact (hTail.shuts hLast hCalls).prepend _
    · obtain rfl := List.getLast?_eq_none_iff.mp hNone
      obtain rfl := hTail.eq_of_nil rfl
      rw [List.append_nil]
      exact hHead.shuts hLast hCalls
  | .vararg hTail, hLast, hCalls => by
    rw [← List.singleton_append, List.getLast?_append, Option.or_eq_some_iff] at hLast
    obtain hLast | ⟨-, hLast⟩ := hLast
    · exact (hTail.shuts hLast hCalls).prepend ['&']
    · cases hLast

theorem Stops.eq_of_nil (h : Stops F config store calls text calls') (hText : text = []) :
    calls' = calls := by
  cases h with
  | trailing => rfl
  | _ => cases hText

theorem MakesAll.shuts_append {front body more : List Char} {elements : List (Element H)}
    (hBody : MakesAll F config store calls body elements calls₁)
    (hMore : Stops F config store calls₁ more calls')
    (hShuts : more.getLast? = some '}' → Shuts calls' handle more)
    (hFront : front.getLast? ≠ some '}') (hCalls : calls' = before ++ [.body handle fields])
    (hLast : (front ++ (body ++ more)).getLast? = some '}') :
    Shuts calls' handle (front ++ (body ++ more)) := by
  rw [List.getLast?_append, Option.or_eq_some_iff, List.getLast?_append,
    Option.or_eq_some_iff] at hLast
  obtain (hLast | ⟨hNone, hLast⟩) | ⟨-, hLast⟩ := hLast
  · exact ((hShuts hLast).prepend body).prepend front
  · obtain rfl := List.getLast?_eq_none_iff.mp hNone
    obtain rfl := hMore.eq_of_nil rfl
    rw [List.append_nil]
    exact (hBody.shuts hLast hCalls).prepend front
  · exact absurd hLast hFront

theorem Stops.shuts (h : Stops F config store calls text calls')
    (hLast : text.getLast? = some '}') (hCalls : calls' = before ++ [.body handle fields]) :
    Shuts calls' handle text := by
  induction h with
  | trailing hTrailing =>
    refine absurd hLast (getLast?_ne_of_forall fun c hc => ?_)
    exact (Braces.plain_of_trailing (hTrailing c hc)).2.2
  | @inside _ _ _ opening body more _ hOpening hBody hMore ih =>
    have hFront : [opening].getLast? ≠ some '}' := by
      refine getLast?_ne_of_forall (List.forall_mem_singleton.mpr ?_)
      rintro rfl
      revert hOpening
      decide
    exact hBody.shuts_append hMore (fun hLast => ih hLast hCalls) hFront hCalls hLast
  | @number _ marker run hMarker hRun =>
    refine absurd hLast (getLast?_ne_of_forall (List.forall_mem_cons.mpr ⟨?_, fun c hc => ?_⟩))
    · rintro rfl
      revert hMarker
      decide
    · exact (Braces.plain_of_trailing (.inl (hRun c hc))).2.2
  | @definition _ _ _ _ run body more _ _ _ _ hBody hMore ih =>
    have hFront : ('=' :: (run ++ ['{'])).getLast? ≠ some '}' := by
      rw [← List.cons_append, List.getLast?_concat]
      decide
    have hText : '=' :: (run ++ '{' :: (body ++ more)) =
        ('=' :: (run ++ ['{'])) ++ (body ++ more) := by
      simp
    rw [hText] at hLast ⊢
    exact hBody.shuts_append hMore (fun hLast => ih hLast hCalls) hFront hCalls hLast
  | refused hNumeral hDeclare hBody hFills =>
    exact shuts_definition hNumeral hDeclare hBody hFills hCalls

theorem StopsWithin.shuts (h : StopsWithin F config store [] text calls)
    (hLast : text.getLast? = some '}') (hCalls : calls = before ++ [.body handle fields]) :
    Shuts calls handle text := by
  obtain ⟨body, more, elements, calls₁, rfl, hBody, hMore⟩ := h
  have hFront : ([] : List Char).getLast? ≠ some '}' :=
    getLast?_ne_of_forall (List.forall_mem_nil _)
  exact hBody.shuts_append hMore (fun hLast => hMore.shuts hLast hCalls) hFront hCalls hLast

end Shuts

/-- The second factory answers as the first one does, which accepts every body, until it refuses
the body that comes after `n` others. -/
structure Refuses (n : Nat) (refusal : Refusal) (F : Factory σ H) (store : σ) (G : Factory τ H)
    (store' : τ) : Prop where
  make_eq : ∀ calls r, (completions calls).length ≤ n →
    (G.make r (G.replay store' calls)).1 = (F.make r (F.replay store calls)).1
  classOf_eq : ∀ calls handle, (completions calls).length ≤ n →
    G.classOf (G.replay store' calls) handle = F.classOf (F.replay store calls) handle
  accepts : ∀ calls handle fields,
    (F.setBody handle fields (F.replay store calls)).1 = .ok ()
  setBody_eq : ∀ calls handle fields, (completions calls).length ≤ n →
    (G.setBody handle fields (G.replay store' calls)).1 =
      if (completions calls).length = n then .error refusal else .ok ()

/-- How much of the text is read, and whether a closing brace was read last. -/
def ReadUpTo (text : List Char) (place : Place) (c : Cursor Char) : Prop :=
  ∃ read, text = read ++ c.rest ∧ read.length = c.pos ∧
    (place = .closed → read.getLast? = some '}')

section ReadUpTo

variable {text : List Char} {place : Place} {c : Cursor Char}

theorem ReadUpTo.next (h : ReadUpTo text place c) {a : Char} {rest : List Char}
    (hRest : c.rest = a :: rest) : ReadUpTo text (.behind a) ⟨c.pos + 1, rest⟩ := by
  obtain ⟨read, hText, hPos, -⟩ := h
  refine ⟨read ++ [a], ?_, ?_, fun hClosed => ?_⟩
  · rw [hText, hRest, List.append_assoc]
    rfl
  · rw [List.length_append, hPos]
    rfl
  · rw [List.getLast?_concat]
    unfold Place.behind at hClosed
    split at hClosed
    · cases hClosed
    · split at hClosed
      · next ha => rw [ha]
      · cases hClosed

theorem ReadUpTo.within (h : ReadUpTo text place c) : ReadUpTo text .within c := by
  obtain ⟨read, hText, hPos, -⟩ := h
  refine ⟨read, hText, hPos, ?_⟩
  rintro ⟨⟩

theorem ReadUpTo.takeRun (h : ReadUpTo text place c) (accepts : Char → Bool) :
    ReadUpTo text .within (c.takeRun accepts).2 := by
  obtain ⟨read, hText, hPos, -⟩ := h
  refine ⟨read ++ c.rest.takeWhile accepts, ?_, ?_, ?_⟩
  · rw [List.append_assoc, Cursor.takeRun, List.takeWhile_append_dropWhile, hText]
  · rw [List.length_append, hPos]
    rfl
  · rintro ⟨⟩

theorem ReadUpTo.getLast?_eq (h : ReadUpTo text .closed c) :
    (text.take c.pos).getLast? = some '}' := by
  obtain ⟨read, rfl, hPos, hClosed⟩ := h
  rw [List.take_left' hPos]
  exact hClosed rfl

end ReadUpTo

section Stopping

variable (n : Nat) (refusal : Refusal) (F : Factory σ H) (store : σ) (G : Factory τ H)
  (store' : τ) (text : List Char)

/-- States of the two parses when no body was refused so far. -/
structure Unrefused (place : Place) (s : State σ H) (t : State τ H) : Prop where
  cursor_eq : t.cursor = s.cursor
  opened_eq : t.opened = s.opened
  journal_eq : t.journal = s.journal
  left_store : s.store = F.replay store (Journal.calls s.journal)
  right_store : t.store = G.replay store' (Journal.calls s.journal)
  length_le : (completions (Journal.calls s.journal)).length ≤ n
  reads : ReadUpTo text place s.cursor

/-- The second parse stopped at a body, which the first one went on from. -/
structure StoppedAt (s : State σ H) (fault : Fault) (t : State τ H) : Prop where
  isPrefix : Journal.calls t.journal <+: Journal.calls s.journal
  fault_eq : fault = ⟨.factory refusal, t.cursor.pos⟩
  getLast?_eq : (text.take t.cursor.pos).getLast? = some '}'
  exists_body : ∃ before handle fields,
    Journal.calls t.journal = before ++ [.body handle fields] ∧ (completions before).length = n

end Stopping

section Steps

variable {n : Nat} {refusal : Refusal} {F : Factory σ H} {store : σ} {G : Factory τ H}
  {store' : τ} {text : List Char} {place : Place} {s : State σ H} {t : State τ H}

theorem Unrefused.note (h : Unrefused n F store G store' text place s t) {e : Event H}
    (he : e.call? = none) : Unrefused n F store G store' text place
      { s with journal := s.journal.push e } { t with journal := t.journal.push e } := by
  have hCalls : Journal.calls (s.journal.push e) = Journal.calls s.journal := by
    rw [Journal.calls_push, he]
    exact List.append_nil _
  exact ⟨h.cursor_eq, h.opened_eq, congrArg (·.push e) h.journal_eq, hCalls ▸ h.left_store,
    hCalls ▸ h.right_store, hCalls ▸ h.length_le, h.reads⟩

theorem Unrefused.next (h : Unrefused n F store G store' text place s t) {c : Char}
    {rest rest' : List Char} (hRest : s.cursor.rest = c :: rest)
    (hRest' : t.cursor.rest = c :: rest') :
    Unrefused n F store G store' text (.behind c) { s with cursor := ⟨s.cursor.pos + 1, rest⟩ }
      { t with cursor := ⟨t.cursor.pos + 1, rest'⟩ } := by
  have hSame := congrArg Cursor.rest h.cursor_eq
  rw [hRest, hRest'] at hSame
  obtain ⟨-, rfl⟩ := List.cons.inj hSame
  exact { h with
    cursor_eq := by rw [h.cursor_eq]
    reads := h.reads.next hRest }

theorem Unrefused.afterRead (h : Unrefused n F store G store' text place s t)
    {symbol symbol' : Symbol} {rest rest' : List Char} (hRest : s.cursor.rest = symbol.char :: rest)
    (hRest' : t.cursor.rest = symbol'.char :: rest') :
    Unrefused n F store G store' text (.behind symbol.char) (s.afterRead symbol rest)
      (t.afterRead symbol' rest') := by
  have hSame := congrArg Cursor.rest h.cursor_eq
  rw [hRest, hRest'] at hSame
  obtain rfl := Symbol.char_injective (List.cons.inj hSame).1
  have hNote : Event.call? (.symbol symbol' s.cursor.pos : Event H) = none := rfl
  have hNext := (h.note hNote).next hRest hRest'
  rw [State.afterRead, State.afterRead, h.cursor_eq]
  rwa [h.cursor_eq] at hNext

variable (hRefuses : Refuses n refusal F store G store')

include hRefuses

theorem Unrefused.make (h : Unrefused n F store G store' text place s t) (r : Request H) :
    (G.make r t.store).1 = (F.make r s.store).1 ∧
    Unrefused n F store G store' text place
      { s with
        store := (F.make r s.store).2
        journal := s.journal.push (.call (.made r (F.make r s.store).1)) }
      { t with
        store := (G.make r t.store).2
        journal := t.journal.push (.call (.made r (F.make r s.store).1)) } := by
  have hCalls (handle : H) : Journal.calls (s.journal.push (.call (.made r handle))) =
      Journal.calls s.journal ++ [.made r handle] := Journal.calls_push _ _
  refine ⟨?_, h.cursor_eq, h.opened_eq, by simp only [h.journal_eq], ?_, ?_, ?_, h.reads⟩
  · rw [h.left_store, h.right_store]
    exact hRefuses.make_eq _ r h.length_le
  · rw [hCalls, Factory.replay_concat, ← h.left_store]
    rfl
  · rw [hCalls, Factory.replay_concat, ← h.right_store]
    rfl
  · rw [hCalls, completions_made]
    exact h.length_le

theorem Unrefused.setBody (h : Unrefused n F store G store' text .closed s t) (handle : H)
    (fields : List H) {s' : State σ H} {t' : State τ H}
    (hs : s' = { s with
      store := (F.setBody handle fields s.store).2
      journal := s.journal.push (.call (.body handle fields)) })
    (ht : t' = { t with
      store := (G.setBody handle fields t.store).2
      journal := t.journal.push (.call (.body handle fields)) }) :
    (G.setBody handle fields t.store).1 = (F.setBody handle fields s.store).1 ∧
        Unrefused n F store G store' text .within s' t' ∨
      ∃ cause, (G.setBody handle fields t.store).1 = .error cause ∧
        StoppedAt n refusal text s' ⟨.factory cause, t'.cursor.pos⟩ t' := by
  have hCalls : Journal.calls s'.journal = Journal.calls s.journal ++ [.body handle fields] := by
    rw [hs]
    exact Journal.calls_push _ _
  have hJournal : t'.journal = s'.journal := by
    simp only [hs, ht, h.journal_eq]
  have hAnswer := hRefuses.setBody_eq _ handle fields h.length_le
  rw [← h.right_store] at hAnswer
  by_cases hLast : (completions (Journal.calls s.journal)).length = n
  · rw [if_pos hLast] at hAnswer
    refine .inr ⟨refusal, hAnswer, ?_, rfl, ?_, _, handle, fields, hJournal ▸ hCalls, hLast⟩
    · exact hJournal ▸ List.prefix_rfl
    · rw [ht]
      exact h.cursor_eq ▸ h.reads.getLast?_eq
  · rw [if_neg hLast] at hAnswer
    have hAccepted := hRefuses.accepts (Journal.calls s.journal) handle fields
    rw [← h.left_store] at hAccepted
    refine .inl ⟨hAnswer.trans hAccepted.symm, ?_, ?_, hJournal, ?_, ?_, ?_, ?_⟩
    · rw [hs, ht]
      exact h.cursor_eq
    · rw [hs, ht]
      exact h.opened_eq
    · rw [hCalls, Factory.replay_concat, ← h.left_store, hs]
      rfl
    · rw [hCalls, Factory.replay_concat, ← h.right_store, ht]
      rfl
    · rw [hCalls, completions_body, List.length_append]
      exact Nat.lt_of_le_of_ne h.length_le hLast
    · rw [hs]
      exact h.reads.within

def stopping (text : List Char) : Lockstep F G where
  move := id
  Level := Unrefused n F store G store' text
  Stopped := StoppedAt n refusal text
  stopped_mono h hCalls := { h with isPrefix := h.isPrefix.trans hCalls }
  pos_eq h := congrArg Cursor.pos h.cursor_eq
  opened_eq h := h.opened_eq
  forget h := { h with reads := h.reads.within }
  heads {s t} h := by
    rw [h.cursor_eq]
    cases s.cursor.peek? with
    | none => exact .none
    | some c => exact .some (.refl c)
  eat h _ hRest hRest' := h.next hRest hRest'
  read h hRest hRest' := h.afterRead hRest hRest'
  digits h := by
    rw [h.cursor_eq]
    exact ⟨.rfl, rfl, { h with cursor_eq := rfl, reads := h.reads.takeRun _ }⟩
  assigned number name h := h.note rfl
  register handle h := { h with opened_eq := congrArg (·.push handle) h.opened_eq }
  classOf handle h := by
    rw [h.left_store, h.right_store]
    exact hRefuses.classOf_eq _ handle h.length_le
  make r h := h.make hRefuses r
  setBody handle fields h hs ht := h.setBody hRefuses handle fields hs ht

end Steps

theorem unrefused_start (n : Nat) (F : Factory σ H) (store : σ) (G : Factory τ H) (store' : τ)
    (spec : String) :
    Unrefused n F store G store' spec.toList .within (start spec store) (start spec store') := by
  refine ⟨rfl, rfl, rfl, rfl, rfl, Nat.zero_le n, [], rfl, rfl, ?_⟩
  rintro ⟨⟩

theorem shuts_of_stopped {F : Factory σ H} {config : Config} {store : σ} {spec : String}
    {refusal : Refusal} {s : State σ H} {before : List (Call H)} {handle : H} {fields : List H}
    (hRun : (whole F config).run (start spec store) =
      .error ⟨.factory refusal, s.cursor.pos⟩ s)
    (hLast : (spec.toList.take s.cursor.pos).getLast? = some '}')
    (hCalls : Journal.calls s.journal = before ++ [.body handle fields]) :
    ∃ text rest, spec = text ++ rest ∧ text.utf8ByteSize = s.cursor.pos ∧
      Shuts before handle text.toList := by
  obtain ⟨calls, hTracks, hHalts, -, hStops⟩ := exists_stops hRun
  have hOne : ∀ c ∈ spec.toList.take s.cursor.pos, c.utf8Size = 1 := hHalts.utf8Size_eq
  have hPos : (spec.toList.take s.cursor.pos).length = s.cursor.pos :=
    (hHalts.boundary_eq.trans (Nat.zero_add _)).symm
  refine ⟨String.ofList (spec.toList.take s.cursor.pos),
    String.ofList (spec.toList.drop s.cursor.pos), ?_, ?_, ?_⟩
  · rw [← String.ofList_append, List.take_append_drop, String.ofList_toList]
  · rw [String.utf8ByteSize_ofList, utf8Len_eq_length hOne, hPos]
  · rw [String.toList_ofList]
    have hShuts := hStops.shuts hLast (hTracks.calls_eq.symm.trans hCalls)
    rw [← hTracks.calls_eq, hCalls] at hShuts
    exact hShuts.of_body

/-- A refused body ends the parse at once: the calls up to it are those made when it is accepted, no
call follows, and the refusal is told behind the closing brace of the struct. A parse that does not
get so far is not changed at all. -/
theorem Refuses.runs_until_refused {n : Nat} {refusal : Refusal} {F : Factory σ H} {store : σ}
    {G : Factory τ H} {store' : τ} (h : Refuses n refusal F store G store') (config : Config)
    (spec : String) :
    ((completions (Journal.calls (run F config spec store).journal)).length ≤ n →
      (run G config spec store').outcome = (run F config spec store).outcome ∧
        (run G config spec store').journal = (run F config spec store).journal) ∧
    (n < (completions (Journal.calls (run F config spec store).journal)).length →
      ∃ before handle fields after text rest,
        Journal.calls (run F config spec store).journal = before ++ .body handle fields :: after ∧
        (completions before).length = n ∧
        Journal.calls (run G config spec store').journal = before ++ [.body handle fields] ∧
        spec = text ++ rest ∧ Shuts before handle text.toList ∧
        (run G config spec store').outcome =
          .error ⟨⟨.factory refusal, text.utf8ByteSize⟩, spec⟩) := by
  have hEnds := ends_whole (stopping h spec.toList) config
    (unrefused_start n F store G store' spec)
  rw [calls_whole, calls_whole]
  unfold run
  generalize (whole F config).run (start spec store) = left at hEnds ⊢
  generalize hRight : (whole G config).run (start spec store') = right at hEnds ⊢
  cases hEnds with
  | ok _ hLevel hAnswers =>
    obtain ⟨rfl, rfl⟩ := hAnswers
    refine ⟨fun _ => ⟨rfl, ?_⟩, fun hMore => absurd hLevel.length_le (Nat.not_le.mpr hMore)⟩
    simp only [hLevel.journal_eq, hLevel.opened_eq]
  | error hLevel =>
    refine ⟨fun _ => ⟨rfl, ?_⟩, fun hMore => absurd hLevel.length_le (Nat.not_le.mpr hMore)⟩
    simp only [hLevel.journal_eq]
    rfl
  | stopped hStopped =>
    obtain ⟨⟨after, hAfter⟩, rfl, hLast, before, handle, fields, hCalls, hLength⟩ := hStopped
    rw [hCalls, List.append_assoc] at hAfter
    rw [← hAfter]
    refine ⟨fun hFew => ?_, fun _ => ?_⟩
    · rw [completions_append, List.length_append, hLength] at hFew
      exact absurd hFew (Nat.not_le.mpr (Nat.lt_add_of_pos_right (Nat.succ_pos _)))
    · obtain ⟨text, rest, hText, hSize, hShuts⟩ := shuts_of_stopped hRight hLast hCalls
      exact ⟨before, handle, fields, after, text, rest, rfl, hLength, hCalls, hText, hShuts,
        by rw [hSize]⟩

end Parse

namespace Recorder

open Parse

variable (plan plan' : Plan) (r : Recorder) (calls : List (Call Nat))

theorem setBody_snd : (r.setBody plan).2 = { r with bodies := r.bodies + 1 } := by
  unfold setBody
  simp only
  split <;> rfl

theorem replay_eq : (factory plan).replay r calls = (factory plan').replay r calls := by
  have hApply : Call.apply (factory plan) = Call.apply (factory plan') := by
    funext r call
    cases call with
    | made => rfl
    | body => exact (setBody_snd plan r).trans (setBody_snd plan' r).symm
  rw [Factory.replay, Factory.replay, hApply]

theorem bodies_replay :
    ((factory plan).replay r calls).bodies = r.bodies + (completions calls).length := by
  induction calls generalizing r with
  | nil => rfl
  | cons call calls ih =>
    change ((factory plan).replay (call.apply (factory plan) r) calls).bodies = _
    rw [ih]
    cases call with
    | made request handle => rfl
    | body handle fields =>
      have hBodies : ((r.setBody plan).2).bodies = r.bodies + 1 := by rw [setBody_snd]
      change (r.setBody plan).2.bodies + _ = r.bodies + (_ + 1)
      rw [hBodies, Nat.add_right_comm, Nat.add_assoc]
      rfl

theorem refuses (n : Nat) (refusal : Refusal) :
    Refuses n refusal (factory { plan with refuses := none }) r
      (factory { plan with refuses := some (r.bodies + n, refusal) }) r where
  make_eq calls request _ := by
    rw [replay_eq]
    rfl
  classOf_eq calls handle _ := by
    rw [replay_eq]
    rfl
  accepts _ _ _ := rfl
  setBody_eq calls handle fields _ := by
    change (setBody _ _).1 = _
    simp only [setBody, bodies_replay, Nat.add_left_cancel_iff, eq_comm]

/-- Two structs inside another one. -/
def nested : String := "=0\x7b=1\x7bi\x7d=2\x7b%1\x7d\x7d"

/-- The second body is refused, so the struct around gets none. A fourth one is never refused, since
there are only three. -/
theorem runs_until_refused_nested :
    Refuses 1 .endless (factory {}) empty (factory { refuses := some (1, .endless) }) empty ∧
    completions (Journal.calls (run (factory {}) {} nested empty).journal) = [1, 3, 0] ∧
    (run (factory { refuses := some (3, .endless) }) {} nested empty).outcome = .ok 0 ∧
    (run (factory { refuses := some (1, .endless) }) {} nested empty).outcome =
      .error ⟨⟨.factory .endless, 14⟩, nested⟩ ∧
    ∃ before handle fields after, ∃ text rest : String,
      Journal.calls (run (factory {}) {} nested empty).journal =
        before ++ .body handle fields :: after ∧
      (completions before).length = 1 ∧
      Journal.calls (run (factory { refuses := some (1, .endless) }) {} nested empty).journal =
        before ++ [.body handle fields] ∧
      nested = text ++ rest ∧ text.utf8ByteSize = 14 ∧ Shuts before handle text.toList := by
  have hRefuses : Refuses 1 .endless (factory {}) empty
      (factory { refuses := some (1, .endless) }) empty := refuses {} empty 1 .endless
  have hCompletions :
      completions (Journal.calls (run (factory {}) {} nested empty).journal) = [1, 3, 0] := by
    decide +kernel
  have hAccepts : (run (factory {}) {} nested empty).outcome = .ok 0 := by decide +kernel
  have hMore : 1 < (completions (Journal.calls
      (run (factory {}) {} nested empty).journal)).length := by
    rw [hCompletions]
    decide
  have hAll : (completions (Journal.calls
      (run (factory {}) {} nested empty).journal)).length ≤ 3 := by
    rw [hCompletions]
    decide
  have hOutcome : (run (factory { refuses := some (1, .endless) }) {} nested empty).outcome =
      .error ⟨⟨.factory .endless, 14⟩, nested⟩ := by
    decide +kernel
  have hSame : (run (factory { refuses := some (3, .endless) }) {} nested empty).outcome =
      (run (factory {}) {} nested empty).outcome :=
    (((refuses {} empty 3 .endless).runs_until_refused {} nested).1 hAll).1
  obtain ⟨before, handle, fields, after, text, rest, hAccepted, hLength, hRefused, hText, hShuts,
    hFails⟩ := (hRefuses.runs_until_refused {} nested).2 hMore
  have hSize : (14 : Nat) = text.utf8ByteSize :=
    congrArg (fun d : Diagnostic => d.pos) (Except.error.inj (hOutcome.symm.trans hFails))
  exact ⟨hRefuses, hCompletions, hSame.trans hAccepts, hOutcome, before, handle, fields, after, text,
    rest, hAccepted, hLength, hRefused, hText, hSize.symm, hShuts⟩

end Recorder

end CompactType
