import CompactType.Proofs.AccountedForms
import CompactType.Proofs.Coupling

/-!
# The discipline of calls

What a factory can rely on, whatever it answers. A parse asks for types whose parts it got before
and whose classes fit. It gives declared structs their bodies in the reverse order of declaration;
if it fails, some structs are left waiting.
-/

set_option autoImplicit false

namespace CompactType.Parse

variable {σ H : Type}

/-- Declarations and bodies are nested like brackets. The list has the structs that wait for a
body, the innermost first. -/
inductive Nested : List (Call H) → List H → Prop where
  | nil : Nested [] []
  | request {calls : List (Call H)} {waiting : List H} {r : Request H} {h : H} :
    Nested calls waiting → r.name? = none → Nested (calls ++ [.made r h]) waiting
  | declare {calls : List (Call H)} {waiting : List H} {name : String} {h : H} :
    Nested calls waiting → Nested (calls ++ [.made (.declare name) h]) (h :: waiting)
  | body {calls : List (Call H)} {waiting fields : List H} {h : H} :
    Nested calls (h :: waiting) → Nested (calls ++ [.body h fields]) waiting

theorem Nested.perm {calls : List (Call H)} {waiting : List H} (h : Nested calls waiting) :
    (completions calls ++ waiting).Perm ((declarations calls).map Prod.snd) := by
  induction h with
  | nil => exact .refl _
  | request _ hName ih => rwa [completions_made, declarations_made _ _ hName]
  | @declare calls waiting name h _ ih =>
    rw [completions_made, declarations_declare, List.map_append]
    exact List.perm_middle.trans ((ih.cons h).trans (List.perm_append_singleton h _).symm)
  | body _ ih => rwa [completions_body, declarations_body, List.append_assoc]

theorem Nested.mem_answers {calls : List (Call H)} {waiting : List H} (h : Nested calls waiting)
    {handle : H} (hMem : handle ∈ waiting) : handle ∈ answers calls := by
  have hDeclared := h.perm.mem_iff.mp (List.mem_append_right (completions calls) hMem)
  obtain ⟨⟨name, _⟩, hPair, rfl⟩ := List.mem_map.mp hDeclared
  exact mem_answers_of_mem_declarations hPair

section Discipline

variable (F : Factory σ H) (config : Config) (store : σ)

/-- The calls that a parse may have made when some structs wait for a body. -/
inductive Conforms : List (Call H) → List H → Prop where
  | nil : Conforms [] []
  | request {calls calls' : List (Call H)} {waiting : List H} {r : Request H} {h : H} :
    Conforms calls waiting → r.name? = none → (∀ part ∈ r.parts, part ∈ answers calls) →
    Asks F store calls r h calls' → Conforms calls' waiting
  | declare {calls calls' : List (Call H)} {waiting : List H} {h : H} :
    Conforms calls waiting →
    Asks F store calls (.declare (config.structName (declarations calls).length)) h calls' →
    Conforms calls' (h :: waiting)
  | body {calls calls' : List (Call H)} {waiting fields : List H} {h : H} :
    Conforms calls (h :: waiting) → (∀ f ∈ fields, f ∈ answers calls) →
    Fills F store calls h fields calls' → Conforms calls' waiting

/-- A call that is in order after the calls before it. -/
structure Proper (before : List (Call H)) (call : Call H) : Prop where
  known : ∀ h ∈ call.arguments, h ∈ answers before
  answered : ∀ r h, call = .made r h → (F.make r (F.replay store before)).1 = h
  named : ∀ name h, call.declared? = some (name, h) →
    name = config.structName (declarations before).length
  allowed : call.Allowed (F.classOf (F.replay store before))

structure Disciplined (calls : List (Call H)) (waiting : List H) : Prop where
  proper : ∀ before call after, calls = before ++ call :: after → Proper F config store before call
  nested : Nested calls waiting
  /-- Every declared struct got one body or is waiting for it. -/
  once : (completions calls ++ waiting).Perm ((declarations calls).map Prod.snd)

end Discipline

variable {F : Factory σ H} {config : Config} {store : σ}

theorem forall_concat {P : List (Call H) → Call H → Prop} {calls : List (Call H)} {last : Call H}
    (h : ∀ before call after, calls = before ++ call :: after → P before call)
    (hLast : P calls last) :
    ∀ before call after, calls ++ [last] = before ++ call :: after → P before call := by
  intro before call after hEq
  obtain rfl | ⟨after, last', rfl⟩ := List.eq_nil_or_concat after
  · obtain ⟨rfl, hCall⟩ := List.append_inj' hEq rfl
    cases hCall
    exact hLast
  · have hConcat : calls ++ [last] = (before ++ call :: after) ++ [last'] := by simpa using hEq
    exact h before call after (List.append_inj' hConcat rfl).1

theorem Conforms.nested {calls : List (Call H)} {waiting : List H}
    (h : Conforms F config store calls waiting) : Nested calls waiting := by
  induction h with
  | nil => exact .nil
  | request _ hName _ hAsks ih => exact hAsks.calls_eq ▸ ih.request hName
  | declare _ hAsks ih => exact hAsks.calls_eq ▸ ih.declare
  | body _ _ hFills ih => exact hFills.calls_eq ▸ ih.body

theorem Conforms.proper {calls : List (Call H)} {waiting : List H}
    (h : Conforms F config store calls waiting) : ∀ before call after,
      calls = before ++ call :: after → Proper F config store before call := by
  induction h with
  | nil =>
    intro before call after hEq
    simp at hEq
  | @request calls _ _ r h _ hName hParts hAsks ih =>
    rw [hAsks.calls_eq]
    refine forall_concat ih ⟨hParts, ?_, ?_, hAsks.allowed⟩
    · rintro _ _ ⟨⟩
      exact hAsks.answer_eq
    · intro name h hDeclared
      obtain ⟨_, hSome, -⟩ := Option.map_eq_some_iff.mp hDeclared
      cases hName.symm.trans hSome
  | declare _ hAsks ih =>
    rw [hAsks.calls_eq]
    refine forall_concat ih ⟨nofun, ?_, ?_, trivial⟩
    · rintro _ _ ⟨⟩
      exact hAsks.answer_eq
    · rintro _ _ ⟨⟩
      rfl
  | body hConforms hParts hFills ih =>
    rw [hFills.calls_eq]
    refine forall_concat ih ⟨?_, nofun, nofun, hFills.ne_nil, hFills.isValue⟩
    rintro h (_ | ⟨_, hMem⟩)
    · exact hConforms.nested.mem_answers List.mem_cons_self
    · exact hParts h hMem

theorem Conforms.disciplined {calls : List (Call H)} {waiting : List H}
    (h : Conforms F config store calls waiting) : Disciplined F config store calls waiting :=
  ⟨h.proper, h.nested, h.nested.perm⟩

section Keeps

theorem Asks.isPrefix {calls calls' : List (Call H)} {r : Request H} {h : H}
    (hAsks : Asks F store calls r h calls') : calls <+: calls' :=
  ⟨_, hAsks.calls_eq.symm⟩

theorem Asks.mem_answers {calls calls' : List (Call H)} {r : Request H} {h : H}
    (hAsks : Asks F store calls r h calls') : h ∈ answers calls' := by
  rw [hAsks.calls_eq, answers_made]
  exact List.mem_concat_self

theorem Fills.isPrefix {calls calls' : List (Call H)} {fields : List H} {h : H}
    (hFills : Fills F store calls h fields calls') : calls <+: calls' :=
  ⟨_, hFills.calls_eq.symm⟩

/-- What reading something leaves behind: calls were added, and they conform as those before. -/
structure Keeps (F : Factory σ H) (config : Config) (store : σ) (calls calls' : List (Call H)) :
    Prop where
  isPrefix : calls <+: calls'
  conforms : ∀ waiting, Conforms F config store calls waiting →
    Conforms F config store calls' waiting

variable {calls calls₁ calls₂ calls' : List (Call H)}

theorem Keeps.refl : Keeps F config store calls calls := ⟨List.prefix_rfl, fun _ h => h⟩

theorem Keeps.trans (h : Keeps F config store calls calls₁)
    (h' : Keeps F config store calls₁ calls') : Keeps F config store calls calls' :=
  ⟨h.isPrefix.trans h'.isPrefix, fun waiting hConforms =>
    h'.conforms waiting (h.conforms waiting hConforms)⟩

theorem Asks.keeps {r : Request H} {h : H} (hAsks : Asks F store calls r h calls')
    (hName : r.name? = none) (hParts : ∀ part ∈ r.parts, part ∈ answers calls) :
    Keeps F config store calls calls' :=
  ⟨hAsks.isPrefix, fun _ hConforms => hConforms.request hName hParts hAsks⟩

theorem Keeps.define {fields : List H} {h : H}
    (hDeclare : Asks F store calls
      (.declare (config.structName (declarations calls).length)) h calls₁)
    (hBody : Keeps F config store calls₁ calls₂) (hFields : ∀ f ∈ fields, f ∈ answers calls₂)
    (hFills : Fills F store calls₂ h fields calls') : Keeps F config store calls calls' where
  isPrefix := hDeclare.isPrefix.trans (hBody.isPrefix.trans hFills.isPrefix)
  conforms waiting hConforms :=
    (hBody.conforms (h :: waiting) (hConforms.declare hDeclare)).body hFields hFills

theorem Amount.mem {classOf : H → TypeClass} {before : List (Element H)} {params : List H}
    {variadic : Bool} (h : Amount classOf before params variadic) {p : H} (hp : p ∈ params) :
    .type p ∈ before := by
  cases h with
  | params => exact List.mem_map_of_mem hp
  | variadic => exact List.mem_append_left _ (List.mem_map_of_mem hp)
  | void | voidVariadic => cases hp

mutual

theorem Makes.keeps {calls calls' : List (Call H)} {text : List Char} {h : H} :
    Makes F config store calls text h calls' →
      Keeps F config store calls calls' ∧ h ∈ answers calls'
  | .scalar letter hAsks => ⟨hAsks.keeps rfl nofun, hAsks.mem_answers⟩
  | .pointer hElem hAsks | .array hElem _ _ hAsks | .vector hElem _ _ hAsks => by
    obtain ⟨hKeeps, hMem⟩ := hElem.keeps
    exact ⟨hKeeps.trans (hAsks.keeps rfl (by simpa [Request.parts] using hMem)), hAsks.mem_answers⟩
  | .record hBody hAsks => by
    obtain ⟨hKeeps, hMem⟩ := hBody.keeps
    refine ⟨hKeeps.trans (hAsks.keeps rfl fun f hf => ?_), hAsks.mem_answers⟩
    exact hMem f (List.mem_map_of_mem hf)
  | .define hNumeral hDeclare hBody hFills => by
    obtain ⟨hKeeps, hMem⟩ := hBody.keeps
    refine ⟨.define hDeclare hKeeps (fun f hf => hMem f (List.mem_map_of_mem hf)) hFills, ?_⟩
    exact answers_mono (hKeeps.isPrefix.trans hFills.isPrefix) hDeclare.mem_answers
  | .reference hNumeral hOpened =>
    ⟨.refl, mem_answers_of_mem_declarations (List.mem_of_getElem? hOpened)⟩
  | .function hBody hAmount hAsks => by
    obtain ⟨hKeeps, hMem⟩ := hBody.keeps
    refine ⟨hKeeps.trans (hAsks.keeps rfl fun p hp => ?_), hAsks.mem_answers⟩
    obtain hp | hp := List.mem_append.mp hp
    · exact hMem p (List.mem_append_left _ (hAmount.mem hp))
    · exact hMem p (by simp [List.mem_singleton.mp hp])

theorem MakesAll.keeps {calls calls' : List (Call H)} {text : List Char}
    {elements : List (Element H)} :
    MakesAll F config store calls text elements calls' →
      Keeps F config store calls calls' ∧ ∀ h, .type h ∈ elements → h ∈ answers calls'
  | .nil _ => ⟨.refl, nofun⟩
  | .type hHead hTail => by
    obtain ⟨hKeeps, hMem⟩ := hHead.keeps
    obtain ⟨hKeeps', hMem'⟩ := hTail.keeps
    refine ⟨hKeeps.trans hKeeps', ?_⟩
    rintro h (_ | ⟨_, hh⟩)
    · exact answers_mono hKeeps'.isPrefix hMem
    · exact hMem' h hh
  | .vararg hTail => by
    obtain ⟨hKeeps, hMem⟩ := hTail.keeps
    refine ⟨hKeeps, ?_⟩
    rintro h (_ | ⟨_, hh⟩)
    exact hMem h hh

end

theorem Stops.conforms {text : List Char} {waiting : List H}
    (h : Stops F config store calls text calls')
    (hConforms : Conforms F config store calls waiting) :
    ∃ more, Conforms F config store calls' (more ++ waiting) := by
  induction h generalizing waiting with
  | trailing => exact ⟨[], hConforms⟩
  | inside _ hBody _ ih => exact ih (hBody.keeps.1.conforms _ hConforms)
  | number => exact ⟨[], hConforms⟩
  | @definition _ _ _ _ _ _ _ _ h _ hDeclare hBody _ ih =>
    obtain ⟨more, hMore⟩ := ih (hBody.keeps.1.conforms _ (hConforms.declare hDeclare))
    exact ⟨more ++ [h], by rwa [List.append_assoc]⟩
  | refused _ hDeclare hBody hFills =>
    obtain ⟨hKeeps, hMem⟩ := hBody.keeps
    have hFields :=
      Keeps.define hDeclare hKeeps (fun f hf => hMem f (List.mem_map_of_mem hf)) hFills
    exact ⟨[], hFields.conforms _ hConforms⟩

end Keeps

/-- The second factory also keeps the calls. It answers as the first one does, except that the
classes of handles which it never returned can be anything. -/
structure Remembers (F : Factory σ H) (G : Factory (σ × List (Call H)) H) : Prop where
  make_eq : ∀ r s calls, G.make r (s, calls) =
    ((F.make r s).1, (F.make r s).2, calls ++ [.made r (F.make r s).1])
  setBody_eq : ∀ h fields s calls, G.setBody h fields (s, calls) =
    ((F.setBody h fields s).1, (F.setBody h fields s).2, calls ++ [.body h fields])
  classOf_eq : ∀ s calls, ∀ h ∈ answers calls, G.classOf (s, calls) h = F.classOf s h

/-- A handle that was returned stands for itself. -/
def Recalled (calls : List (Call H)) (a b : H) : Prop := a = b ∧ b ∈ answers calls

theorem recalled_le_eq (calls : List (Call H)) : Recalled calls ≤ Eq := fun _ _ h => h.1

theorem recalled_mono {calls calls' : List (Call H)} (h : calls <+: calls') :
    Recalled calls ≤ Recalled calls' :=
  fun _ _ hRecalled => ⟨hRecalled.1, answers_mono h hRecalled.2⟩

theorem recalled_made (calls : List (Call H)) (r : Request H) (h : H) :
    Recalled (calls ++ [.made r h]) h h :=
  ⟨rfl, by rw [answers_made]; exact List.mem_concat_self⟩

def Remembers.coupling {G : Factory (σ × List (Call H)) H} (hG : Remembers F G) : Coupling F G where
  Rel known waiting s t := t.1 = s ∧ known ≤ Recalled t.2 ∧ ∀ p ∈ waiting, p.1 = p.2
  classOf := by
    rintro known waiting s ⟨t, calls⟩ a b ⟨rfl, hKnown, -⟩ hab
    obtain ⟨rfl, hMem⟩ := hKnown a b hab
    exact (hG.classOf_eq t calls a hMem).symm
  make := by
    rintro known waiting s ⟨t, calls⟩ p q ⟨rfl, hKnown, hWaiting⟩ hMatches
    obtain rfl := hMatches.eq (hKnown.trans (recalled_le_eq calls))
    rw [hG.make_eq]
    exact ⟨_, hKnown.trans (recalled_mono (List.prefix_append ..)), ⟨rfl, le_rfl, hWaiting⟩,
      recalled_made ..⟩
  declare := by
    rintro known waiting s ⟨t, calls⟩ name ⟨rfl, hKnown, hWaiting⟩
    rw [hG.make_eq]
    refine ⟨_, hKnown.trans (recalled_mono (List.prefix_append ..)), ⟨rfl, le_rfl, ?_⟩,
      recalled_made ..⟩
    rintro p (_ | ⟨_, hp⟩)
    · rfl
    · exact hWaiting p hp
  setBody := by
    rintro known waiting s ⟨t, calls⟩ a b as bs ⟨rfl, hKnown, hWaiting⟩ hFields
    obtain rfl : a = b := hWaiting (a, b) List.mem_cons_self
    obtain rfl : as = bs :=
      List.forall₂_eq_eq_eq ▸ hFields.imp (hKnown.trans (recalled_le_eq calls))
    rw [hG.setBody_eq]
    exact ⟨rfl, known, waiting, le_rfl, ⟨rfl, hKnown.trans (recalled_mono (List.prefix_append ..)),
      fun p hp => hWaiting p (List.mem_cons_of_mem _ hp)⟩, fun _ => rfl⟩

/-- The classes of handles that were never returned have no influence. -/
theorem Remembers.run_eq {G : Factory (σ × List (Call H)) H} (hG : Remembers F G) (config : Config)
    (spec : String) (store : σ) :
    (run G config spec (store, [])).outcome = (run F config spec store).outcome ∧
      (run G config spec (store, [])).store.1 = (run F config spec store).store := by
  have hStart : hG.coupling.Rel (fun _ _ => False) [] store (store, []) :=
    ⟨rfl, fun _ _ h => h.elim, nofun⟩
  cases runs_match hG.coupling config spec hStart with
  | ok hLeft hRight _ hKnown hRel =>
    rw [hLeft, hRight, hRel.1, (hRel.2.1 _ _ hKnown).1]
    exact ⟨rfl, rfl⟩
  | error hLeft hRight hRel => exact ⟨hRight.trans hLeft.symm, hRel.1⟩

theorem calls_ending (journal : Journal H) (fault : Fault) :
    Journal.calls (journal.push (ending fault)) = Journal.calls journal := by
  rw [Journal.calls_push, ending]
  split <;> exact List.append_nil _

theorem StopsWithin.conforms {text : List Char} {calls : List (Call H)}
    (h : StopsWithin F config store [] text calls) :
    ∃ waiting, Conforms F config store calls waiting := by
  obtain ⟨body, more, elements, calls₁, -, hBody, hMore⟩ := h
  obtain ⟨waiting, hConforms⟩ := hMore.conforms (hBody.keeps.1.conforms [] .nil)
  exact ⟨waiting ++ [], hConforms⟩

/-- Where a parse ends: its calls lead to its store. If it ends well, it has read the text, and no
struct waits for a body; else it has read the text up to the boundary of the fault. -/
inductive Ending (F : Factory σ H) (config : Config) (spec : String) (store : σ)
    (calls : List (Call H)) (waiting : List H) : Except Diagnostic H → Prop where
  | ok {handle : H} : waiting = [] → Makes F config store [] spec.toList handle calls →
    Ending F config spec store calls waiting (.ok handle)
  | error {fault : Fault} {s : State σ H} :
    (whole F config).run (start spec store) = .error fault s → Tracks F store calls s →
    StopsWithin F config store [] (spec.toList.take (boundary fault s)) calls →
    Ending F config spec store calls waiting (.error ⟨fault, spec⟩)

theorem exists_conforms (F : Factory σ H) (config : Config) (spec : String) (store : σ) :
    ∃ calls waiting, Journal.calls (run F config spec store).journal = calls ∧
      (run F config spec store).store = F.replay store calls ∧
      Conforms F config store calls waiting ∧
      Ending F config spec store calls waiting (run F config spec store).outcome := by
  unfold run
  cases hRun : (whole F config).run (start spec store) with
  | ok handle s =>
    obtain ⟨calls, hTracks, hMakes⟩ := exists_makes hRun
    refine ⟨calls, [], ?_, hTracks.store_eq, hMakes.keeps.1.conforms [] .nil, .ok rfl hMakes⟩
    rw [Journal.calls_push, hTracks.calls_eq]
    exact List.append_nil _
  | error fault s =>
    obtain ⟨calls, hTracks, -, -, hStops⟩ := exists_stops hRun
    obtain ⟨waiting, hConforms⟩ := hStops.conforms
    refine ⟨calls, waiting, ?_, hTracks.store_eq, hConforms, .error hRun hTracks hStops⟩
    rw [calls_ending, hTracks.calls_eq]

/-- Whatever the factory answers, the calls of a parse are disciplined. They are made as the text
says, as far as it is read. -/
theorem run_disciplined (F : Factory σ H) (config : Config) (spec : String) (store : σ) :
    ∃ calls waiting, Journal.calls (run F config spec store).journal = calls ∧
      (run F config spec store).store = F.replay store calls ∧
      Disciplined F config store calls waiting ∧
      Ending F config spec store calls waiting (run F config spec store).outcome ∧
      ∀ G, Remembers F G →
        (run G config spec (store, [])).outcome = (run F config spec store).outcome ∧
          (run G config spec (store, [])).store.1 = (run F config spec store).store := by
  obtain ⟨calls, waiting, hCalls, hStore, hConforms, hEnding⟩ := exists_conforms F config spec store
  exact ⟨calls, waiting, hCalls, hStore, hConforms.disciplined, hEnding,
    fun G hG => hG.run_eq config spec store⟩

end CompactType.Parse
