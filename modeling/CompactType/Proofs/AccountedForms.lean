import CompactType.Proofs.Accounts
import Mathlib.Data.List.Forall2

/-!
# Accounts of the forms

If runs of a parser for single elements are accounted for, so are runs of the parsers for the forms
around them. By induction on the nesting allowed, whatever a parse reads makes the calls of its
text.
-/

set_option autoImplicit false

namespace CompactType.Parse

variable {σ H : Type} {F : Factory σ H} {config : Config} {store : σ} {calls calls' : List (Call H)}

section Within

variable {calls₁ : List (Call H)} {text more : List Char}

theorem StopsWithin.of_stops (h : Stops F config store calls text calls') :
    StopsWithin F config store calls text calls' :=
  ⟨[], text, [], calls, rfl, .nil _, h⟩

theorem StopsWithin.cons {e : Element H}
    (hHead : MakesElement F config store calls text (some e) calls₁)
    (hTail : StopsWithin F config store calls₁ more calls') :
    StopsWithin F config store calls (text ++ more) calls' := by
  obtain ⟨body, rest, elements, calls₂, rfl, hBody, hStops⟩ := hTail
  exact ⟨text ++ body, rest, e :: elements, calls₂, (List.append_assoc ..).symm, .cons hHead hBody,
    hStops⟩

theorem MakesAll.stopsWithin {elements : List (Element H)}
    (h : MakesAll F config store calls text elements calls') (hMore : ∀ c ∈ more, Trailing c) :
    StopsWithin F config store calls (text ++ more) calls' :=
  ⟨text, more, elements, calls', rfl, h, .trailing hMore⟩

theorem MakesAll.stopsWithin_nil {elements : List (Element H)}
    (h : MakesAll F config store calls text elements calls') :
    StopsWithin F config store calls text calls' :=
  List.append_nil text ▸ h.stopsWithin nofun

theorem StopsWithin.inside {opening : Char} (hOpening : opening ∈ ['*', '[', '<', '{', '('])
    (h : StopsWithin F config store calls text calls') :
    Stops F config store calls (opening :: text) calls' := by
  obtain ⟨body, rest, elements, calls₁, rfl, hBody, hStops⟩ := h
  exact .inside hOpening hBody hStops

end Within

section Checks

variable {α β : Type}

/-- A step that reads nothing and makes no calls. -/
def Checks (F : Factory σ H) (store : σ) (calls : List (Call H)) (x : Parser σ H α)
    (answers : α → Prop) : Prop :=
  Accounts F store calls x (fun text a calls' => text = [] ∧ calls' = calls ∧ answers a)
    (fun text calls' => text = [] ∧ calls' = calls)

namespace Checks

variable {x : Parser σ H α} {f : α → Parser σ H β} {answers : α → Prop} {answers' : β → Prop}
  {after : List Char → β → List (Call H) → Prop} {broken : List Char → List (Call H) → Prop}

theorem bind_accounts (hx : Checks F store calls x answers) (hBroken : broken [] calls)
    (hf : ∀ a, answers a → Accounts F store calls (f a) after broken) :
    Accounts F store calls (x >>= f) after broken := by
  have hFirst : Accounts F store calls x
      (fun text a calls' => text = [] ∧ calls' = calls ∧ answers a) broken := by
    apply hx.weaken fun _ _ _ h => h
    rintro _ _ ⟨rfl, rfl⟩
    exact hBroken
  apply hFirst.bind
  rintro _ a _ ⟨rfl, rfl, h⟩
  exact hf a h

theorem bind (hx : Checks F store calls x answers)
    (hf : ∀ a, answers a → Checks F store calls (f a) answers') :
    Checks F store calls (x >>= f) answers' :=
  bind_accounts hx ⟨rfl, rfl⟩ hf

theorem pure {a : α} (h : answers a) : Checks F store calls (pure a) answers :=
  Accounts.pure ⟨rfl, rfl, h⟩

theorem fail {cause : Cause} (hCause : Ordinary cause) (pos : Nat) :
    Checks F store calls (fail cause pos) answers :=
  Accounts.fail hCause pos ⟨rfl, rfl⟩

theorem fail_bind {cause : Cause} (hCause : Ordinary cause) (pos : Nat) :
    Checks F store calls (Parse.fail cause pos >>= f) answers' :=
  Accounts.fail_bind hCause pos ⟨rfl, rfl⟩

theorem mapM {g : α → Parser σ H β} {R : α → β → Prop} {as : List α}
    (h : ∀ a, Checks F store calls (g a) (R a)) :
    Checks F store calls (as.mapM g) (List.Forall₂ R as) := by
  induction as with
  | nil => exact pure .nil
  | cons a as ih =>
    rw [List.mapM_cons]
    apply (h a).bind
    intro b hHead
    apply ih.bind
    intro bs hTail
    exact pure (.cons hHead hTail)

end Checks

/-- The element is a type, which the handle stands for and whose class is allowed. -/
def Placed.Passed (allowed : H → Prop) (p : Placed H) (h : H) : Prop :=
  p.element = .type h ∧ allowed h

theorem elements_of_passed {allowed : H → Prop} {placed : List (Placed H)} {handles : List H}
    (h : List.Forall₂ (Placed.Passed allowed) placed handles) :
    placed.map Placed.element = handles.map .type ∧ ∀ a ∈ handles, allowed a := by
  induction h with
  | nil => exact ⟨rfl, nofun⟩
  | cons hHead _ ih =>
    refine ⟨by rw [List.map_cons, List.map_cons, hHead.1, ih.1], ?_⟩
    rintro a (_ | ⟨_, ha⟩)
    · exact hHead.2
    · exact ih.2 a ha

variable (p : Placed H)

theorem checks_valued {onMarker onType : Cause} (hMarker : Ordinary onMarker)
    (hType : Ordinary onType) : Checks F store calls (valued F onMarker onType p)
      (p.Passed fun h => (F.classOf (F.replay store calls) h).isValue = true) := by
  obtain ⟨_ | _, pos⟩ := p
  · apply Accounts.classOf_bind
    exact Accounts.ite (fun hValue => Checks.pure ⟨rfl, hValue⟩) fun _ => Checks.fail_bind hType _
  · exact Checks.fail hMarker _

theorem checks_returned : Checks F store calls (returned F p)
    (p.Passed fun h => F.classOf (F.replay store calls) h ≠ .function) := by
  obtain ⟨_ | _, pos⟩ := p
  · apply Accounts.classOf_bind
    exact Accounts.ite (fun _ => Checks.fail_bind (by trivial) _)
      fun hClass => Checks.pure ⟨rfl, hClass⟩
  · exact Checks.fail (by trivial) _

/-- Either nothing is dropped, or a type of class void that is alone. -/
def Dropped (classOf : H → TypeClass) (placed kept : List (Placed H)) : Prop :=
  kept = placed ∨ kept = [] ∧
    ∃ handle, placed.map Placed.element = [.type handle] ∧ classOf handle = .void

theorem checks_dropLoneVoid (placed : List (Placed H)) :
    Checks F store calls (dropLoneVoid F placed)
      (Dropped (F.classOf (F.replay store calls)) placed) := by
  match placed with
  | [] => exact Checks.pure (.inl rfl)
  | ⟨.vararg, pos⟩ :: rest => exact Checks.pure (.inl rfl)
  | ⟨.type handle, pos⟩ :: rest =>
    apply Accounts.classOf_bind
    refine Accounts.ite (fun _ => Checks.pure (.inl rfl)) fun hVoid => ?_
    rw [Decidable.not_not] at hVoid
    cases rest with
    | nil => exact Checks.pure (.inr ⟨rfl, handle, rfl, hVoid⟩)
    | cons => exact Checks.fail_bind (by trivial) _

theorem amount_of_split {classOf : H → TypeClass} {before kept : List (Placed H)} {params : List H}
    (hBefore : before ≠ []) (hDropped : Dropped classOf (splitVararg before).2 kept)
    (hParams : kept.reverse.map Placed.element = params.map .type) :
    Amount classOf (before.reverse.map Placed.element) params (splitVararg before).1 := by
  match before with
  | ⟨.vararg, pos⟩ :: rest =>
    rw [List.reverse_cons, List.map_append]
    obtain rfl | ⟨rfl, handle, hHandle, hVoid⟩ := hDropped
    · exact hParams ▸ .variadic
    · obtain rfl : params = [] := by simpa using hParams.symm
      obtain ⟨p, rfl, hp⟩ := List.map_eq_singleton_iff.mp hHandle
      rw [List.reverse_singleton, List.map_singleton, hp]
      exact .voidVariadic hVoid
  | ⟨.type first, pos⟩ :: rest =>
    change Dropped classOf (⟨.type first, pos⟩ :: rest) kept at hDropped
    change Amount classOf _ params false
    obtain rfl | ⟨rfl, handle, hHandle, hVoid⟩ := hDropped
    · rw [hParams]
      refine .params ?_
      rintro rfl
      simp at hParams
    · obtain rfl : params = [] := by simpa using hParams.symm
      obtain ⟨p, hp, hElement⟩ := List.map_eq_singleton_iff.mp hHandle
      rw [hp, List.reverse_singleton, List.map_singleton, hElement]
      exact .void hVoid

end Checks

/-- Runs of a parser for single elements are accounted for by what they read. -/
def AccountsElements (F : Factory σ H) (config : Config) (store : σ) (sub : ElementParser σ H) :
    Prop :=
  ∀ calls, Accounts F store calls sub (MakesElement F config store calls)
    (Stops F config store calls)

/-- Runs of a parser for a form are accounted for from behind the first character on. -/
def AccountsForm (F : Factory σ H) (config : Config) (store : σ) (first : Char)
    (form : Parser σ H H) : Prop :=
  ∀ calls, Accounts F store calls form (fun text => Makes F config store calls (first :: text))
    (fun text => Stops F config store calls (first :: text))

namespace AccountsElements

variable {sub : ElementParser σ H} (hSub : AccountsElements F config store sub)

include hSub

theorem within : Accounts F store calls sub (MakesElement F config store calls)
    (StopsWithin F config store calls) :=
  (hSub calls).weaken (fun _ _ _ h => h) fun _ _ => .of_stops

theorem elementType {missing : Cause} (hMissing : Ordinary missing) :
    Accounts F store calls (elementType sub missing) (Makes F config store calls)
      (StopsWithin F config store calls) := by
  apply Accounts.here_bind
  intro start
  apply hSub.within.bind
  intro text answer calls' h
  match answer with
  | some (.type handle) => exact Accounts.pure (by rwa [List.append_nil])
  | some .vararg =>
    apply Accounts.fail (by trivial)
    obtain ⟨rfl, rfl⟩ := h
    exact (MakesAll.vararg (.nil _)).stopsWithin_nil
  | none =>
    obtain ⟨rfl, rfl⟩ := h
    exact Accounts.fail hMissing _ (MakesAll.nil _).stopsWithin_nil

theorem sequenceWithin (closing : Char) (bound : Nat) :
    Accounts F store calls (sequenceWithin sub closing bound)
      (fun text placed => MakesAll F config store calls text (placed.map Placed.element))
      (StopsWithin F config store calls) := by
  induction bound generalizing calls with
  | zero => exact Accounts.pure (.nil _)
  | succ bound ih =>
    apply Accounts.looksAt_bind
    intro found
    refine Accounts.ite (fun _ => Accounts.pure (.nil _)) fun _ => Accounts.here_bind ?_
    intro start
    apply hSub.within.bind
    intro text answer calls' h
    match answer with
    | none =>
      obtain ⟨rfl, rfl⟩ := h
      exact Accounts.pure (.nil _)
    | some element =>
      apply Accounts.map
      exact ih.weaken (fun _ _ _ hTail => .cons h hTail) fun _ _ hTail => .cons h hTail

theorem sequence (closing : Char) :
    Accounts F store calls (sequence sub closing)
      (fun text placed => MakesAll F config store calls text (placed.map Placed.element))
      (StopsWithin F config store calls) :=
  Accounts.remaining_bind fun count => hSub.sequenceWithin closing (count + 1)

theorem fields : Accounts F store calls (fields F sub)
    (fun text handles calls' => ∃ body, text = body ++ ['}'] ∧
      MakesAll F config store calls body (handles.map .type) calls' ∧ handles ≠ [] ∧
      ∀ h ∈ handles, (F.classOf (F.replay store calls') h).isValue = true)
    (StopsWithin F config store calls) := by
  apply (hSub.sequence '}').bind
  intro body placed calls' hBody
  have hStops : StopsWithin F config store calls (body ++ []) calls' := hBody.stopsWithin nofun
  refine Accounts.ite (fun _ => Accounts.failHere_bind (by trivial) hStops) fun hEmpty => ?_
  refine (Checks.mapM fun p => checks_valued p (by trivial) (by trivial)).bind_accounts hStops ?_
  intro handles hHandles
  obtain ⟨hElements, hValue⟩ := elements_of_passed hHandles
  refine Accounts.close_bind (by decide) (Accounts.pure ?_) hStops
  refine ⟨body, rfl, hElements ▸ hBody, ?_, hValue⟩
  rintro rfl
  cases hHandles
  exact hEmpty rfl

theorem record : AccountsForm F config store '{' (record F sub) := by
  intro calls
  apply (hSub.fields.weaken (fun _ _ _ h => h) fun _ _ h => h.inside (by decide)).bind
  rintro _ handles calls' ⟨body, rfl, hBody, hNonempty, hValue⟩
  refine Accounts.request (by exact ⟨hNonempty, hValue⟩) rfl fun h calls'' hAsks => ?_
  rw [List.append_nil]
  exact .record hBody hAsks

theorem definition : AccountsForm F config store '=' (definition F config sub) := by
  intro calls
  apply Accounts.here_bind
  intro start
  refine Accounts.number_bind (by trivial) ?_ fun run hRun => .number (by decide) hRun
  intro run id hNumeral _
  have hStops : Stops F config store calls ('=' :: (run ++ [])) calls :=
    .number (by decide) (by simpa using hNumeral.isDigit)
  apply Accounts.nextNumber_bind
  refine Accounts.ite (fun _ => Accounts.fail_bind (by trivial) _ hStops) fun hNext => ?_
  rw [Decidable.not_not] at hNext
  subst hNext
  refine Accounts.eat_bind (by decide) ?_ (Accounts.failHere_bind (by trivial) hStops)
  apply Accounts.declare_bind
  intro h calls₁ hDeclare
  apply Accounts.emit_bind rfl
  have hFields : Accounts F store calls₁ (CompactType.Parse.fields F sub) _ _ := hSub.fields
  apply (hFields.weaken (fun _ _ _ h => h) ?_).bind
  · rintro _ handles calls₂ ⟨body, rfl, hBody, hNonempty, hValue⟩
    apply Accounts.complete_bind hNonempty hValue
    · intro calls₃ hFills
      refine Accounts.pure ?_
      rw [List.append_nil]
      exact .define hNumeral hDeclare hBody hFills
    · intro calls₃ refusal hFills hRefused
      rw [List.append_nil]
      exact .refused hNumeral hDeclare hBody hFills hRefused
  · rintro _ _ ⟨body, more, elements, calls₂, rfl, hBody, hMore⟩
    exact .definition hNumeral hDeclare hBody hMore

theorem crossedElement {form : String} {allowed : TypeClass → Bool} :
    Accounts F store calls (crossedElement F sub form allowed)
      (fun text handle calls' => ∃ elem, text = elem ++ ['x'] ∧
        Makes F config store calls elem handle calls' ∧
        allowed (F.classOf (F.replay store calls') handle) = true)
      (StopsWithin F config store calls) := by
  apply Accounts.here_bind
  intro start
  apply (hSub.elementType (by trivial)).bind
  intro elem handle calls' hElem
  have hStops : StopsWithin F config store calls (elem ++ []) calls' :=
    hElem.all.stopsWithin nofun
  apply Accounts.classOf_bind
  refine Accounts.ite (fun hAllowed => ?_) fun _ => Accounts.fail_bind (by trivial) _ hStops
  refine Accounts.eat_bind (by decide) ?_ (Accounts.failHere_bind (by trivial) hStops)
  exact Accounts.pure ⟨elem, rfl, hElem, hAllowed⟩

theorem array : AccountsForm F config store '[' (array F sub) := by
  intro calls
  apply (hSub.crossedElement.weaken (fun _ _ _ h => h) fun _ _ h => h.inside (by decide)).bind
  rintro _ handle calls' ⟨elem, rfl, hElem, hValue⟩
  have hStops (more : List Char) (hMore : ∀ c ∈ more, Trailing c) :
      Stops F config store calls ('[' :: (elem ++ ['x'] ++ more)) calls' := by
    rw [List.append_assoc]
    refine (hElem.all.stopsWithin ?_).inside (by decide)
    rintro c (_ | ⟨_, hc⟩)
    · exact .inr (.inl rfl)
    · exact hMore c hc
  apply Accounts.here_bind
  intro start
  refine Accounts.number_bind (by trivial) ?_
    fun run hRun => hStops run fun c hc => .inl (hRun c hc)
  intro run count hNumeral hLimit
  refine Accounts.close_bind (by decide) ?_ (hStops _ fun c hc => ?_)
  · refine Accounts.ite (fun _ => Accounts.fail_bind (by trivial) _ ?_) fun hZero => ?_
    · refine hStops _ fun c hc => ?_
      obtain hc | rfl := by simpa using hc
      · exact .inl (hNumeral.isDigit c hc)
      · exact .inr (.inr rfl)
    · have hCount : 0 < UInt64.ofNat count := by
        rw [UInt64.lt_iff_toNat_lt, UInt64.toNat_ofNat_of_lt' hLimit]
        exact Nat.pos_of_ne_zero hZero
      refine Accounts.request (by exact ⟨hValue, hCount⟩) rfl fun h calls'' hAsks => ?_
      have hMakes := Makes.array hElem hNumeral hLimit hAsks
      simpa using hMakes
  · exact .inl (hNumeral.isDigit c (by simpa using hc))

theorem vector : AccountsForm F config store '<' (vector F sub) := by
  intro calls
  apply (hSub.crossedElement.weaken (fun _ _ _ h => h) fun _ _ h => h.inside (by decide)).bind
  rintro _ handle calls' ⟨elem, rfl, hElem, hLane⟩
  have hStops (more : List Char) (hMore : ∀ c ∈ more, c.isDigit = true) :
      Stops F config store calls ('<' :: (elem ++ ['x'] ++ more)) calls' := by
    rw [List.append_assoc]
    refine (hElem.all.stopsWithin ?_).inside (by decide)
    rintro c (_ | ⟨_, hc⟩)
    · exact .inr (.inl rfl)
    · exact .inl (hMore c hc)
  apply Accounts.here_bind
  intro start
  refine Accounts.number_bind (by trivial) ?_ hStops
  intro run count hNumeral hLimit
  have hRun := hStops (run ++ []) (by simpa using hNumeral.isDigit)
  refine Accounts.ite (fun _ => Accounts.fail_bind (by trivial) _ hRun) fun hZero => ?_
  refine Accounts.close_bind (by decide) ?_ hRun
  have hCount : 0 < UInt32.ofNat count := by
    rw [UInt32.lt_iff_toNat_lt, UInt32.toNat_ofNat_of_lt' hLimit]
    exact Nat.pos_of_ne_zero hZero
  refine Accounts.request (by exact ⟨hLane, hCount⟩) rfl fun h calls'' hAsks => ?_
  have hMakes := Makes.vector hElem hNumeral hLimit hAsks
  simpa using hMakes

theorem pointer : AccountsForm F config store '*' (pointer F sub) := by
  intro calls
  have hElem : Accounts F store calls (CompactType.Parse.elementType sub .missingPointee) _ _ :=
    hSub.elementType (by trivial)
  apply (hElem.weaken (fun _ _ _ h => h) fun _ _ h => h.inside (by decide)).bind
  intro elem e calls' hMakes
  refine Accounts.request trivial rfl fun h calls'' hAsks => ?_
  rw [List.append_nil]
  exact .pointer hMakes hAsks

theorem function : AccountsForm F config store '(' (function F sub) := by
  intro calls
  apply ((hSub.sequence ')').weaken (fun _ _ _ h => h) fun _ _ h => h.inside (by decide)).bind
  intro body placed calls' hBody
  have hStops : Stops F config store calls ('(' :: (body ++ [])) calls' :=
    StopsWithin.inside (by decide) (hBody.stopsWithin nofun)
  match hReverse : placed.reverse with
  | [] | [_] => exact Accounts.failHere (by trivial) hStops
  | last :: next :: more =>
    have hPlaced : placed = (next :: more).reverse ++ [last] := by
      rw [← placed.reverse_reverse, hReverse, List.reverse_cons]
    apply (checks_returned last).bind_accounts hStops
    rintro ret ⟨hRet, hClass⟩
    apply (checks_dropLoneVoid _).bind_accounts hStops
    intro kept hKept
    refine (Checks.mapM fun p => checks_valued p (by trivial) (by trivial)).bind_accounts hStops ?_
    intro params hParams
    obtain ⟨hElements, hValue⟩ := elements_of_passed hParams
    refine Accounts.close_bind (by decide) ?_ hStops
    refine Accounts.request (by exact ⟨hValue, hClass⟩) rfl fun h calls'' hAsks => ?_
    rw [hPlaced, List.map_append, List.map_singleton, hRet] at hBody
    exact .function hBody (amount_of_split (List.cons_ne_nil _ _) hKept hElements) hAsks

end AccountsElements

theorem accountsForm_reference : AccountsForm F config store '%' (reference : Parser σ H H) := by
  intro calls
  apply Accounts.here_bind
  intro start
  refine Accounts.number_bind (by trivial) ?_ fun run hRun => .number (by decide) hRun
  intro run id hNumeral _
  rw [← List.append_nil run]
  apply Accounts.opened?_bind
  cases hOpened : (declarations calls)[id]? with
  | none =>
    exact Accounts.fail (by trivial) _ (.number (by decide) (by simpa using hNumeral.isDigit))
  | some declared =>
    refine Accounts.pure ?_
    exact .reference (by simpa using hNumeral) hOpened

theorem AccountsForm.element {first : Char} {form : Parser σ H H}
    (h : AccountsForm F config store first form) :
    Accounts F store calls (do return some (.type (← form)))
      (fun text => MakesElement F config store calls (first :: text))
      (fun text => Stops F config store calls (first :: text)) :=
  Accounts.map (h calls)

section Dispatch

variable {sub : ElementParser σ H}

theorem AccountsElements.dispatch (hSub : AccountsElements F config store sub) :
    AccountsElements F config store (dispatch F config sub) := by
  intro calls s hs
  have hCases := dispatches F config sub s
  generalize (Parse.dispatch F config sub).run s = result at hCases ⊢
  cases hCases with
  | nothing => exact .ok (.nil rfl) hs ⟨rfl, rfl⟩
  | unknown hRest => exact .error (.unexpectedChar hRest s) hs nofun (.trailing nofun)
  | @symbol symbol rest hRest =>
    have hTracks : Tracks F store calls (s.afterRead symbol rest) :=
      ⟨by simpa [State.afterRead, Journal.calls_push, Event.call?] using hs.calls_eq,
        hs.store_eq, hs.opened_eq⟩
    have hPasses : Passes s [symbol.char] (s.afterRead symbol rest) :=
      ⟨hRest, rfl, by simpa using Symbol.utf8Size_char symbol⟩
    have hOpener (hx : Accounts F store calls (afterSymbol F config sub s.cursor.pos symbol)
        (fun text => MakesElement F config store calls (symbol.char :: text))
        (fun text => Stops F config store calls (symbol.char :: text))) :
        Accounted F store s (MakesElement F config store calls) (Stops F config store calls)
          ((afterSymbol F config sub s.cursor.pos symbol).run (s.afterRead symbol rest)) :=
      (hx _ hTracks).prepend hPasses
    cases symbol with
    | openBrace => exact hOpener hSub.record.element
    | openBracket => exact hOpener hSub.array.element
    | less => exact hOpener hSub.vector.element
    | star => exact hOpener hSub.pointer.element
    | openParen => exact hOpener hSub.function.element
    | equals => exact hOpener hSub.definition.element
    | percent => exact hOpener accountsForm_reference.element
    | ampersand => exact hOpener (Accounts.pure ⟨rfl, rfl⟩)
    | scalar letter =>
      apply hOpener
      apply Accounts.map
      exact Accounts.request trivial rfl fun h calls' hAsks => .scalar letter hAsks
    | closeBrace | closeBracket | greater | closeParen | cross =>
      exact .error (.unexpectedChar hRest _) hTracks nofun (.trailing nofun)

end Dispatch

theorem accountsElements_element (F : Factory σ H) (config : Config) (store : σ) (depth : Nat) :
    AccountsElements F config store (element F config depth) := by
  induction depth with
  | zero => exact fun _ => Accounts.failHere (by trivial) (.trailing nofun)
  | succ depth ih => exact ih.dispatch

theorem accounts_whole (F : Factory σ H) (config : Config) (store : σ) :
    Accounts F store [] (whole F config) (Makes F config store [])
      (StopsWithin F config store []) := by
  apply ((accountsElements_element F config store config.maxDepth).elementType (by trivial)).bind
  intro text handle calls hMakes
  rw [← List.append_nil text] at hMakes
  intro s hs
  rw [run_atEnd_bind]
  refine Accounts.ite (fun _ => Accounts.pure hMakes) (fun _ => ?_) s hs
  exact Accounts.failHere_bind (by trivial) hMakes.all.stopsWithin_nil

theorem tracks_start (F : Factory σ H) (spec : String) (store : σ) :
    Tracks F store [] (start spec store) :=
  ⟨rfl, rfl, rfl⟩

theorem exists_makes {spec : String} {handle : H} {s : State σ H}
    (h : (whole F config).run (start spec store) = .ok handle s) :
    ∃ calls, Tracks F store calls s ∧ Makes F config store [] spec.toList handle calls := by
  have hAccounted := accounts_whole F config store _ (tracks_start F spec store)
  rw [h] at hAccounted
  cases hAccounted with
  | ok hPasses hTracks hMakes =>
    obtain ⟨_, s₁, -, hEnd⟩ := run_bind_eq_ok.mp h
    rw [run_atEnd_bind] at hEnd
    obtain ⟨hAtEnd, hReturn⟩ := run_ite_eq_ok ((fails_failHere _).bind _) hEnd
    cases hReturn
    have hText : spec.toList = _ := hPasses.rest_eq
    rw [List.isEmpty_iff.mp hAtEnd, List.append_nil] at hText
    exact ⟨_, hTracks, hText ▸ hMakes⟩

/-- The text up to the boundary of a fault is read as the beginning of a type. -/
theorem exists_stops {spec : String} {fault : Fault} {s : State σ H}
    (h : (whole F config).run (start spec store) = .error fault s) :
    ∃ calls, Tracks F store calls s ∧
      Halts (start spec store) (spec.toList.take (boundary fault s)) fault s ∧
      (∀ refusal, fault.cause = .factory refusal → Refused F store calls refusal) ∧
      StopsWithin F config store [] (spec.toList.take (boundary fault s)) calls := by
  have hAccounted := accounts_whole F config store _ (tracks_start F spec store)
  rw [h] at hAccounted
  cases hAccounted with
  | @error text _ calls _ hHalts hTracks hRefused hStops =>
    obtain ⟨more, hMore⟩ := hHalts.rest_eq
    have hText : spec.toList.take (boundary fault s) = text := by
      rw [hHalts.boundary_eq, show spec.toList = text ++ more from hMore]
      simp [start, Cursor.ofList]
    exact ⟨calls, hTracks, hText.symm ▸ hHalts, hRefused, hText.symm ▸ hStops⟩

end CompactType.Parse
