import CompactType.Proofs.Simulation

/-!
# Simulated forms

If a simulation holds of the parsers for single elements, it holds of the parsers for the forms
around them.
-/

set_option autoImplicit false

namespace CompactType.Parse

variable {σ τ H K : Type}

/-- Every element takes at least one character. -/
def Progresses (sub : ElementParser σ H) : Prop :=
  ∀ s e s', sub.run s = .ok (some e) s' → s'.cursor.rest.length < s.cursor.rest.length

/-- The bound on the number of elements is not reached. -/
theorem Progresses.run_sequenceWithin_eq {sub : ElementParser σ H} (h : Progresses sub)
    (closing : Char) {bound bound' : Nat} {s : State σ H} (hBound : s.cursor.rest.length < bound)
    (hBound' : s.cursor.rest.length < bound') :
    (sequenceWithin sub closing bound).run s = (sequenceWithin sub closing bound').run s := by
  induction bound generalizing s bound' with
  | zero => exact absurd hBound (Nat.not_lt_zero _)
  | succ bound ih =>
    obtain ⟨bound', rfl⟩ := Nat.exists_eq_succ_of_ne_zero (Nat.ne_zero_of_lt hBound')
    rw [sequenceWithin, sequenceWithin, run_looksAt_bind, run_looksAt_bind]
    split
    · rfl
    · rw [run_here_bind, run_here_bind, EStateM.run_bind, EStateM.run_bind]
      cases hRun : sub.run s with
      | error => rfl
      | ok answer s₁ =>
        cases answer with
        | none => rfl
        | some e =>
          have hLess := h s e s₁ hRun
          have hSame : (sequenceWithin sub closing bound).run s₁ =
              (sequenceWithin sub closing bound').run s₁ := ih (by omega) (by omega)
          simp only [EStateM.run_bind, hSame]

theorem Progresses.exists_bound {sub : ElementParser σ H} (h : Progresses sub) (closing : Char)
    (s : State σ H) :
    ∃ n, ∀ m ≥ n, (sequenceWithin sub closing m).run s = (sequence sub closing).run s := by
  refine ⟨s.cursor.rest.length + 1, fun m hm => ?_⟩
  rw [sequence, run_remaining_bind]
  exact h.run_sequenceWithin_eq closing hm (Nat.lt_succ_self _)

variable {F : Factory σ H} {G : Factory τ K} {config config' : Config}

theorem isEmpty_eq_of_forall₂ {α β : Type} {matching : α → β → Prop} {as : List α} {bs : List β}
    (h : List.Forall₂ matching as bs) : as.isEmpty = bs.isEmpty := by
  cases h <;> rfl

theorem splitVararg_matches {known : H → K → Prop} {moved : Nat → Nat → Prop}
    {ps : List (Placed H)} {qs : List (Placed K)}
    (h : List.Forall₂ (Placed.Matches known moved) ps qs) :
    (splitVararg ps).1 = (splitVararg qs).1 ∧
      List.Forall₂ (Placed.Matches known moved) (splitVararg ps).2 (splitVararg qs).2 := by
  cases h with
  | nil => exact ⟨rfl, .nil⟩
  | cons hHead hTail =>
    cases hHead with
    | type hKnown hPos => exact ⟨rfl, .cons (.type hKnown hPos) hTail⟩
    | vararg => exact ⟨rfl, hTail⟩

namespace Simulation

variable {S : Simulation F G config config'} {w w' : S.World}

variable (S) in
/-- An element was found behind the first world, or there is none. -/
inductive Found (w₀ : S.World) :
    S.World → Stage → Option (Element H) → Option (Element K) → Prop where
  | none (w : S.World) : Found w₀ w .within none none
  | some {w : S.World} {e : Element H} {e' : Element K} :
    S.Beyond w₀ w → e.Matches (S.Handles w) e' → Found w₀ w .found (some e) (some e')

section Same

variable {G : Factory τ H} {S : Simulation F G config config'} {w₀ w : S.World}

theorem Found.refl (hBeyond : S.Beyond w₀ w) (h : ∀ a, S.Handles w a a)
    (answer : Option (Element H)) : ∃ p, S.Found w₀ w p answer answer := by
  cases answer with
  | none => exact ⟨.within, .none w⟩
  | some e => exact ⟨.found, .some hBeyond (.refl h e)⟩

theorem Found.eq (hEq : S.Handles w ≤ Eq) {p : Stage} {answer answer' : Option (Element H)}
    (h : S.Found w₀ w p answer answer') : answer = answer' := by
  cases h with
  | none => rfl
  | some _ hMatches => rw [hMatches.eq hEq]

end Same

/-- From the world on, the two parsers for elements are related. -/
structure Elements (w : S.World) (sub : ElementParser σ H) (sub' : ElementParser τ K) :
    Prop where
  related : ∀ w', S.Later w w' → S.Related w' .within sub sub' (S.Found w')
  left : Progresses sub
  right : Progresses sub'

section Checks

variable {p : Placed H} {q : Placed K}

theorem related_valued {onMarker onType : Cause} (hMarker : Flat onMarker) (hType : Flat onType)
    (h : p.Matches (S.Handles w) (S.Positions w) q) :
    S.Related w .within (valued F onMarker onType p) (valued G onMarker onType q)
      (S.Still w .within (S.Handles w)) := by
  cases h with
  | vararg hPos => exact S.related_fail hMarker hPos
  | type hKnown hPos =>
    refine Related.bind_still (S.related_classOf hKnown) ?_
    rintro found _ rfl
    exact Related.ite (fun _ => S.related_pure ⟨rfl, rfl, hKnown⟩)
      fun _ => Related.fail_bind hType hPos

theorem related_returned (h : p.Matches (S.Handles w) (S.Positions w) q) :
    S.Related w .within (returned F p) (returned G q) (S.Still w .within (S.Handles w)) := by
  cases h with
  | vararg hPos => exact S.related_fail trivial hPos
  | type hKnown hPos =>
    refine Related.bind_still (S.related_classOf hKnown) ?_
    rintro found _ rfl
    exact Related.ite (fun _ => Related.fail_bind trivial hPos)
      fun _ => S.related_pure ⟨rfl, rfl, hKnown⟩

theorem related_dropLoneVoid {ps : List (Placed H)} {qs : List (Placed K)}
    (h : List.Forall₂ (Placed.Matches (S.Handles w) (S.Positions w)) ps qs) :
    S.Related w .within (dropLoneVoid F ps) (dropLoneVoid G qs)
      (S.Still w .within (List.Forall₂ (Placed.Matches (S.Handles w) (S.Positions w)))) := by
  cases h with
  | nil => exact S.related_pure ⟨rfl, rfl, .nil⟩
  | cons hHead hTail =>
    cases hHead with
    | vararg hPos => exact S.related_pure ⟨rfl, rfl, .cons (.vararg hPos) hTail⟩
    | type hKnown hPos =>
      refine Related.bind_still (S.related_classOf hKnown) ?_
      rintro found _ rfl
      refine Related.ite
        (fun _ => S.related_pure ⟨rfl, rfl, .cons (.type hKnown hPos) hTail⟩) fun _ => ?_
      rw [isEmpty_eq_of_forall₂ hTail]
      exact Related.ite (fun _ => S.related_pure ⟨rfl, rfl, .nil⟩)
        fun _ => Related.fail_bind trivial hPos

end Checks

theorem related_reference (w : S.World) :
    S.Related w .marked reference reference S.Typed := by
  refine Related.bind_still (S.related_here w _) fun start start' hStart => ?_
  apply S.related_bind (S.related_number w .marked (by trivial))
  rintro w₁ _ number _ hLater ⟨rfl, rfl⟩
  refine Related.bind_still (S.related_opened? w₁ number) fun handle handle' hHandle => ?_
  cases hHandle with
  | none => exact S.related_fail trivial (S.positions_mono hLater _ _ hStart)
  | some hKnown => exact S.related_pure ⟨rfl, hKnown⟩

namespace Elements

variable {sub : ElementParser σ H} {sub' : ElementParser τ K} (hSub : Elements w sub sub')

include hSub

theorem later (h : S.Later w w') : Elements w' sub sub' :=
  ⟨fun w'' h' => hSub.related w'' (S.later_trans h h'), hSub.left, hSub.right⟩

theorem elementType {missing : Cause} (hMissing : Flat missing) :
    S.Related w .within (elementType sub missing) (elementType sub' missing) S.Typed := by
  refine Related.bind_still (S.related_here w _) fun start start' hStart => ?_
  apply S.related_bind (hSub.related w (S.later_refl w))
  rintro w₁ _ _ _ hLater (_ | ⟨-, hMatches⟩)
  · exact S.related_fail hMissing (S.positions_mono hLater _ _ hStart)
  · cases hMatches with
    | type hKnown => exact S.related_pure ⟨rfl, hKnown⟩
    | vararg => exact S.related_fail trivial (S.positions_mono hLater _ _ hStart)

theorem sequenceWithin {closing : Char} {p : Stage} (h : Stage.Eats .within closing p)
    (bound : Nat) :
    S.Related w .within (sequenceWithin sub closing bound) (sequenceWithin sub' closing bound)
      S.Lists := by
  induction bound generalizing w with
  | zero => exact S.related_pure ⟨rfl, .nil⟩
  | succ bound ih =>
    refine Related.bind_still (S.related_looksAt w h) ?_
    rintro found _ rfl
    refine Related.ite (fun _ => S.related_pure ⟨rfl, .nil⟩) fun _ => ?_
    refine Related.bind_still (S.related_here w _) fun start start' hStart => ?_
    apply S.related_bind (hSub.related w (S.later_refl w))
    rintro w₁ _ _ _ hLater (_ | ⟨-, hHead⟩)
    · exact S.related_pure ⟨rfl, .nil⟩
    · apply S.found_of_within
      apply (ih (hSub.later hLater)).map
      rintro w₂ _ ps qs hLater' ⟨rfl, hTail⟩
      have hPos := S.positions_mono (S.later_trans hLater hLater') _ _ hStart
      exact ⟨rfl, .cons ((hHead.mono (S.handles_mono hLater')).placed hPos) hTail⟩

theorem sequence {closing : Char} {p : Stage} (h : Stage.Eats .within closing p) :
    S.Related w .within (sequence sub closing) (sequence sub' closing) S.Lists :=
  S.related_limit (hSub.left.exists_bound closing) (hSub.right.exists_bound closing)
    (hSub.sequenceWithin h)

theorem fields : S.Related w .within (fields F sub) (fields G sub') fun w' p as bs =>
    p = .closed ∧ List.Forall₂ (S.Handles w') as bs := by
  apply S.related_bind (hSub.sequence .closing)
  rintro w₁ _ ps qs - ⟨rfl, hElements⟩
  rw [isEmpty_eq_of_forall₂ hElements]
  refine Related.ite (fun _ => Related.failHere_bind trivial) fun _ => ?_
  apply (Related.mapM hElements fun p q => related_valued (by trivial) (by trivial)).bind_still
  intro as bs hHandles
  apply (Related.close .closing).map
  rintro w₂ _ _ _ hLater rfl
  exact ⟨rfl, hHandles.imp (S.handles_mono hLater)⟩

theorem record : S.Related w .within (record F sub) (record G sub') S.Typed := by
  apply S.related_bind hSub.fields
  rintro w₁ _ as bs - ⟨rfl, hHandles⟩
  exact S.closed_of_found (S.related_request (.record hHandles))

theorem definition :
    S.Related w .heading (definition F config sub) (definition G config' sub') S.Typed := by
  refine Related.bind_still (S.related_here w _) fun start start' hStart => ?_
  apply S.related_bind (S.related_number w .heading (by trivial))
  rintro w₁ _ number _ hLater ⟨rfl, rfl⟩
  refine Related.bind_still (S.related_nextNumber w₁ _) ?_
  rintro expected _ ⟨rfl, hCounts⟩
  refine Related.ite (fun _ => ?_) fun hNumber => ?_
  · exact Related.fail_bind trivial (S.positions_mono hLater _ _ hStart)
  · obtain rfl := Decidable.not_not.mp hNumber
    refine Related.eat_bind .opening (fun w₂ hLater' hSame => ?_)
      fun _ _ => Related.failHere_bind trivial
    refine S.related_define (hSame _ hCounts) fun w₃ hLater'' => ?_
    have hLater₃ := S.later_trans hLater (S.later_trans hLater' hLater'')
    exact S.found_of_within (hSub.later hLater₃).fields

theorem crossedElement (form : String) (allowed : TypeClass → Bool) :
    S.Related w .within (crossedElement F sub form allowed) (crossedElement G sub' form allowed)
      fun w' p a b => p = .marked ∧ S.Handles w' a b := by
  refine Related.bind_still (S.related_here w _) fun start start' hStart => ?_
  apply S.related_bind (hSub.elementType (by trivial))
  rintro w₁ _ a b hLater ⟨rfl, hKnown⟩
  refine S.found_of_within (Related.bind_still (S.related_classOf hKnown) ?_)
  rintro found _ rfl
  refine Related.ite (fun _ => ?_) fun _ =>
    Related.fail_bind trivial (S.positions_mono hLater _ _ hStart)
  refine Related.eat_bind .cross (fun w₂ hLater' _ => ?_) fun _ _ => Related.failHere_bind trivial
  exact S.related_pure ⟨rfl, S.handles_mono hLater' _ _ hKnown⟩

theorem array : S.Related w .within (array F sub) (array G sub') S.Typed := by
  apply S.related_bind (hSub.crossedElement _ _)
  rintro w₁ _ a b - ⟨rfl, hKnown⟩
  refine Related.bind_still (S.related_here w₁ _) fun start start' hStart => ?_
  apply S.related_bind (S.related_number w₁ .marked (by trivial))
  rintro w₂ _ count _ hLater ⟨rfl, rfl⟩
  apply S.found_of_within
  apply S.related_bind (Related.close .bracket)
  rintro w₃ _ _ _ hLater' rfl
  have hLater₃ := S.later_trans hLater hLater'
  refine Related.ite (fun _ => ?_) fun _ => ?_
  · exact Related.fail_bind trivial (S.positions_mono hLater₃ _ _ hStart)
  · exact S.related_request (.array _ (S.handles_mono hLater₃ _ _ hKnown))

theorem vector : S.Related w .within (vector F sub) (vector G sub') S.Typed := by
  apply S.related_bind (hSub.crossedElement _ _)
  rintro w₁ _ a b - ⟨rfl, hKnown⟩
  refine Related.bind_still (S.related_here w₁ _) fun start start' hStart => ?_
  apply S.related_bind (S.related_number w₁ .marked (by trivial))
  rintro w₂ _ count _ hLater ⟨rfl, rfl⟩
  refine Related.ite (fun _ => ?_) fun _ => ?_
  · exact Related.fail_bind trivial (S.positions_mono hLater _ _ hStart)
  · apply S.found_of_within
    apply S.related_bind (Related.close .greater)
    rintro w₃ _ _ _ hLater' rfl
    exact S.related_request
      (.vector _ (S.handles_mono (S.later_trans hLater hLater') _ _ hKnown))

theorem pointer : S.Related w .within (pointer F sub) (pointer G sub') S.Typed := by
  apply S.related_bind (hSub.elementType (by trivial))
  rintro w₁ _ a b - ⟨rfl, hKnown⟩
  exact S.related_request (.pointer hKnown)

theorem function : S.Related w .within (function F sub) (function G sub') S.Typed := by
  apply S.related_bind (hSub.sequence .paren)
  rintro w₁ _ ps qs - ⟨rfl, hElements⟩
  have hReverse := List.rel_reverse hElements
  generalize ps.reverse = ps at hReverse ⊢
  generalize qs.reverse = qs at hReverse ⊢
  cases hReverse with
  | nil => exact Related.failHere trivial
  | cons hLast hBefore =>
    cases hBefore with
    | nil => exact Related.failHere trivial
    | cons hNext hBefore =>
      apply (related_returned hLast).bind_still
      intro a b hReturned
      obtain ⟨hVariadic, hRest⟩ := splitVararg_matches (.cons hNext hBefore)
      apply (related_dropLoneVoid hRest).bind_still
      intro ps qs hParams
      apply (Related.mapM (List.rel_reverse hParams)
        fun p q => related_valued (by trivial) (by trivial)).bind_still
      intro as bs hHandles
      apply S.related_bind (Related.close .paren)
      rintro w₂ _ _ _ hLater rfl
      have hMono := S.handles_mono hLater
      exact S.related_request
        (.function (hHandles.imp hMono) (hMono _ _ hReturned) hVariadic)

end Elements

theorem related_type {w₀ : S.World} {p : Stage} {x : Parser σ H H} {y : Parser τ K K}
    (hBeyond : S.Beyond w₀ w) (h : S.Related w p x y S.Typed) :
    S.Related w p (do return some (.type (← x))) (do return some (.type (← y))) (S.Found w₀) := by
  apply h.map
  rintro w₁ _ a b hLater ⟨rfl, hKnown⟩
  exact .some (S.beyond_of_later hBeyond hLater) (.type hKnown)

theorem Elements.afterSymbol {w₀ : S.World} {sub : ElementParser σ H} {sub' : ElementParser τ K}
    (hSub : Elements w sub sub') (hBeyond : S.Beyond w₀ w) {start start' : Nat}
    (hStart : S.Positions w start start') {symbol symbol' : Symbol}
    (hSymbol : SameSymbol symbol symbol') :
    S.Related w (.after symbol) (afterSymbol F config sub start symbol)
      (afterSymbol G config' sub' start' symbol') (S.Found w₀) := by
  cases hSymbol with
  | letter hScalar =>
    rw [Parse.afterSymbol, Parse.afterSymbol, hScalar]
    exact related_type hBeyond (S.related_request (.scalar _))
  | refl =>
    cases symbol with
    | openBrace => exact related_type hBeyond (S.found_of_within hSub.record)
    | openBracket => exact related_type hBeyond (S.found_of_within hSub.array)
    | less => exact related_type hBeyond (S.found_of_within hSub.vector)
    | star => exact related_type hBeyond (S.found_of_within hSub.pointer)
    | openParen => exact related_type hBeyond (S.found_of_within hSub.function)
    | equals => exact related_type hBeyond hSub.definition
    | percent => exact related_type hBeyond (related_reference w)
    | ampersand => exact S.related_pure (.some hBeyond .vararg)
    | scalar letter => exact related_type hBeyond (S.related_request (.scalar _))
    | closeBrace | closeBracket | greater | closeParen | cross =>
      exact S.related_fail trivial hStart

theorem related_element {sub : ElementParser σ H} {sub' : ElementParser τ K}
    (hSub : ∀ w', S.Beyond w w' → Elements w' sub sub') :
    S.Related w .within (dispatch F config sub) (dispatch G config' sub') (S.Found w) :=
  S.related_dispatch (.none w) fun w' _ _ _ _ hBeyond hStart hSymbol =>
    (hSub w' hBeyond).afterSymbol hBeyond hStart hSymbol

theorem Elements.firstType
    (h : Elements w (element F config config.maxDepth) (element G config' config'.maxDepth)) :
    S.Related w .within (firstType F config) (firstType G config') S.Typed :=
  h.elementType trivial

end Simulation

end CompactType.Parse
