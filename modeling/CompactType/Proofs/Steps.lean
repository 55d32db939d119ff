import CompactType.Parse.Run

/-!
# Runs of composed parsers

What a run of a composed parser consists of. An element is a symbol and the form that it opens;
a composed run that ends well is made of runs that do.
-/

set_option autoImplicit false

namespace CompactType.Parse

variable {σ H α β : Type}

/-- What is read after the first symbol of an element. -/
def afterSymbol (F : Factory σ H) (config : Config) (sub : ElementParser σ H) (start : Nat) :
    Symbol → Parser σ H (Option (Element H))
  | .openBrace => return some (.type (← record F sub))
  | .openBracket => return some (.type (← array F sub))
  | .less => return some (.type (← vector F sub))
  | .star => return some (.type (← pointer F sub))
  | .openParen => return some (.type (← function F sub))
  | .equals => return some (.type (← definition F config sub))
  | .percent => return some (.type (← reference))
  | .ampersand => return some .vararg
  | .scalar letter => return some (.type (← request F (.scalar letter.scalar)))
  | .closeBrace => fail (.unexpectedChar '}') start
  | .closeBracket => fail (.unexpectedChar ']') start
  | .greater => fail (.unexpectedChar '>') start
  | .closeParen => fail (.unexpectedChar ')') start
  | .cross => fail (.unexpectedChar 'x') start

def State.afterRead (s : State σ H) (symbol : Symbol) (rest : List Char) : State σ H :=
  { s with
    cursor := ⟨s.cursor.pos + 1, rest⟩
    journal := s.journal.push (.symbol symbol s.cursor.pos) }

theorem run_dispatch_nil (F : Factory σ H) (config : Config) (sub : ElementParser σ H)
    {s : State σ H} (h : s.cursor.rest = []) : (dispatch F config sub).run s = .ok none s := by
  obtain ⟨⟨pos, rest⟩, opened, store, journal⟩ := s
  obtain rfl : rest = [] := h
  rfl

theorem run_dispatch_unknown (F : Factory σ H) (config : Config) (sub : ElementParser σ H)
    {s : State σ H} {c : Char} {rest : List Char} (h : s.cursor.rest = c :: rest)
    (hc : Symbol.ofChar? c = none) :
    (dispatch F config sub).run s = .error ⟨.unexpectedChar c, s.cursor.pos⟩ s := by
  have hPeek : peek?.run s = .ok (some c) s := by
    rw [peek?, EStateM.run_bind, EStateM.run_get]
    exact congrArg (EStateM.Result.ok · s) (congrArg List.head? h)
  simp only [dispatch, EStateM.run_bind, hPeek, run_here, hc, run_fail]

theorem run_dispatch_symbol (F : Factory σ H) (config : Config) (sub : ElementParser σ H)
    {s : State σ H} {symbol : Symbol} {rest : List Char}
    (h : s.cursor.rest = symbol.char :: rest) :
    (dispatch F config sub).run s =
      (afterSymbol F config sub s.cursor.pos symbol).run (s.afterRead symbol rest) := by
  obtain ⟨⟨pos, _⟩, opened, store, journal⟩ := s
  obtain rfl : _ = symbol.char :: rest := h
  cases symbol with
  | scalar letter => cases letter <;> rfl
  | _ => rfl

/-- How a parser for elements runs, by what stands in front of it. -/
inductive Dispatches (F : Factory σ H) (config : Config) (sub : ElementParser σ H)
    (s : State σ H) : EStateM.Result Fault (State σ H) (Option (Element H)) → Prop where
  | nothing : s.cursor.rest = [] → Dispatches F config sub s (.ok none s)
  | unknown {c : Char} {rest : List Char} :
    s.cursor.rest = c :: rest → Symbol.ofChar? c = none →
    Dispatches F config sub s (.error ⟨.unexpectedChar c, s.cursor.pos⟩ s)
  | symbol {symbol : Symbol} {rest : List Char} :
    s.cursor.rest = symbol.char :: rest →
    Dispatches F config sub s
      ((afterSymbol F config sub s.cursor.pos symbol).run (s.afterRead symbol rest))

theorem dispatches (F : Factory σ H) (config : Config) (sub : ElementParser σ H)
    (s : State σ H) : Dispatches F config sub s ((dispatch F config sub).run s) := by
  cases hRest : s.cursor.rest with
  | nil =>
    rw [run_dispatch_nil F config sub hRest]
    exact .nothing hRest
  | cons c rest =>
    cases hSymbol : Symbol.ofChar? c with
    | none =>
      rw [run_dispatch_unknown F config sub hRest hSymbol]
      exact .unknown hRest hSymbol
    | some symbol =>
      rw [← Symbol.char_of_ofChar? hSymbol] at hRest
      rw [run_dispatch_symbol F config sub hRest]
      exact .symbol hRest

section FirstSteps

variable {F : Factory σ H} {s : State σ H}

theorem run_here_bind {f : Nat → Parser σ H β} : (here >>= f).run s = (f s.cursor.pos).run s := rfl

theorem run_looksAt_bind {c : Char} {f : Bool → Parser σ H β} :
    (looksAt c >>= f).run s = (f (s.cursor.looksAt c)).run s := rfl

theorem run_remaining_bind {f : Nat → Parser σ H β} :
    (remaining >>= f).run s = (f s.cursor.rest.length).run s := rfl

theorem run_atEnd_bind {f : Bool → Parser σ H β} :
    (atEnd >>= f).run s = (f s.cursor.atEnd).run s := rfl

theorem run_classOf_bind {handle : H} {f : TypeClass → Parser σ H β} :
    (classOf F handle >>= f).run s = (f (F.classOf s.store handle)).run s := rfl

theorem run_nextNumber_bind {f : Nat → Parser σ H β} :
    (nextNumber >>= f).run s = (f s.opened.size).run s := rfl

theorem run_opened?_bind {number : Nat} {f : Option H → Parser σ H β} :
    (opened? number >>= f).run s = (f s.opened[number]?).run s := rfl

theorem run_request_bind {r : Request H} {f : H → Parser σ H β} :
    (request F r >>= f).run s = (f (F.make r s.store).1).run
      { s with
        store := (F.make r s.store).2
        journal := s.journal.push (.call (.made r (F.make r s.store).1)) } := rfl

theorem run_register_bind {handle : H} {f : Unit → Parser σ H β} :
    (register handle >>= f).run s = (f ()).run { s with opened := s.opened.push handle } := rfl

theorem run_emit_bind {e : Event H} {f : Unit → Parser σ H β} :
    (emit e >>= f).run s = (f ()).run { s with journal := s.journal.push e } := rfl

end FirstSteps

/-- The type that the text starts with. -/
def firstType (F : Factory σ H) (config : Config) : Parser σ H H :=
  elementType (element F config config.maxDepth) .emptySpec

theorem run_whole (F : Factory σ H) (config : Config) (s : State σ H) :
    (whole F config).run s =
      match (firstType F config).run s with
      | .ok handle s' =>
        if s'.cursor.atEnd then .ok handle s' else .error ⟨.trailingInput, s'.cursor.pos⟩ s'
      | .error fault s' => .error fault s' := by
  change (firstType F config >>= _).run s = _
  rw [EStateM.run_bind]
  cases (firstType F config).run s with
  | error => rfl
  | ok handle s' =>
    simp only [run_atEnd_bind]
    cases s'.cursor.atEnd <;> rfl

theorem run_bind_eq_ok {x : Parser σ H α} {f : α → Parser σ H β} {s s' : State σ H} {b : β} :
    (x >>= f).run s = .ok b s' ↔ ∃ a s₁, x.run s = .ok a s₁ ∧ (f a).run s₁ = .ok b s' := by
  rw [EStateM.run_bind]
  cases x.run s with
  | ok a s₁ =>
    constructor
    · intro h
      exact ⟨a, s₁, rfl, h⟩
    · rintro ⟨_, _, ⟨⟩, h⟩
      exact h
  | error e s₁ =>
    constructor
    · rintro ⟨⟩
    · rintro ⟨_, _, ⟨⟩, _⟩

theorem run_map_eq_ok {x : Parser σ H α} {g : α → β} {s s' : State σ H} {b : β} :
    (do return g (← x) : Parser σ H β).run s = .ok b s' ↔ ∃ a, x.run s = .ok a s' ∧ g a = b := by
  rw [run_bind_eq_ok]
  constructor
  · rintro ⟨a, s₁, hx, ⟨⟩⟩
    exact ⟨a, hx, rfl⟩
  · rintro ⟨a, hx, rfl⟩
    exact ⟨a, s', hx, rfl⟩

theorem rest_eq_nil_of_dispatch {F : Factory σ H} {config : Config} {sub : ElementParser σ H}
    {s s' : State σ H} (h : (dispatch F config sub).run s = .ok none s') : s.cursor.rest = [] := by
  have hCases := dispatches F config sub s
  generalize (dispatch F config sub).run s = result at hCases h
  cases hCases with
  | nothing hRest => exact hRest
  | unknown => cases h
  | @symbol symbol rest =>
    cases symbol with
    | openBrace | openBracket | less | star | openParen | equals | percent | scalar =>
      obtain ⟨_, _, ⟨⟩⟩ := run_map_eq_ok.mp h
    | ampersand | closeBrace | closeBracket | greater | closeParen | cross => cases h

theorem run_bind_eq_error {x : Parser σ H α} {f : α → Parser σ H β} {s s' : State σ H}
    {fault : Fault} :
    (x >>= f).run s = .error fault s' ↔
      x.run s = .error fault s' ∨ ∃ a s₁, x.run s = .ok a s₁ ∧ (f a).run s₁ = .error fault s' := by
  rw [EStateM.run_bind]
  cases x.run s with
  | ok a s₁ =>
    constructor
    · intro h
      exact .inr ⟨a, s₁, rfl, h⟩
    · rintro (⟨⟨⟩⟩ | ⟨_, _, ⟨⟩, h⟩)
      exact h
  | error e s₁ =>
    constructor
    · rintro ⟨⟩
      exact .inl rfl
    · rintro (⟨⟨⟩⟩ | ⟨_, _, ⟨⟩, _⟩)
      rfl

theorem run_map_eq_error {x : Parser σ H α} {g : α → β} {s s' : State σ H} {fault : Fault}
    (h : (do return g (← x) : Parser σ H β).run s = .error fault s') :
    x.run s = .error fault s' := by
  obtain h | ⟨_, _, _, ⟨⟩⟩ := run_bind_eq_error.mp h
  exact h

/-- A parser that never ends well. -/
def Fails (x : Parser σ H α) : Prop := ∀ s a s', x.run s ≠ .ok a s'

theorem fails_fail (cause : Cause) (pos : Nat) : Fails (fail cause pos : Parser σ H α) := nofun

theorem fails_failHere (cause : Cause) : Fails (failHere cause : Parser σ H α) := nofun

theorem Fails.bind {x : Parser σ H α} (h : Fails x) (f : α → Parser σ H β) : Fails (x >>= f) := by
  intro s b s' hRun
  obtain ⟨a, s₁, hx, -⟩ := run_bind_eq_ok.mp hRun
  exact h s a s₁ hx

theorem run_ite_eq_ok {c : Prop} [Decidable c] {x y : Parser σ H α} {s s' : State σ H} {a : α}
    (hy : Fails y) (h : (if c then x else y).run s = .ok a s') : c ∧ x.run s = .ok a s' := by
  split at h
  · next hc => exact ⟨hc, h⟩
  · exact absurd h (hy s a s')

theorem run_ite_not_eq_ok {c : Prop} [Decidable c] {x y : Parser σ H α} {s s' : State σ H} {a : α}
    (hx : Fails x) (h : (if c then x else y).run s = .ok a s') : ¬c ∧ y.run s = .ok a s' := by
  split at h
  · exact absurd h (hx s a s')
  · next hc => exact ⟨hc, h⟩

end CompactType.Parse
