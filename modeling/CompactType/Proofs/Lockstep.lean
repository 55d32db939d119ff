import CompactType.Proofs.Tandem

/-!
# Parsers in lockstep

Two parses take the same steps if each step of one is a step of the other, from states at the same
level to states at the same level. What that means is left open: the texts may differ in spelling,
so that positions move, and the second factory may stop its parse by refusing a body. It is enough
to say it of the single steps.
-/

set_option autoImplicit false

namespace CompactType.Parse

variable {σ τ H α β γ δ : Type}

/-- What was read last, as far as it tells what comes next. -/
inductive Place where
  | within
  /-- Behind a character that a number follows. -/
  | marked
  /-- Behind a closing brace. -/
  | closed

def Place.behind (c : Char) : Place :=
  if c = '=' ∨ c = '%' ∨ c = 'x' then .marked else if c = '}' then .closed else .within

/-- Characters that are read in the same way: equal ones, and letters for the same scalar. -/
inductive Alike : Char → Char → Prop where
  | refl (c : Char) : Alike c c
  | letter {l l' : Letter} :
    l'.scalar = l.scalar → Alike (Symbol.scalar l).char (Symbol.scalar l').char

/-- The character is a symbol, but none for a scalar. -/
def Fixed (c : Char) : Prop := ∃ symbol : Symbol, symbol.char = c ∧ symbol.scalar? = none

theorem Fixed.utf8Size_eq {c : Char} (h : Fixed c) : c.utf8Size = 1 := by
  obtain ⟨symbol, rfl, -⟩ := h
  exact symbol.utf8Size_char

theorem Alike.beq_eq {c c' d : Char} (h : Alike c c') (hd : Fixed d) : (c' == d) = (c == d) := by
  have hNot (l : Letter) : ((Symbol.scalar l).char == d) = false := by
    obtain ⟨symbol, rfl, hScalar⟩ := hd
    refine beq_eq_false_iff_ne.mpr fun hChar => ?_
    obtain rfl := Symbol.char_injective hChar
    cases hScalar
  cases h with
  | refl => rfl
  | letter => rw [hNot, hNot]

/-- The steps of two parses, of which the second one can be stopped by its factory. -/
structure Lockstep (F : Factory σ H) (G : Factory τ H) where
  /-- Where a position of the first text is in the second one. -/
  move : Nat → Nat
  Level : Place → State σ H → State τ H → Prop
  /-- The second parse was stopped by a fault while the first one went on to the state. -/
  Stopped : State σ H → Fault → State τ H → Prop
  stopped_mono {s s' : State σ H} {fault : Fault} {t : State τ H} : Stopped s fault t →
    Journal.calls s.journal <+: Journal.calls s'.journal → Stopped s' fault t
  pos_eq {place : Place} {s : State σ H} {t : State τ H} :
    Level place s t → t.cursor.pos = move s.cursor.pos
  opened_eq {place : Place} {s : State σ H} {t : State τ H} :
    Level place s t → t.opened = s.opened
  forget {s : State σ H} {t : State τ H} : Level .closed s t → Level .within s t
  heads {s : State σ H} {t : State τ H} :
    Level .within s t → Option.Rel Alike s.cursor.peek? t.cursor.peek?
  eat {s : State σ H} {t : State τ H} {c : Char} {rest rest' : List Char} :
    Level .within s t → Fixed c → s.cursor.rest = c :: rest → t.cursor.rest = c :: rest' →
    Level (.behind c) { s with cursor := ⟨s.cursor.pos + 1, rest⟩ }
      { t with cursor := ⟨t.cursor.pos + 1, rest'⟩ }
  read {s : State σ H} {t : State τ H} {symbol symbol' : Symbol} {rest rest' : List Char} :
    Level .within s t → s.cursor.rest = symbol.char :: rest →
    t.cursor.rest = symbol'.char :: rest' →
    Level (.behind symbol.char) (s.afterRead symbol rest) (t.afterRead symbol' rest')
  digits {s : State σ H} {t : State τ H} : Level .marked s t →
    ((t.cursor.takeRun Char.isDigit).1 = [] ↔ (s.cursor.takeRun Char.isDigit).1 = []) ∧
    Nat.ofDigitChars 10 (t.cursor.takeRun Char.isDigit).1 0 =
      Nat.ofDigitChars 10 (s.cursor.takeRun Char.isDigit).1 0 ∧
    Level .within { s with cursor := (s.cursor.takeRun Char.isDigit).2 }
      { t with cursor := (t.cursor.takeRun Char.isDigit).2 }
  assigned {s : State σ H} {t : State τ H} (number : Nat) (name : String) : Level .within s t →
    Level .within { s with journal := s.journal.push (.assigned number name) }
      { t with journal := t.journal.push (.assigned number name) }
  register {s : State σ H} {t : State τ H} (handle : H) : Level .within s t →
    Level .within { s with opened := s.opened.push handle }
      { t with opened := t.opened.push handle }
  classOf {s : State σ H} {t : State τ H} (handle : H) :
    Level .within s t → G.classOf t.store handle = F.classOf s.store handle
  make {s : State σ H} {t : State τ H} (r : Request H) : Level .within s t →
    (G.make r t.store).1 = (F.make r s.store).1 ∧
    Level .within
      { s with
        store := (F.make r s.store).2
        journal := s.journal.push (.call (.made r (F.make r s.store).1)) }
      { t with
        store := (G.make r t.store).2
        journal := t.journal.push (.call (.made r (F.make r s.store).1)) }
  setBody {s s' : State σ H} {t t' : State τ H} (handle : H) (fields : List H) :
    Level .closed s t →
    s' = { s with
      store := (F.setBody handle fields s.store).2
      journal := s.journal.push (.call (.body handle fields)) } →
    t' = { t with
      store := (G.setBody handle fields t.store).2
      journal := t.journal.push (.call (.body handle fields)) } →
    (G.setBody handle fields t.store).1 = (F.setBody handle fields s.store).1 ∧
        Level .within s' t' ∨
      ∃ refusal, (G.setBody handle fields t.store).1 = .error refusal ∧
        Stopped s' ⟨.factory refusal, t'.cursor.pos⟩ t'

variable {F : Factory σ H} {G : Factory τ H}

/-- Where parsers in lockstep are when they are at the stage. -/
def Stage.place : Stage → Place
  | .heading | .marked => .marked
  | .closed => .closed
  | .within | .found | .numbered => .within

theorem Stage.place_after (symbol : Symbol) : (Stage.after symbol).place = .behind symbol.char := by
  cases symbol with
  | scalar letter => cases letter <;> rfl
  | _ => rfl

/-- How two runs end: both well, both with the same fault, or the second one is stopped. -/
inductive Lockstep.Ends (L : Lockstep F G) (answers : Stage → α → β → Prop) :
    EStateM.Result Fault (State σ H) α → EStateM.Result Fault (State τ H) β → Prop where
  | ok (p : Stage) {a : α} {b : β} {s : State σ H} {t : State τ H} :
    L.Level p.place s t → answers p a b → Ends L answers (.ok a s) (.ok b t)
  | error {cause : Cause} {pos : Nat} {place : Place} {s : State σ H} {t : State τ H} :
    L.Level place s t → Ends L answers (.error ⟨cause, pos⟩ s) (.error ⟨cause, L.move pos⟩ t)
  | stopped {left : EStateM.Result Fault (State σ H) α} {fault : Fault} {t : State τ H} :
    L.Stopped (final left) fault t → Ends L answers left (.error fault t)

/-- Two parsers go in lockstep from the stage on. -/
structure InStep (L : Lockstep F G) (p : Stage) (x : Parser σ H α) (y : Parser τ H β)
    (answers : Stage → α → β → Prop) : Prop where
  ends : ∀ s t, L.Level p.place s t → L.Ends answers (x.run s) (y.run t)
  grows : Grows x fun a => ∃ q b, answers q a b

namespace InStep

variable {L : Lockstep F G} {p q : Stage} {x : Parser σ H α} {y : Parser τ H β}
  {f : α → Parser σ H γ} {g : β → Parser τ H δ} {answers : Stage → α → β → Prop}
  {answers' : Stage → γ → δ → Prop}

theorem bind (hx : InStep L p x y answers)
    (hf : ∀ q a b, answers q a b → InStep L q (f a) (g b) answers') :
    InStep L p (x >>= f) (y >>= g) answers' where
  ends s t h := by
    have hFirst := hx.ends s t h
    have hGrows := (hx.grows s).2
    rw [EStateM.run_bind, EStateM.run_bind]
    generalize x.run s = left at hFirst hGrows ⊢
    generalize y.run t = right at hFirst ⊢
    cases hFirst with
    | ok _ hLevel hAnswers => exact (hf _ _ _ hAnswers).ends _ _ hLevel
    | error hLevel => exact .error hLevel
    | stopped hStopped =>
      refine .stopped (L.stopped_mono hStopped ?_)
      cases left with
      | error => exact List.prefix_rfl
      | ok a s =>
        obtain ⟨_, _, hAnswers⟩ := hGrows a s rfl
        exact ((hf _ _ _ hAnswers).grows s).1
  grows := hx.grows.bind fun a ⟨_, _, hAnswers⟩ => (hf _ _ _ hAnswers).grows

theorem pure {a : α} {b : β} (h : answers p a b) : InStep L p (pure a) (pure b) answers :=
  ⟨fun _ _ hLevel => .ok p hLevel h, Grows.pure ⟨p, b, h⟩⟩

theorem fail (cause : Cause) (pos : Nat) :
    InStep L p (fail cause pos) (fail cause (L.move pos)) answers :=
  ⟨fun _ _ hLevel => .error hLevel, Grows.fail _ _⟩

theorem register (handle : H) :
    InStep L .found (register handle) (register handle) fun q _ _ => q = .found where
  ends _ _ h := .ok .found (L.register handle h) rfl
  grows := Grows.quiet fun _ => ⟨_, _, rfl, rfl, .found, (), rfl⟩

theorem assigned (number : Nat) (name : String) :
    InStep L .found (emit (.assigned number name)) (emit (.assigned number name))
      fun q _ _ => q = .found where
  ends _ _ h := .ok .found (L.assigned number name h) rfl
  grows := Grows.note (e := fun _ _ => .assigned number name) fun _ =>
    ⟨_, _, rfl, rfl, .found, (), rfl⟩

theorem request (r : Request H) :
    InStep L .found (request F r) (request G r) fun q a b => q = .found ∧ a = b where
  ends s t h := by
    obtain ⟨hAnswer, hLevel⟩ := L.make r h
    rw [run_request, run_request]
    simp only [hAnswer]
    exact .ok .found hLevel ⟨rfl, rfl⟩
  grows := Grows.request fun a => ⟨.found, a, rfl, rfl⟩

theorem complete (handle : H) (fields : List H) :
    InStep L .closed (complete F handle fields) (complete G handle fields)
      fun q _ _ => q = .found where
  ends s t h := by
    rw [run_complete, run_complete]
    simp only
    obtain ⟨hAnswer, hLevel⟩ | ⟨refusal, hRefused, hStopped⟩ :=
      L.setBody handle fields h rfl rfl
    · rw [hAnswer]
      split
      · exact .ok .found hLevel rfl
      · rw [L.pos_eq h]
        exact .error hLevel
    · rw [hRefused]
      refine .stopped ?_
      split
      · exact hStopped
      · exact hStopped
  grows := (Grows.complete _ _ _).weaken fun _ _ => ⟨.found, (), rfl⟩

theorem define {number : Nat} {name : String} {x : Parser σ H (List H)} {y : Parser τ H (List H)}
    (hx : InStep L .found x y fun q as bs => q = .closed ∧ List.Forall₂ Eq as bs) :
    InStep L .found
      (do
        let handle ← Parse.request F (.declare name)
        Parse.register handle
        emit (.assigned number name)
        Parse.complete F handle (← x)
        return handle)
      (do
        let handle ← Parse.request G (.declare name)
        Parse.register handle
        emit (.assigned number name)
        Parse.complete G handle (← y)
        return handle)
      fun q a b => q = .found ∧ a = b := by
  apply (request (.declare name)).bind
  rintro _ handle _ ⟨rfl, rfl⟩
  apply (register handle).bind
  rintro _ _ _ rfl
  apply (assigned number name).bind
  rintro _ _ _ rfl
  apply hx.bind
  rintro _ fields _ ⟨rfl, hFields⟩
  obtain rfl := List.forall₂_eq_eq_eq ▸ hFields
  apply (complete handle fields).bind
  rintro _ _ _ rfl
  exact pure ⟨rfl, rfl⟩

theorem exists_heads {s : State σ H} {t : State τ H} (h : L.Level .within s t) :
    (s.cursor.rest = [] ∧ t.cursor.rest = []) ∨ ∃ c c' rest rest',
      s.cursor.rest = c :: rest ∧ t.cursor.rest = c' :: rest' ∧ Alike c c' := by
  have hHeads := L.heads h
  unfold Cursor.peek? at hHeads
  generalize s.cursor.rest = left at hHeads ⊢
  generalize t.cursor.rest = right at hHeads ⊢
  cases left with
  | nil =>
    cases right with
    | nil => exact .inl ⟨rfl, rfl⟩
    | cons => cases hHeads
  | cons c rest =>
    cases right with
    | nil => cases hHeads
    | cons c' rest' =>
      cases hHeads with
      | some hAlike => exact .inr ⟨c, c', rest, rest', rfl, rfl, hAlike⟩

theorem looksAt_eq {c : Char} (hc : Fixed c) {s : State σ H} {t : State τ H}
    (h : L.Level .within s t) : t.cursor.looksAt c = s.cursor.looksAt c := by
  unfold Cursor.looksAt Cursor.peek?
  obtain ⟨hLeft, hRight⟩ | ⟨a, a', rest, rest', hLeft, hRight, hAlike⟩ := exists_heads h
  · rw [hLeft, hRight]
  · rw [hLeft, hRight]
    exact hAlike.beq_eq hc

theorem atEnd_eq {s : State σ H} {t : State τ H} (h : L.Level .within s t) :
    t.cursor.atEnd = s.cursor.atEnd := by
  unfold Cursor.atEnd
  obtain ⟨hLeft, hRight⟩ | ⟨a, a', rest, rest', hLeft, hRight, -⟩ := exists_heads h
  · rw [hLeft, hRight]
  · rw [hLeft, hRight]
    rfl

theorem eat {c : Char} {answers : Stage → Bool → Bool → Prop} (hc : Fixed c)
    (hPlace : p.place = .within) (hBehind : q.place = .behind c) (hFound : answers q true true)
    (hMissing : answers p false false) : InStep L p (eat c) (eat c) answers := by
  have hAnswers (found : Bool) : ∃ q b, answers q found b := by
    cases found with
    | true => exact ⟨q, true, hFound⟩
    | false => exact ⟨p, false, hMissing⟩
  refine ⟨fun s t h => ?_, Grows.quiet fun s => ⟨_, _, rfl, rfl, hAnswers _⟩⟩
  have hLevel := hPlace ▸ h
  have hLooks := looksAt_eq hc hLevel
  rw [run_eat, run_eat]
  simp only [Cursor.eat, hLooks]
  split
  · next hFinds =>
    have hRest {d : Cursor Char} (hd : d.looksAt c = true) : ∃ rest, d.rest = c :: rest := by
      rw [Cursor.looksAt, beq_iff_eq, Cursor.peek?] at hd
      exact List.head?_eq_some_iff.mp hd
    obtain ⟨rest, hLeft⟩ := hRest hFinds
    obtain ⟨rest', hRight⟩ := hRest (hLooks.trans hFinds)
    simp only [Cursor.advance, hLeft, hRight]
    exact .ok q (hBehind ▸ L.eat hLevel hc hLeft hRight) hFound
  · exact .ok p h hMissing

theorem number {limit : Nat} {cause : Cause} {answers : Stage → Nat → Nat → Prop}
    (hPlace : p.place = .marked) (hBehind : q.place = .within) (h : ∀ n, answers q n n) :
    InStep L p (number limit cause) (number limit cause) answers where
  ends s t hLevel := by
    rw [hPlace] at hLevel
    obtain ⟨hNone, hValue, hLevel'⟩ := L.digits hLevel
    rw [run_number, run_number]
    simp only [hNone, hValue, L.pos_eq hLevel]
    split
    · exact .error hLevel'
    · exact .ok q (hBehind ▸ hLevel') (h _)
  grows := Grows.number fun n => ⟨q, n, h n⟩

theorem dispatch {config : Config} {sub : ElementParser σ H} {sub' : ElementParser τ H}
    {answers : Stage → Option (Element H) → Option (Element H) → Prop}
    (hNone : answers .within none none)
    (hSome : ∀ start symbol symbol', SameSymbol symbol symbol' → InStep L (.after symbol)
      (afterSymbol F config sub start symbol) (afterSymbol G config sub' (L.move start) symbol')
      answers) :
    InStep L .within (dispatch F config sub) (dispatch G config sub') answers where
  ends s t h := by
    have hAfter {symbol symbol' : Symbol} {rest rest' : List Char}
        (hSymbol : SameSymbol symbol symbol') (hLeft : s.cursor.rest = symbol.char :: rest)
        (hRight : t.cursor.rest = symbol'.char :: rest') :
        L.Ends answers ((Parse.dispatch F config sub).run s)
          ((Parse.dispatch G config sub').run t) := by
      rw [run_dispatch_symbol _ _ _ hLeft, run_dispatch_symbol _ _ _ hRight, L.pos_eq h]
      exact (hSome _ symbol symbol' hSymbol).ends _ _
        (Stage.place_after symbol ▸ L.read h hLeft hRight)
    obtain ⟨hLeft, hRight⟩ | ⟨c, c', rest, rest', hLeft, hRight, hAlike⟩ := exists_heads h
    · rw [run_dispatch_nil _ _ _ hLeft, run_dispatch_nil _ _ _ hRight]
      exact .ok .within h hNone
    · cases hAlike with
      | letter hScalar => exact hAfter (.letter hScalar) hLeft hRight
      | refl =>
        cases hSymbol : Symbol.ofChar? c with
        | none =>
          rw [run_dispatch_unknown _ _ _ hLeft hSymbol, run_dispatch_unknown _ _ _ hRight hSymbol,
            L.pos_eq h]
          exact .error h
        | some symbol =>
          rw [← Symbol.char_of_ofChar? hSymbol] at hLeft hRight
          exact hAfter (.refl symbol) hLeft hRight
  grows := Grows.dispatch ⟨_, _, hNone⟩ fun start symbol =>
    (hSome start symbol symbol (.refl symbol)).grows

end InStep

theorem Stage.Eats.fixed {p q : Stage} {c : Char} (h : p.Eats c q) : Fixed c := by
  cases h with
  | opening => exact ⟨.openBrace, rfl, rfl⟩
  | closing => exact ⟨.closeBrace, rfl, rfl⟩
  | bracket => exact ⟨.closeBracket, rfl, rfl⟩
  | greater => exact ⟨.greater, rfl, rfl⟩
  | paren => exact ⟨.closeParen, rfl, rfl⟩
  | cross => exact ⟨.cross, rfl, rfl⟩

theorem Stage.Eats.place_eq {p q : Stage} {c : Char} (h : p.Eats c q) :
    p.place = .within ∧ q.place = .behind c := by
  cases h <;> exact ⟨rfl, rfl⟩

theorem Stage.Numbers.place_eq {p q : Stage} (h : p.Numbers q) :
    p.place = .marked ∧ q.place = .within := by
  cases h <;> exact ⟨rfl, rfl⟩

def stepping (L : Lockstep F G) (config : Config) : Simulation F G config config where
  World := Unit
  Later _ _ := True
  Beyond _ _ := True
  Handles _ a b := a = b
  Positions _ pos pos' := pos' = L.move pos
  Counts _ _ := True
  Related _ p x y answers := InStep L p x y (answers ())
  later_refl _ := trivial
  later_trans _ _ := trivial
  later_of_beyond _ := trivial
  beyond_of_later _ _ := trivial
  handles_mono _ := le_rfl
  positions_mono _ := le_rfl
  related_pure := InStep.pure
  related_bind hx hf := hx.bind fun q a b hAnswers => hf () q a b trivial hAnswers
  related_fail _ hPos := hPos ▸ InStep.fail _ _
  related_limit hLeft hRight hRelated :=
    { ends := fun s t h => by
        obtain ⟨n, hRun⟩ := hLeft s
        obtain ⟨n', hRun'⟩ := hRight t
        have hEnds := (hRelated (max n n')).ends s t h
        rwa [hRun _ (le_max_left n n'), hRun' _ (le_max_right n n')] at hEnds
      grows := Grows.limit hLeft fun n => (hRelated n).grows }
  found_of_within h := ⟨h.ends, h.grows⟩
  closed_of_found h := ⟨fun s t hLevel => h.ends s t (L.forget hLevel), h.grows⟩
  related_here _ p :=
    { ends := fun s t h => .ok p h ⟨rfl, rfl, L.pos_eq h⟩
      grows := Grows.quiet fun _ => ⟨_, _, rfl, rfl, p, _, rfl, rfl, rfl⟩ }
  related_nextNumber _ p :=
    { ends := fun s t h =>
        .ok p h ⟨rfl, rfl, congrArg Array.size (L.opened_eq h).symm, trivial⟩
      grows := Grows.quiet fun _ => ⟨_, _, rfl, rfl, p, _, rfl, rfl, rfl, trivial⟩ }
  related_opened? _ _ :=
    { ends := fun s t h => .ok .found h ⟨rfl, rfl, L.opened_eq h ▸ optionRel_refl (fun _ => rfl) _⟩
      grows := Grows.quiet fun _ =>
        ⟨_, _, rfl, rfl, .found, _, rfl, rfl, optionRel_refl (fun _ => rfl) _⟩ }
  related_classOf {_ a b} hKnown := by
    obtain rfl : a = b := hKnown
    exact ⟨fun s t h => .ok .within h ⟨rfl, rfl, (L.classOf a h).symm⟩,
      Grows.quiet fun _ => ⟨_, _, rfl, rfl, .within, _, rfl, rfl, rfl⟩⟩
  related_looksAt _ h :=
    { ends := fun s t hLevel =>
        .ok .within hLevel ⟨rfl, rfl, (InStep.looksAt_eq h.fixed hLevel).symm⟩
      grows := Grows.quiet fun _ => ⟨_, _, rfl, rfl, .within, _, rfl, rfl, rfl⟩ }
  related_eat _ h :=
    InStep.eat h.fixed h.place_eq.1 h.place_eq.2 ⟨rfl, rfl, le_rfl⟩ ⟨rfl, rfl, le_rfl⟩
  related_number _ h _ := InStep.number h.place_eq.1 h.place_eq.2 fun _ => ⟨rfl, rfl⟩
  related_request hRequest := by
    obtain rfl := hRequest.eq le_rfl
    exact InStep.request _
  related_define _ hx := InStep.define (hx () trivial)
  related_dispatch hNone hSome :=
    InStep.dispatch hNone fun start symbol symbol' hSymbol =>
      hSome () start _ symbol symbol' trivial rfl hSymbol

theorem stepping_elements (L : Lockstep F G) (config : Config) (depth : Nat) :
    Simulation.Elements (S := stepping L config) () (element F config depth)
      (element G config depth) := by
  refine ⟨fun _ _ => ?_, progresses_element _ _ _, progresses_element _ _ _⟩
  induction depth with
  | zero =>
    refine ⟨fun s t h => ?_, fun _ => ⟨List.prefix_rfl, nofun⟩⟩
    rw [element_zero, element_zero, run_failHere, run_failHere, L.pos_eq h]
    exact .error h
  | succ depth ih =>
    refine Simulation.related_element fun _ _ => ?_
    exact ⟨fun _ _ => ih, progresses_element _ _ _, progresses_element _ _ _⟩

theorem ends_whole (L : Lockstep F G) (config : Config) {s : State σ H} {t : State τ H}
    (h : L.Level .within s t) :
    L.Ends (fun p a b => p = .found ∧ a = b) ((whole F config).run s)
      ((whole G config).run t) := by
  have hEnds := (stepping_elements L config config.maxDepth).firstType.ends s t h
  rw [run_whole, run_whole]
  generalize (firstType F config).run s = left at hEnds ⊢
  generalize (firstType G config).run t = right at hEnds ⊢
  cases hEnds with
  | error hLevel => exact .error hLevel
  | stopped hStopped =>
    refine .stopped ?_
    cases left with
    | error => exact hStopped
    | ok a s' =>
      simp only
      split
      · exact hStopped
      · exact hStopped
  | @ok _ a b s' t' hLevel hAnswers =>
    obtain ⟨rfl, hHandle⟩ := hAnswers
    simp only [InStep.atEnd_eq hLevel, L.pos_eq hLevel]
    split
    · exact .ok .found hLevel ⟨rfl, hHandle⟩
    · exact .error hLevel

end CompactType.Parse
