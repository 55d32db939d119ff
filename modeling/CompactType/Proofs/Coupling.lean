import CompactType.Proofs.Forward

/-!
# Two factories side by side

The same text is parsed with two factories. A coupling says which handles of the two stand for the
same type, and that requests on such handles keep to it. Both runs then come to the same end.
-/

set_option autoImplicit false

namespace CompactType

variable {σ τ H K : Type}

structure Coupling (F : Factory σ H) (G : Factory τ K) where
  /-- The stores correspond. The relation holds of handles that stand for the same type; the list
  has the structs that wait for a body, the innermost first. -/
  Rel : (H → K → Prop) → List (H × K) → σ → τ → Prop
  classOf {known : H → K → Prop} {waiting : List (H × K)} {s : σ} {t : τ} {a : H} {b : K} :
    Rel known waiting s t → known a b → F.classOf s a = G.classOf t b
  make {known : H → K → Prop} {waiting : List (H × K)} {s : σ} {t : τ} {p : Request H}
    {q : Request K} :
    Rel known waiting s t → p.Matches known q →
    ∃ known', known ≤ known' ∧ Rel known' waiting (F.make p s).2 (G.make q t).2 ∧
      known' (F.make p s).1 (G.make q t).1
  declare {known : H → K → Prop} {waiting : List (H × K)} {s : σ} {t : τ} (name : String) :
    Rel known waiting s t →
    ∃ known', known ≤ known' ∧
      Rel known' (((F.make (.declare name) s).1, (G.make (.declare name) t).1) :: waiting)
        (F.make (.declare name) s).2 (G.make (.declare name) t).2 ∧
      known' (F.make (.declare name) s).1 (G.make (.declare name) t).1
  setBody {known : H → K → Prop} {waiting : List (H × K)} {s : σ} {t : τ} {a : H} {b : K}
    {as : List H} {bs : List K} :
    Rel known ((a, b) :: waiting) s t → List.Forall₂ known as bs →
    (F.setBody a as s).1 = (G.setBody b bs t).1 ∧
      ∃ known' waiting', known ≤ known' ∧
        Rel known' waiting' (F.setBody a as s).2 (G.setBody b bs t).2 ∧
        ((F.setBody a as s).1 = .ok () → waiting' = waiting)

theorem forall₂_getElem? {known : H → K → Prop} {as : List H} {bs : List K}
    (h : List.Forall₂ known as bs) (i : Nat) : Option.Rel known as[i]? bs[i]? := by
  induction h generalizing i with
  | nil => exact .none
  | cons hHead _ ih =>
    cases i with
    | zero => exact .some hHead
    | succ i => exact ih i

namespace Parse

variable {α β γ δ : Type}

variable {F : Factory σ H} {G : Factory τ K}

/-- Parse states at the same place, with corresponding stores and defined structs. -/
structure Linked (C : Coupling F G) (known : H → K → Prop) (waiting : List (H × K))
    (s : State σ H) (t : State τ K) : Prop where
  cursor_eq : s.cursor = t.cursor
  opened : List.Forall₂ known s.opened.toList t.opened.toList
  rel : C.Rel known waiting s.store t.store

/-- Both runs end well, or both fail with the same fault. -/
inductive Ends (C : Coupling F G) (known : H → K → Prop) (waiting : List (H × K))
    (answers : (H → K → Prop) → α → β → Prop) :
    EStateM.Result Fault (State σ H) α → EStateM.Result Fault (State τ K) β → Prop where
  | ok {known' : H → K → Prop} {a : α} {b : β} {s : State σ H} {t : State τ K} :
    known ≤ known' → Linked C known' waiting s t → answers known' a b →
    Ends C known waiting answers (.ok a s) (.ok b t)
  | error {known' : H → K → Prop} {waiting' : List (H × K)} {fault : Fault} {s : State σ H}
    {t : State τ K} :
    Linked C known' waiting' s t → Ends C known waiting answers (.error fault s) (.error fault t)

theorem Ends.weaken {C : Coupling F G} {known known' : H → K → Prop} {waiting : List (H × K)}
    {answers : (H → K → Prop) → α → β → Prop} {left : EStateM.Result Fault (State σ H) α}
    {right : EStateM.Result Fault (State τ K) β} (hLe : known ≤ known')
    (h : Ends C known' waiting answers left right) : Ends C known waiting answers left right := by
  cases h with
  | ok hLe' hLinked hAnswers => exact .ok (hLe.trans hLe') hLinked hAnswers
  | error hLinked => exact .error hLinked

/-- From linked states the two parsers come to the same end. -/
def Tied (C : Coupling F G) (known : H → K → Prop) (before after : List (H × K))
    (x : Parser σ H α) (y : Parser τ K β) (answers : (H → K → Prop) → α → β → Prop) : Prop :=
  ∀ s t, Linked C known before s t → Ends C known after answers (x.run s) (y.run t)

namespace Tied

variable {C : Coupling F G} {known : H → K → Prop} {waiting before between after : List (H × K)}
  {x : Parser σ H α} {y : Parser τ K β} {f : α → Parser σ H γ} {g : β → Parser τ K δ}
  {answers : (H → K → Prop) → α → β → Prop} {answers' : (H → K → Prop) → γ → δ → Prop}

theorem bind (hFirst : Tied C known before between x y answers)
    (hSecond : ∀ known₁ a b, known ≤ known₁ → answers known₁ a b →
      Tied C known₁ between after (f a) (g b) answers') :
    Tied C known before after (x >>= f) (y >>= g) answers' := by
  intro s t h
  have hEnds := hFirst s t h
  rw [EStateM.run_bind, EStateM.run_bind]
  generalize x.run s = left at hEnds ⊢
  generalize y.run t = right at hEnds ⊢
  cases hEnds with
  | error hLinked => exact .error hLinked
  | ok hLe hLinked hAnswers =>
    exact (hSecond _ _ _ hLe hAnswers _ _ hLinked).weaken hLe

theorem weaken {weaker : (H → K → Prop) → α → β → Prop}
    (h : Tied C known before after x y answers)
    (hWeaker : ∀ known' a b, answers known' a b → weaker known' a b) :
    Tied C known before after x y weaker := by
  intro s t hLinked
  have hEnds := h s t hLinked
  generalize x.run s = left at hEnds ⊢
  generalize y.run t = right at hEnds ⊢
  cases hEnds with
  | error hLinked' => exact .error hLinked'
  | ok hLe hLinked' hAnswers => exact .ok hLe hLinked' (hWeaker _ _ _ hAnswers)

theorem pure {a : α} {b : β} (h : answers known a b) :
    Tied C known waiting waiting (pure a) (pure b) answers :=
  fun _ _ hLinked => .ok le_rfl hLinked h

theorem register {a : H} {b : K} (hKnown : known a b) :
    Tied C known waiting waiting (register a) (register b) fun _ _ _ => True := by
  intro s t h
  refine .ok le_rfl ⟨h.cursor_eq, ?_, h.rel⟩ trivial
  simpa using List.rel_append h.opened (.cons hKnown .nil)

theorem emit (e : Event H) (e' : Event K) :
    Tied C known waiting waiting (emit e) (emit e') fun _ _ _ => True :=
  fun _ _ h => .ok le_rfl ⟨h.cursor_eq, h.opened, h.rel⟩ trivial

theorem request {p : Request H} {q : Request K} (h : p.Matches known q) :
    Tied C known waiting waiting (request F p) (request G q) fun known' => known' := by
  intro s t hLinked
  obtain ⟨known', hLe, hRel, hKnown⟩ := C.make hLinked.rel h
  exact .ok hLe ⟨hLinked.cursor_eq, hLinked.opened.imp hLe, hRel⟩ hKnown

theorem declare (name : String) {f : H → Parser σ H γ} {g : K → Parser τ K δ}
    (hRest : ∀ known' a b, known ≤ known' → known' a b →
      Tied C known' ((a, b) :: waiting) after (f a) (g b) answers') :
    Tied C known waiting after (Parse.request F (.declare name) >>= f)
      (Parse.request G (.declare name) >>= g) answers' := by
  intro s t hLinked
  obtain ⟨known', hLe, hRel, hKnown⟩ := C.declare name hLinked.rel
  rw [run_request_bind, run_request_bind]
  refine Ends.weaken hLe (hRest known' _ _ hLe hKnown _ _ ?_)
  exact ⟨hLinked.cursor_eq, hLinked.opened.imp hLe, hRel⟩

theorem complete {a : H} {b : K} {as : List H} {bs : List K} (hKnown : List.Forall₂ known as bs) :
    Tied C known ((a, b) :: waiting) waiting (complete F a as) (complete G b bs)
      fun _ _ _ => True := by
  intro s t hLinked
  obtain ⟨hSame, known', waiting', hLe, hRel, hWaiting⟩ := C.setBody hLinked.rel hKnown
  rw [run_complete, run_complete]
  simp only [← hSame]
  split
  · next hOk =>
    obtain rfl := hWaiting hOk
    exact .ok hLe ⟨hLinked.cursor_eq, hLinked.opened.imp hLe, hRel⟩ trivial
  · rw [hLinked.cursor_eq]
    exact .error ⟨rfl, hLinked.opened.imp hLe, hRel⟩

theorem define {number : Nat} {name : String} {x : Parser σ H (List H)} {y : Parser τ K (List K)}
    (hBody : ∀ known' waiting', known ≤ known' →
      Tied C known' waiting' waiting' x y fun known'' => List.Forall₂ known'') :
    Tied C known waiting waiting
      (do
        let handle ← Parse.request F (.declare name)
        Parse.register handle
        Parse.emit (.assigned number name)
        Parse.complete F handle (← x)
        return handle)
      (do
        let handle ← Parse.request G (.declare name)
        Parse.register handle
        Parse.emit (.assigned number name)
        Parse.complete G handle (← y)
        return handle)
      fun known' => known' := by
  apply declare
  intro known₁ a b hLe₁ hKnown
  refine (register hKnown).bind fun known₂ _ _ hLe₂ _ => ?_
  refine (emit _ _).bind fun known₃ _ _ hLe₃ _ => ?_
  refine (hBody _ _ (hLe₁.trans (hLe₂.trans hLe₃))).bind fun known₄ as bs hLe₄ hFields => ?_
  refine (complete hFields).bind fun known₅ _ _ hLe₅ _ => pure ?_
  exact (hLe₂.trans (hLe₃.trans (hLe₄.trans hLe₅))) _ _ hKnown

theorem dispatch {config : Config} {sub : ElementParser σ H} {sub' : ElementParser τ K}
    {answers : (H → K → Prop) → Option (Element H) → Option (Element K) → Prop}
    (hNone : answers known none none)
    (hSome : ∀ start symbol, Tied C known waiting waiting (afterSymbol F config sub start symbol)
      (afterSymbol G config sub' start symbol) answers) :
    Tied C known waiting waiting (dispatch F config sub) (dispatch G config sub') answers := by
  intro s t h
  cases hRest : s.cursor.rest with
  | nil =>
    have hRest' := h.cursor_eq ▸ hRest
    rw [run_dispatch_nil _ _ _ hRest, run_dispatch_nil _ _ _ hRest']
    exact .ok le_rfl h hNone
  | cons c rest =>
    have hRest' := h.cursor_eq ▸ hRest
    cases hSymbol : Symbol.ofChar? c with
    | none =>
      rw [run_dispatch_unknown _ _ _ hRest hSymbol, run_dispatch_unknown _ _ _ hRest' hSymbol,
        h.cursor_eq]
      exact .error h
    | some symbol =>
      rw [← Symbol.char_of_ofChar? hSymbol] at hRest hRest'
      rw [run_dispatch_symbol _ _ _ hRest, run_dispatch_symbol _ _ _ hRest', h.cursor_eq]
      refine hSome _ symbol _ _ ⟨?_, h.opened, h.rel⟩
      simp only [State.afterRead, h.cursor_eq]

end Tied

def tying (C : Coupling F G) (config : Config) : Simulation F G config config where
  World := H → K → Prop
  Later := (· ≤ ·)
  Beyond := (· ≤ ·)
  Handles known := known
  Positions _ := Eq
  Counts _ _ := True
  Related known _ x y answers :=
    ∀ waiting, Tied C known waiting waiting x y fun known' a b => ∃ p, answers known' p a b
  later_refl _ := le_rfl
  later_trans := le_trans
  later_of_beyond := id
  beyond_of_later := le_trans
  handles_mono := id
  positions_mono _ := le_rfl
  related_pure hAnswers _ := Tied.pure ⟨_, hAnswers⟩
  related_bind hx hf waiting := (hx waiting).bind fun known' a b hLe ⟨p, hAnswers⟩ =>
    hf known' p a b hLe hAnswers waiting
  related_fail _ hPos _ _ _ h := hPos ▸ .error h
  related_limit hLeft hRight hRelated waiting s t h := by
    obtain ⟨n, hRun⟩ := hLeft s
    obtain ⟨n', hRun'⟩ := hRight t
    have hEnds := hRelated (max n n') waiting s t h
    rwa [hRun _ (le_max_left n n'), hRun' _ (le_max_right n n')] at hEnds
  found_of_within h := h
  closed_of_found h := h
  related_here known p _ s t h := .ok le_rfl h ⟨p, rfl, rfl, congrArg Cursor.pos h.cursor_eq⟩
  related_nextNumber known p _ s t h :=
    .ok le_rfl h ⟨p, rfl, rfl, h.opened.length_eq, trivial⟩
  related_opened? known number _ s t h := by
    refine .ok le_rfl h ⟨.found, rfl, rfl, ?_⟩
    rw [← Array.getElem?_toList, ← Array.getElem?_toList]
    exact forall₂_getElem? h.opened number
  related_classOf hKnown _ s t h := .ok le_rfl h ⟨.within, rfl, rfl, C.classOf h.rel hKnown⟩
  related_looksAt known _ _ s t h :=
    .ok le_rfl h ⟨.within, rfl, rfl, congrArg (Cursor.looksAt · _) h.cursor_eq⟩
  related_eat known _ _ s t h := by
    rw [run_eat, run_eat, h.cursor_eq]
    exact .ok le_rfl ⟨rfl, h.opened, h.rel⟩ ⟨_, rfl, rfl, le_rfl⟩
  related_number known _ _ _ s t h := by
    rw [run_number, run_number, h.cursor_eq]
    simp only
    split
    · exact .error ⟨rfl, h.opened, h.rel⟩
    · exact .ok le_rfl ⟨rfl, h.opened, h.rel⟩ ⟨_, rfl, rfl⟩
  related_request hRequest _ :=
    (Tied.request hRequest).weaken fun _ _ _ hKnown => ⟨.found, rfl, hKnown⟩
  related_define _ hx _ := by
    have hFields (known' : H → K → Prop) (waiting' : List (H × K)) (hLe : _ ≤ known') :=
      (hx known' hLe waiting').weaken fun known'' as bs ⟨_, _, hAll⟩ => hAll
    exact (Tied.define hFields).weaken fun _ _ _ hKnown => ⟨.found, rfl, hKnown⟩
  related_dispatch hNone hSome waiting :=
    Tied.dispatch ⟨_, hNone⟩ fun start symbol =>
      hSome _ start start symbol symbol le_rfl rfl (.refl symbol) waiting

theorem tying_elements (C : Coupling F G) (config : Config) (depth : Nat)
    (known : H → K → Prop) :
    Simulation.Elements (S := tying C config) known (element F config depth)
      (element G config depth) := by
  induction depth generalizing known with
  | zero =>
    refine ⟨fun known' _ waiting s t h => ?_, progresses_element _ _ _, progresses_element _ _ _⟩
    rw [element_zero, element_zero, run_failHere, run_failHere, h.cursor_eq]
    exact .error h
  | succ depth ih =>
    exact ⟨fun known' _ => Simulation.related_element fun known'' _ => ih known'',
      progresses_element _ _ _, progresses_element _ _ _⟩

inductive RunsMatch (C : Coupling F G) (known : H → K → Prop) (waiting : List (H × K))
    (left : Run σ H) (right : Run τ K) : Prop where
  | ok {known' : H → K → Prop} {a : H} {b : K} :
    left.outcome = .ok a → right.outcome = .ok b → known ≤ known' → known' a b →
    C.Rel known' waiting left.store right.store → RunsMatch C known waiting left right
  | error {known' : H → K → Prop} {waiting' : List (H × K)} {diagnostic : Diagnostic} :
    left.outcome = .error diagnostic → right.outcome = .error diagnostic →
    C.Rel known' waiting' left.store right.store → RunsMatch C known waiting left right

/-- Parses with coupled factories from corresponding stores come to the same end. -/
theorem runs_match (C : Coupling F G) (config : Config) (spec : String)
    {known : H → K → Prop} {waiting : List (H × K)} {s : σ} {t : τ}
    (h : C.Rel known waiting s t) :
    RunsMatch C known waiting (run F config spec s) (run G config spec t) := by
  have hEnds := (tying_elements C config config.maxDepth known).firstType waiting (start spec s)
    (start spec t) ⟨rfl, .nil, h⟩
  rw [run, run, run_whole, run_whole]
  generalize (firstType F config).run _ = left at hEnds ⊢
  generalize (firstType G config).run _ = right at hEnds ⊢
  cases hEnds with
  | error hLinked => exact .error rfl rfl hLinked.rel
  | @ok known' a b s' t' hLe hLinked hAnswers =>
    obtain ⟨_, -, hKnown⟩ := hAnswers
    simp only [hLinked.cursor_eq]
    cases t'.cursor.atEnd with
    | true => exact .ok rfl rfl hLe hKnown hLinked.rel
    | false => exact .error rfl rfl hLinked.rel

end Parse

end CompactType
