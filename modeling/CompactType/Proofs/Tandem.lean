import CompactType.Proofs.Abreast
import CompactType.Proofs.Forward

/-!
# Parsers in tandem

Two parsers are in tandem if runs that start abreast stay so until both end alike, or until the
first one is cut off: its text is over before the other one, or fewer levels of nesting are
allowed. From then on the first run makes no more calls, while those of the second one only grow.
-/

set_option autoImplicit false

namespace CompactType.Parse

variable {σ τ H α β γ δ : Type}

/-- The state in which a run ends, well or not. -/
def final : EStateM.Result Fault (State σ H) α → State σ H
  | .ok _ s | .error _ s => s

/-- The parser only adds calls, and answers so. -/
def Grows (x : Parser σ H α) (answers : α → Prop) : Prop :=
  ∀ s, Journal.calls s.journal <+: Journal.calls (final (x.run s)).journal ∧
    ∀ a s', x.run s = .ok a s' → answers a

namespace Grows

variable {x : Parser σ H α} {f : α → Parser σ H β} {answers weaker : α → Prop} {answers' : β → Prop}

theorem weaken (h : Grows x answers) (hWeaker : ∀ a, answers a → weaker a) : Grows x weaker :=
  fun s => ⟨(h s).1, fun a s' hRun => hWeaker a ((h s).2 a s' hRun)⟩

theorem bind (hx : Grows x answers) (hf : ∀ a, answers a → Grows (f a) answers') :
    Grows (x >>= f) answers' := by
  intro s
  obtain ⟨hCalls, hAnswers⟩ := hx s
  rw [EStateM.run_bind]
  generalize x.run s = result at hCalls hAnswers ⊢
  cases result with
  | error fault s₁ => exact ⟨hCalls, nofun⟩
  | ok a s₁ =>
    obtain ⟨hCalls', hAnswers'⟩ := hf a (hAnswers a s₁ rfl) s₁
    exact ⟨hCalls.trans hCalls', hAnswers'⟩

theorem quiet (hx : ∀ s, ∃ a s', x.run s = .ok a s' ∧ s'.journal = s.journal ∧ answers a) :
    Grows x answers := by
  intro s
  obtain ⟨a, s', hRun, hJournal, ha⟩ := hx s
  rw [hRun]
  refine ⟨hJournal ▸ List.prefix_rfl, ?_⟩
  rintro _ _ ⟨⟩
  exact ha

theorem pure {a : α} (h : answers a) : Grows (pure a : Parser σ H α) answers :=
  quiet fun _ => ⟨_, _, rfl, rfl, h⟩

theorem fail (cause : Cause) (pos : Nat) : Grows (fail cause pos : Parser σ H α) answers :=
  fun _ => ⟨List.prefix_rfl, nofun⟩

theorem note {x : Parser σ H α} {e : α → State σ H → Event H}
    (hx : ∀ s, ∃ a s', x.run s = .ok a s' ∧ s'.journal = s.journal.push (e a s) ∧ answers a) :
    Grows x answers := by
  intro s
  obtain ⟨a, s', hRun, hJournal, ha⟩ := hx s
  rw [hRun]
  refine ⟨?_, ?_⟩
  · change _ <+: Journal.calls s'.journal
    rw [hJournal, Journal.calls_push]
    exact List.prefix_append _ _
  · rintro _ _ ⟨⟩
    exact ha

theorem number {limit : Nat} {cause : Cause} {answers : Nat → Prop} (h : ∀ n, answers n) :
    Grows (number limit cause : Parser σ H Nat) answers := by
  intro s
  rw [run_number]
  simp only
  split
  · exact ⟨List.prefix_rfl, nofun⟩
  · exact ⟨List.prefix_rfl, fun n _ _ => h n⟩

theorem complete (F : Factory σ H) (handle : H) (fields : List H) :
    Grows (complete F handle fields) fun _ => True := by
  intro s
  have hCalls : Journal.calls s.journal <+:
      Journal.calls (s.journal.push (.call (.body handle fields))) := by
    rw [Journal.calls_push]
    exact List.prefix_append _ _
  rw [run_complete]
  simp only
  split
  · exact ⟨hCalls, fun _ _ _ => trivial⟩
  · exact ⟨hCalls, nofun⟩

theorem request {F : Factory σ H} {r : Request H} {answers : H → Prop} (h : ∀ a, answers a) :
    Grows (request F r) answers :=
  note (e := fun a _ => .call (.made r a)) fun _ => ⟨_, _, rfl, rfl, h _⟩

theorem define {F : Factory σ H} {number : Nat} {name : String} {x : Parser σ H (List H)}
    {fields : List H → Prop} (hx : Grows x fields) {answers : H → Prop} (h : ∀ a, answers a) :
    Grows
      (do
        let handle ← Parse.request F (.declare name)
        register handle
        emit (.assigned number name)
        Parse.complete F handle (← x)
        return handle)
      answers := by
  have hDeclare : Grows (Parse.request F (.declare name)) fun _ => True :=
    request fun _ => trivial
  apply hDeclare.bind
  intro handle _
  have hRegister : Grows (register handle : Parser σ H Unit) fun _ => True :=
    quiet fun _ => ⟨_, _, rfl, rfl, trivial⟩
  have hAssigned : Grows (emit (.assigned number name) : Parser σ H Unit) fun _ => True :=
    note (e := fun _ _ => .assigned number name) fun _ => ⟨_, _, rfl, rfl, trivial⟩
  refine hRegister.bind fun _ _ => hAssigned.bind fun _ _ => hx.bind fun as _ => ?_
  exact (complete F handle as).bind fun _ _ => pure (h handle)

theorem dispatch {F : Factory σ H} {config : Config} {sub : ElementParser σ H}
    {answers : Option (Element H) → Prop} (hNone : answers none)
    (hSome : ∀ start symbol, Grows (afterSymbol F config sub start symbol) answers) :
    Grows (dispatch F config sub) answers := by
  intro s
  have hCases := dispatches F config sub s
  generalize (Parse.dispatch F config sub).run s = result at hCases ⊢
  cases hCases with
  | nothing => exact pure hNone s
  | unknown => exact ⟨List.prefix_rfl, nofun⟩
  | @symbol symbol rest =>
    have hCalls : Journal.calls (s.afterRead symbol rest).journal = Journal.calls s.journal := by
      simp [State.afterRead, Journal.calls_push, Event.call?]
    rw [← hCalls]
    exact hSome _ symbol _

theorem limit {xs : Nat → Parser σ H α} (hRun : ∀ s, ∃ n, ∀ m ≥ n, (xs m).run s = x.run s)
    (h : ∀ n, Grows (xs n) answers) : Grows x answers := by
  intro s
  obtain ⟨n, hn⟩ := hRun s
  exact hn n le_rfl ▸ h n s

end Grows

/-- At the end of the text the parser makes no calls, and answers so if it stays there. -/
def Idle (x : Parser σ H α) (answers : α → Prop) : Prop :=
  ∀ s, s.cursor.rest = [] →
    Journal.calls (final (x.run s)).journal = Journal.calls s.journal ∧
      ∀ a s', x.run s = .ok a s' → s'.cursor.rest = [] ∧ answers a

namespace Idle

variable {x : Parser σ H α} {f : α → Parser σ H β} {answers : α → Prop} {answers' : β → Prop}

theorem bind (hx : Idle x answers) (hf : ∀ a, answers a → Idle (f a) answers') :
    Idle (x >>= f) answers' := by
  intro s hs
  obtain ⟨hCalls, hAnswers⟩ := hx s hs
  rw [EStateM.run_bind]
  generalize x.run s = result at hCalls hAnswers ⊢
  cases result with
  | error fault s₁ => exact ⟨hCalls, nofun⟩
  | ok a s₁ =>
    obtain ⟨hRest, ha⟩ := hAnswers a s₁ rfl
    obtain ⟨hCalls', hAnswers'⟩ := hf a ha s₁ hRest
    exact ⟨hCalls'.trans hCalls, hAnswers'⟩

theorem still (hx : ∀ s, s.cursor.rest = [] → ∃ a, x.run s = .ok a s ∧ answers a) :
    Idle x answers := by
  intro s hs
  obtain ⟨a, hRun, ha⟩ := hx s hs
  rw [hRun]
  refine ⟨rfl, ?_⟩
  rintro _ _ ⟨⟩
  exact ⟨hs, ha⟩

theorem fail (cause : Cause) (pos : Nat) : Idle (fail cause pos : Parser σ H α) answers :=
  fun _ _ => ⟨rfl, nofun⟩

theorem failHere (cause : Cause) : Idle (failHere cause : Parser σ H α) answers :=
  fun _ _ => ⟨rfl, nofun⟩

theorem eat {c : Char} {answers : Bool → Prop} (h : answers false) :
    Idle (eat c : Parser σ H Bool) answers := by
  apply still
  intro s hs
  refine ⟨false, ?_, h⟩
  simp [run_eat, Cursor.eat, Cursor.looksAt, Cursor.peek?, hs]

theorem limit {xs : Nat → Parser σ H α} (hRun : ∀ s, ∃ n, ∀ m ≥ n, (xs m).run s = x.run s)
    (h : ∀ n, Idle (xs n) answers) : Idle x answers := by
  intro s hs
  obtain ⟨n, hn⟩ := hRun s
  exact hn n le_rfl ▸ h n s hs

end Idle

/-- The text may be over there before anything more is read. -/
def Stage.IsOpen : Stage → Prop
  | .within | .numbered => True
  | _ => False

section Tandem

variable (A : Side σ H) (B : Side τ H)

/-- Why the first run may end before the second one. -/
inductive Cut : Fault → Prop where
  | text (fault : Fault) : A.tail = [] → B.tail ≠ [] → Cut fault
  | depth {fault : Fault} :
    A.config.maxDepth < B.config.maxDepth → fault.cause = .nestingTooDeep A.config.maxDepth →
    Cut fault

/-- How two runs end: both alike, or the first one early. It may answer because its text is over. -/
inductive Closes (answers : Stage → α → β → Prop) :
    EStateM.Result Fault (State σ H) α → EStateM.Result Fault (State τ H) β → Prop where
  | ok {p : Stage} {a : α} {b : β} {s : State σ H} {t : State τ H} :
    Abreast A B s t → answers p a b → Closes answers (.ok a s) (.ok b t)
  | error {fault : Fault} {s : State σ H} {t : State τ H} :
    Abreast A B s t → Closes answers (.error fault s) (.error fault t)
  | early {p : Stage} {a : α} {b : β} {s : State σ H}
    {right : EStateM.Result Fault (State τ H) β} :
    Spent A B s → p.IsOpen → answers p a b → Behind A B s (final right) →
    Closes answers (.ok a s) right
  | cut {fault : Fault} {s : State σ H} {right : EStateM.Result Fault (State τ H) β} :
    Cut A B fault → Behind A B s (final right) → Closes answers (.error fault s) right

structure Tandem (p : Stage) (x : Parser σ H α) (y : Parser τ H β)
    (answers : Stage → α → β → Prop) : Prop where
  closes : ∀ s t, Abreast A B s t → Closes A B answers (x.run s) (y.run t)
  grows : Grows y fun b => ∃ q a, answers q a b
  idle : p.IsOpen → Idle x fun a => ∃ q b, q.IsOpen ∧ answers q a b

end Tandem

variable {A : Side σ H} {B : Side τ H}

theorem Closes.of_idle {x : Parser σ H α} {answers : Stage → α → β → Prop}
    (hIdle : Idle x fun a => ∃ q b, q.IsOpen ∧ answers q a b) {s : State σ H}
    (hSpent : Spent A B s) {right : EStateM.Result Fault (State τ H) β}
    (h : Behind A B s (final right)) : Closes A B answers (x.run s) right := by
  obtain ⟨hCalls, hAnswers⟩ := hIdle s hSpent.rest_eq
  obtain ⟨calls, hPrefix, hRenamed⟩ := h
  generalize x.run s = left at hCalls hAnswers ⊢
  have hBehind : Behind A B (final left) (final right) := ⟨calls, hPrefix, hCalls ▸ hRenamed⟩
  cases left with
  | error fault s' => exact .cut (.text fault hSpent.left_tail hSpent.right_tail) hBehind
  | ok a s' =>
    obtain ⟨hRest, q, b, hOpen, hEarly⟩ := hAnswers a s' rfl
    exact .early ⟨hRest, hSpent.left_tail, hSpent.right_tail⟩ hOpen hEarly hBehind

theorem Behind.bind {s : State σ H} {y : Parser τ H α} {t : State τ H} {answers : α → Prop}
    (h : Behind A B s (final (y.run t))) (hy : Grows y answers) {g : α → Parser τ H β}
    (hg : ∀ a t, answers a →
      Journal.calls t.journal <+: Journal.calls (final ((g a).run t)).journal) :
    Behind A B s (final ((y >>= g).run t)) := by
  obtain ⟨calls, hPrefix, hRenamed⟩ := h
  refine ⟨calls, ?_, hRenamed⟩
  have hAnswers := (hy t).2
  rw [EStateM.run_bind]
  generalize y.run t = right at hPrefix hAnswers ⊢
  cases right with
  | error => exact hPrefix
  | ok a t => exact hPrefix.trans (hg a t (hAnswers a t rfl))

namespace Tandem

variable {p : Stage} {x : Parser σ H α} {y : Parser τ H β} {f : α → Parser σ H γ}
  {g : β → Parser τ H δ} {answers : Stage → α → β → Prop} {answers' : Stage → γ → δ → Prop}

theorem bind (hx : Tandem A B p x y answers)
    (hf : ∀ q a b, answers q a b → Tandem A B q (f a) (g b) answers') :
    Tandem A B p (x >>= f) (y >>= g) answers' where
  closes s t h := by
    have hFirst := hx.closes s t h
    rw [EStateM.run_bind x]
    generalize x.run s = left at hFirst ⊢
    generalize hRight : y.run t = right at hFirst
    cases hFirst with
    | ok h hAnswers =>
      rw [EStateM.run_bind, hRight]
      exact (hf _ _ _ hAnswers).closes _ _ h
    | error h =>
      rw [EStateM.run_bind, hRight]
      exact .error h
    | early hSpent hOpen hAnswers hBehind =>
      subst hRight
      refine .of_idle ((hf _ _ _ hAnswers).idle hOpen) hSpent (hBehind.bind hx.grows ?_)
      exact fun b t ⟨_, _, hAnswers⟩ => ((hf _ _ _ hAnswers).grows t).1
    | cut hCut hBehind =>
      subst hRight
      refine .cut hCut (hBehind.bind hx.grows ?_)
      exact fun b t ⟨_, _, hAnswers⟩ => ((hf _ _ _ hAnswers).grows t).1
  grows := hx.grows.bind fun b ⟨_, _, hAnswers⟩ => (hf _ _ _ hAnswers).grows
  idle hOpen := (hx.idle hOpen).bind fun a ⟨_, _, hOpen', hAnswers⟩ =>
    (hf _ _ _ hAnswers).idle hOpen'

theorem pure {a : α} {b : β} (h : answers p a b) : Tandem A B p (pure a) (pure b) answers where
  closes _ _ hAbreast := .ok hAbreast h
  grows := Grows.pure ⟨p, a, h⟩
  idle hOpen := Idle.still fun _ _ => ⟨a, rfl, p, b, hOpen, h⟩

theorem fail (cause : Cause) (pos : Nat) :
    Tandem A B p (fail cause pos) (fail cause pos) answers where
  closes _ _ h := .error h
  grows := Grows.fail _ _
  idle _ := Idle.fail _ _

theorem register (handle : H) :
    Tandem A B .found (register handle) (register handle) fun q _ _ => q = .found where
  closes _ _ h := .ok ⟨h.parallel, congrArg (·.push handle) h.opened_eq, h.calls, h.left_store,
    h.right_store⟩ rfl
  grows := Grows.quiet fun _ => ⟨_, _, rfl, rfl, .found, (), rfl⟩
  idle := nofun

theorem emit {e e' : Event H} (he : e.call? = none) (he' : e'.call? = none) :
    Tandem A B .found (emit e) (emit e') fun q _ _ => q = .found where
  closes _ _ h := .ok (h.note he he') rfl
  grows := Grows.note (e := fun _ _ => e') fun _ => ⟨_, _, rfl, rfl, .found, (), rfl⟩
  idle := nofun

variable (hComparable : Comparable A B)

include hComparable

theorem request {r r' : Request H} (hRequest : r.Renamed (Named A.config B.config) r') :
    Tandem A B .found (request A.factory r) (request B.factory r')
      fun q a b => q = .found ∧ a = b where
  closes s t h := by
    have hAnswer : (A.factory.make r s.store).1 = (B.factory.make r' t.store).1 := by
      rw [h.left_store, h.right_store]
      exact hComparable.answers.make_eq _ _ r r' h.calls hRequest
    rw [run_request, run_request]
    simp only [hAnswer]
    exact .ok (h.call (.made _ hRequest)) ⟨rfl, rfl⟩
  grows := Grows.request fun a => ⟨.found, a, rfl, rfl⟩
  idle := nofun

theorem complete (handle : H) (fields : List H) :
    Tandem A B .closed (complete A.factory handle fields) (complete B.factory handle fields)
      fun q _ _ => q = .found where
  closes s t h := by
    have hAnswer : (A.factory.setBody handle fields s.store).1 =
        (B.factory.setBody handle fields t.store).1 := by
      rw [h.left_store, h.right_store]
      exact hComparable.answers.setBody_eq _ _ handle fields h.calls
    have hCall := h.call (.body handle fields)
    rw [run_complete, run_complete]
    simp only [hAnswer, h.parallel.pos_eq]
    split
    · exact .ok hCall rfl
    · exact .error hCall
  grows := (Grows.complete _ _ _).weaken fun _ _ => ⟨.found, (), rfl⟩
  idle := nofun

theorem eat {q : Stage} {c : Char} {answers : Stage → Bool → Bool → Prop} (hc : ¬Foreign c)
    (hOpen : p.IsOpen) (hFound : answers q true true) (hMissing : answers p false false) :
    Tandem A B p (eat c) (eat c) answers := by
  have hIdle : Idle (Parse.eat c : Parser σ H Bool) fun found => ∃ q b, q.IsOpen ∧
      answers q found b :=
    Idle.eat ⟨p, false, hOpen, hMissing⟩
  have hAnswers (b : Bool) : ∃ q found, answers q found b := by
    cases b with
    | true => exact ⟨q, true, hFound⟩
    | false => exact ⟨p, false, hMissing⟩
  refine ⟨fun s t h => ?_, Grows.quiet fun t => ⟨_, _, rfl, rfl, hAnswers _⟩, fun _ => hIdle⟩
  cases h.parallel.ahead hComparable.tails with
  | spent hRest hLeft hRight =>
    exact .of_idle hIdle ⟨hRest, hLeft, hRight⟩ (h.behind rfl List.prefix_rfl)
  | ended hRest hRest' =>
    have hEat {d : Cursor Char} (hd : d.rest = []) : d.eat c = (false, d) := by
      simp [Cursor.eat, Cursor.looksAt, Cursor.peek?, hd]
    rw [run_eat, run_eat, hEat hRest, hEat hRest']
    exact .ok h hMissing
  | @common a rest rest' hRest hRest' hStep =>
    by_cases ha : a = c
    · have hEat {d : Cursor Char} {rest : List Char} (hd : d.rest = a :: rest) :
          d.eat c = (true, ⟨d.pos + 1, rest⟩) := by
        simp [Cursor.eat, Cursor.looksAt, Cursor.peek?, Cursor.advance, hd, ha]
      rw [run_eat, run_eat, hEat hRest, hEat hRest']
      exact .ok (h.move (hStep (ha ▸ hc))) hFound
    · have hEat {d : Cursor Char} {rest : List Char} (hd : d.rest = a :: rest) :
          d.eat c = (false, d) := by
        simp [Cursor.eat, Cursor.looksAt, Cursor.peek?, hd, ha]
      rw [run_eat, run_eat, hEat hRest, hEat hRest']
      exact .ok h hMissing

theorem number {q : Stage} (limit : Nat) (cause : Cause) (hOpen : ¬p.IsOpen) :
    Tandem A B p (number limit cause) (number limit cause) fun q' n n' => q' = q ∧ n = n' where
  closes s t h := by
    rw [run_number, run_number]
    simp only
    obtain ⟨hRest, hLeft, hRight⟩ | ⟨hRun, hMove⟩ := h.parallel.takeRun hComparable.tails
    · have hNil : (s.cursor.takeRun Char.isDigit).1 = [] := by simp [Cursor.takeRun, hRest]
      rw [if_pos (.inl hNil)]
      refine .cut (.text _ hLeft hRight) (h.behind rfl ?_)
      split
      · exact List.prefix_rfl
      · exact List.prefix_rfl
    · rw [hRun, h.parallel.pos_eq]
      split
      · exact .error (h.move hMove)
      · exact .ok (h.move hMove) ⟨rfl, rfl⟩
  grows := Grows.number fun n => ⟨q, n, rfl, rfl⟩
  idle h := absurd h hOpen

theorem define {number : Nat} {x : Parser σ H (List H)} {y : Parser τ H (List H)}
    (hx : Tandem A B .found x y fun q as bs => q = .closed ∧ List.Forall₂ Eq as bs) :
    Tandem A B .found
      (do
        let handle ← Parse.request A.factory (.declare (A.config.structName number))
        Parse.register handle
        Parse.emit (.assigned number (A.config.structName number))
        Parse.complete A.factory handle (← x)
        return handle)
      (do
        let handle ← Parse.request B.factory (.declare (B.config.structName number))
        Parse.register handle
        Parse.emit (.assigned number (B.config.structName number))
        Parse.complete B.factory handle (← y)
        return handle)
      fun q a b => q = .found ∧ a = b := by
  apply (request hComparable (.declare ⟨number, rfl, rfl⟩)).bind
  rintro _ handle _ ⟨rfl, rfl⟩
  apply (register handle).bind
  rintro _ _ _ rfl
  apply (emit rfl rfl).bind
  rintro _ _ _ rfl
  apply hx.bind
  rintro _ fields _ ⟨rfl, hFields⟩
  obtain rfl := List.forall₂_eq_eq_eq ▸ hFields
  apply (complete hComparable handle fields).bind
  rintro _ _ _ rfl
  exact pure ⟨rfl, rfl⟩

theorem dispatch {sub : ElementParser σ H} {sub' : ElementParser τ H}
    {answers : Stage → Option (Element H) → Option (Element H) → Prop}
    (hNone : answers .within none none)
    (hSome : ∀ start symbol, Tandem A B (.after symbol)
      (afterSymbol A.factory A.config sub start symbol)
      (afterSymbol B.factory B.config sub' start symbol) answers) :
    Tandem A B .within (dispatch A.factory A.config sub) (dispatch B.factory B.config sub')
      answers := by
  have hIdle : Idle (Parse.dispatch A.factory A.config sub) fun a =>
      ∃ q b, q.IsOpen ∧ answers q a b :=
    Idle.still fun s hs => ⟨none, run_dispatch_nil _ _ _ hs, .within, none, trivial, hNone⟩
  have hGrows : Grows (Parse.dispatch B.factory B.config sub') fun b => ∃ q a, answers q a b :=
    Grows.dispatch ⟨_, _, hNone⟩ fun start symbol => (hSome start symbol).grows
  refine ⟨fun s t h => ?_, hGrows, fun _ => hIdle⟩
  cases h.parallel.ahead hComparable.tails with
  | spent hRest hLeft hRight =>
    exact .of_idle hIdle ⟨hRest, hLeft, hRight⟩ (h.behind rfl (hGrows t).1)
  | ended hRest hRest' =>
    rw [run_dispatch_nil _ _ _ hRest, run_dispatch_nil _ _ _ hRest']
    exact .ok h hNone
  | @common c rest rest' hRest hRest' hStep =>
    cases hSymbol : Symbol.ofChar? c with
    | none =>
      rw [run_dispatch_unknown _ _ _ hRest hSymbol, run_dispatch_unknown _ _ _ hRest' hSymbol,
        h.parallel.pos_eq]
      exact .error h
    | some symbol =>
      have hRead := h.move (hStep fun hForeign => nomatch hForeign.1 ▸ hSymbol)
      rw [← Symbol.char_of_ofChar? hSymbol] at hRest hRest'
      rw [run_dispatch_symbol _ _ _ hRest, run_dispatch_symbol _ _ _ hRest', h.parallel.pos_eq]
      exact (hSome _ symbol).closes _ _ (hRead.note rfl rfl)

end Tandem

theorem Stage.Eats.isOpen {p q : Stage} {c : Char} (h : p.Eats c q) : p.IsOpen := by
  cases h <;> trivial

theorem Stage.Eats.not_foreign {p q : Stage} {c : Char} (h : p.Eats c q) : ¬Foreign c := by
  cases h <;> decide

theorem Stage.Numbers.not_isOpen {p q : Stage} (h : p.Numbers q) : ¬p.IsOpen := by
  cases h <;> exact id

def comparing (hComparable : Comparable A B) :
    Simulation A.factory B.factory A.config B.config where
  World := Unit
  Later _ _ := True
  Beyond _ _ := True
  Handles _ := Eq
  Positions _ := Eq
  Counts _ _ := True
  Related _ p x y answers := Tandem A B p x y (answers ())
  later_refl _ := trivial
  later_trans _ _ := trivial
  later_of_beyond _ := trivial
  beyond_of_later _ _ := trivial
  handles_mono _ := le_rfl
  positions_mono _ := le_rfl
  related_pure := Tandem.pure
  related_bind hx hf := hx.bind fun q a b hAnswers => hf () q a b trivial hAnswers
  related_fail _ hPos := hPos ▸ Tandem.fail _ _
  related_limit hLeft hRight hRelated :=
    { closes := fun s t h => by
        obtain ⟨n, hRun⟩ := hLeft s
        obtain ⟨n', hRun'⟩ := hRight t
        have hCloses := (hRelated (max n n')).closes s t h
        rwa [hRun _ (le_max_left n n'), hRun' _ (le_max_right n n')] at hCloses
      grows := Grows.limit hRight fun n => (hRelated n).grows
      idle := fun hOpen => Idle.limit hLeft fun n => (hRelated n).idle hOpen }
  found_of_within h := { h with idle := nofun }
  closed_of_found h := { h with idle := nofun }
  related_here _ p :=
    { closes := fun s t h => .ok h ⟨rfl, rfl, h.parallel.pos_eq⟩
      grows := Grows.quiet fun _ => ⟨_, _, rfl, rfl, p, _, rfl, rfl, rfl⟩
      idle := fun hOpen => Idle.still fun _ _ => ⟨_, rfl, p, _, hOpen, rfl, rfl, rfl⟩ }
  related_nextNumber _ p :=
    { closes := fun s t h => .ok h ⟨rfl, rfl, congrArg Array.size h.opened_eq, trivial⟩
      grows := Grows.quiet fun _ => ⟨_, _, rfl, rfl, p, _, rfl, rfl, rfl, trivial⟩
      idle := fun hOpen => Idle.still fun _ _ => ⟨_, rfl, p, _, hOpen, rfl, rfl, rfl, trivial⟩ }
  related_opened? _ _ :=
    { closes := fun s t h => .ok h ⟨rfl, rfl, h.opened_eq ▸ optionRel_refl (fun _ => rfl) _⟩
      grows := Grows.quiet fun _ =>
        ⟨_, _, rfl, rfl, .found, _, rfl, rfl, optionRel_refl (fun _ => rfl) _⟩
      idle := nofun }
  related_classOf {_ a b} hKnown := by
    obtain rfl : a = b := hKnown
    refine ⟨fun s t h => .ok h ⟨rfl, rfl, ?_⟩, ?_, ?_⟩
    · rw [h.left_store, h.right_store]
      exact hComparable.answers.classOf_eq _ _ a h.calls
    · exact Grows.quiet fun _ => ⟨_, _, rfl, rfl, .within, _, rfl, rfl, rfl⟩
    · exact fun _ => Idle.still fun _ _ => ⟨_, rfl, .within, _, trivial, rfl, rfl, rfl⟩
  related_looksAt _ _ := by
    have hIdle {c : Char} : Idle (looksAt c : Parser σ H Bool) fun found =>
        ∃ (q : Stage) (found' : Bool), q.IsOpen ∧ () = () ∧ q = .within ∧ found = found' :=
      Idle.still fun _ _ => ⟨_, rfl, .within, _, trivial, rfl, rfl, rfl⟩
    refine ⟨fun s t h => ?_, ?_, fun _ => hIdle⟩
    · obtain hSpent | hPeek := h.spent_or_peek?_eq hComparable.tails
      · exact .of_idle hIdle hSpent (h.behind rfl List.prefix_rfl)
      · exact .ok h ⟨rfl, rfl, congrArg (· == some _) hPeek⟩
    · exact Grows.quiet fun _ => ⟨_, _, rfl, rfl, .within, _, rfl, rfl, rfl⟩
  related_eat _ h :=
    Tandem.eat hComparable h.not_foreign h.isOpen ⟨rfl, rfl, le_rfl⟩ ⟨rfl, rfl, le_rfl⟩
  related_number _ h _ := Tandem.number hComparable _ _ h.not_isOpen
  related_request hRequest := by
    obtain rfl := hRequest.eq le_rfl
    exact Tandem.request hComparable (.same hRequest.name?_eq_none)
  related_define _ hx := Tandem.define hComparable (hx () trivial)
  related_dispatch hNone hSome :=
    Tandem.dispatch hComparable hNone fun start symbol =>
      hSome () start start symbol symbol trivial rfl (.refl symbol)

/-- The second parse may nest deeper by some levels, of which it makes use where the first one is
cut off. -/
theorem comparing_elements (hComparable : Comparable A B) {more : Nat}
    (hMore : B.config.maxDepth = A.config.maxDepth + more)
    (hGrows : Grows (element B.factory B.config more) fun _ => True) (depth : Nat) :
    Simulation.Elements (S := comparing hComparable) () (element A.factory A.config depth)
      (element B.factory B.config (depth + more)) := by
  refine ⟨fun _ _ => ?_, progresses_element _ _ _, progresses_element _ _ _⟩
  induction depth with
  | zero =>
    rw [Nat.zero_add]
    have hAnswers (b : Option (Element H)) : ∃ q a, (comparing hComparable).Found () () q a b := by
      obtain ⟨q, hFound⟩ := Simulation.Found.refl (S := comparing hComparable) (w := ())
        trivial (fun _ => rfl) b
      exact ⟨q, b, hFound⟩
    refine ⟨fun s t h => ?_, hGrows.weaken fun b _ => hAnswers b, fun _ => Idle.failHere _⟩
    rw [element_zero, run_failHere]
    cases more with
    | zero =>
      rw [element_zero, run_failHere, hMore, h.parallel.pos_eq]
      exact .error h
    | succ more => exact .cut (.depth (by omega) rfl) (h.behind rfl (hGrows t).1)
  | succ depth ih =>
    rw [Nat.add_right_comm]
    refine Simulation.related_element fun _ _ => ?_
    exact ⟨fun _ _ => ih, progresses_element _ _ _, progresses_element _ _ _⟩

theorem grows_element (F : Factory τ H) (config : Config) (depth : Nat) :
    Grows (element F config depth) fun _ => True := by
  intro t
  let side : Side τ H := ⟨F, config, t.store, []⟩
  have hSelf : Comparable side side := ⟨.refl (named_le_eq _) F t.store, .ended []⟩
  have hZero : Grows (element F config 0) fun _ => True := fun _ => ⟨List.prefix_rfl, nofun⟩
  have hElements := comparing_elements hSelf (Nat.add_zero _).symm hZero depth
  exact ((hElements.related () trivial).grows.weaken fun _ _ => trivial) t

end CompactType.Parse
