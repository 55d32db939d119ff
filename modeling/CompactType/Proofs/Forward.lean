import CompactType.Proofs.SimulatedForms
import Mathlib.Data.Nat.Basic

/-!
# How far a run gets

A run only moves forward, and an element that is read takes at least one character. A fault stands
at a place that was reached. If it says that types nest too deep, the levels above it have taken a
character each.
-/

set_option autoImplicit false

namespace CompactType.Parse

variable {σ H α β : Type}

/-- The second state is as far in the same text or farther. -/
structure Onward (s s' : State σ H) : Prop where
  pos_le : s.cursor.pos ≤ s'.cursor.pos
  length_eq : s'.cursor.length = s.cursor.length

theorem Onward.refl (s : State σ H) : Onward s s := ⟨le_rfl, rfl⟩

theorem Onward.trans {s s₁ s' : State σ H} (h : Onward s s₁) (h' : Onward s₁ s') : Onward s s' :=
  ⟨h.pos_le.trans h'.pos_le, h'.length_eq.trans h.length_eq⟩

/-- A fault at a place that was reached. Only the limit is given as a limit of nesting, and not in
front of the place where the levels can be used up. -/
structure Bounded (limit deepest reached : Nat) (fault : Fault) : Prop where
  pos_le : fault.pos ≤ reached
  too_deep : ∀ d, fault.cause = .nestingTooDeep d → d = limit ∧ deepest ≤ fault.pos

theorem Flat.bounded {limit deepest reached : Nat} {cause : Cause} {pos : Nat} (h : Flat cause)
    (hPos : pos ≤ reached) : Bounded limit deepest reached ⟨cause, pos⟩ := by
  refine ⟨hPos, ?_⟩
  rintro d rfl
  exact h.elim

/-- How far a run from the state gets. The answer is judged by the place where it is complete. -/
inductive Reaches (limit deepest : Nat) (s : State σ H) (answers : Nat → α → Prop) :
    EStateM.Result Fault (State σ H) α → Prop where
  | ok {a : α} {s' : State σ H} :
    Onward s s' → answers s'.cursor.pos a → Reaches limit deepest s answers (.ok a s')
  | error {fault : Fault} {s' : State σ H} :
    Onward s s' → Bounded limit deepest s'.cursor.pos fault →
    Reaches limit deepest s answers (.error fault s')

theorem Reaches.precede {limit deepest : Nat} {s s₁ : State σ H} {answers : Nat → α → Prop}
    {result : EStateM.Result Fault (State σ H) α} (h : Reaches limit deepest s₁ answers result)
    (hOnward : Onward s s₁) : Reaches limit deepest s answers result := by
  cases h with
  | ok hOnward' hAnswers => exact .ok (hOnward.trans hOnward') hAnswers
  | error hOnward' hBounded => exact .error (hOnward.trans hOnward') hBounded

def Forward (limit deepest pos : Nat) (x : Parser σ H α) (answers : Nat → α → Prop) : Prop :=
  ∀ s, s.cursor.pos = pos → Reaches limit deepest s answers (x.run s)

namespace Forward

variable {limit deepest pos : Nat} {x : Parser σ H α} {f : α → Parser σ H β}
  {answers answers' : Nat → α → Prop} {answers₁ : Nat → β → Prop}

theorem length_eq (hx : Forward limit deepest pos x answers) {s s' : State σ H} {a : α}
    (hs : s.cursor.pos = pos) (h : x.run s = .ok a s') :
    s'.cursor.length = s.cursor.length := by
  have hReaches := hx s hs
  rw [h] at hReaches
  cases hReaches with
  | ok hOnward _ => exact hOnward.length_eq

theorem weaken (hx : Forward limit deepest pos x answers)
    (hAnswers : ∀ pos' a, answers pos' a → answers' pos' a) :
    Forward limit deepest pos x answers' := by
  intro s hs
  have hReaches := hx s hs
  generalize x.run s = result at hReaches ⊢
  cases hReaches with
  | ok hOnward h => exact .ok hOnward (hAnswers _ _ h)
  | error hOnward hBounded => exact .error hOnward hBounded

theorem bind (hx : Forward limit deepest pos x answers)
    (hf : ∀ pos' a, pos ≤ pos' → answers pos' a → Forward limit deepest pos' (f a) answers₁) :
    Forward limit deepest pos (x >>= f) answers₁ := by
  rintro s rfl
  have hFirst := hx s rfl
  rw [EStateM.run_bind]
  generalize x.run s = result at hFirst ⊢
  cases hFirst with
  | error hOnward hBounded => exact .error hOnward hBounded
  | ok hOnward hAnswers => exact (hf _ _ hOnward.pos_le hAnswers _ rfl).precede hOnward

theorem still (hx : ∀ s, ∃ a s', x.run s = .ok a s' ∧ s'.cursor = s.cursor)
    (hAnswers : ∀ a, answers pos a) : Forward limit deepest pos x answers := by
  rintro s rfl
  obtain ⟨a, s', hRun, hCursor⟩ := hx s
  rw [hRun]
  exact .ok ⟨hCursor ▸ le_rfl, congrArg Cursor.length hCursor⟩ (hCursor ▸ hAnswers a)

theorem still_bind (hx : ∀ s, ∃ a s', x.run s = .ok a s' ∧ s'.cursor = s.cursor)
    (hf : ∀ a, Forward limit deepest pos (f a) answers₁) :
    Forward limit deepest pos (x >>= f) answers₁ := by
  have hStill : Forward limit deepest pos x fun pos' _ => pos' = pos := still hx fun _ => rfl
  apply hStill.bind
  rintro _ a - rfl
  exact hf a

theorem eat {answers : Nat → Bool → Prop} (c : Char) (h : ∀ pos' found, answers pos' found) :
    Forward limit deepest pos (eat c : Parser σ H Bool) answers := by
  intro s _
  rw [run_eat]
  refine .ok ⟨?_, s.cursor.length_eat c⟩ (h _ _)
  unfold Cursor.eat
  split
  · exact s.cursor.pos_le_pos_advance
  · exact le_rfl

theorem number {bound : Nat} {cause : Cause} {answers : Nat → Nat → Prop} (hCause : Flat cause)
    (h : ∀ pos' n, answers pos' n) :
    Forward limit deepest pos (number bound cause : Parser σ H Nat) answers := by
  intro s _
  have hOnward : Onward s { s with cursor := (s.cursor.takeRun Char.isDigit).2 } :=
    ⟨s.cursor.pos_takeRun _ ▸ Nat.le_add_right _ _, s.cursor.length_takeRun _⟩
  rw [run_number]
  simp only
  split
  · exact .error hOnward (hCause.bounded hOnward.pos_le)
  · exact .ok hOnward (h _ _)

theorem complete {F : Factory σ H} {handle : H} {fields : List H} :
    Forward limit deepest pos (complete F handle fields) fun _ _ => True := by
  intro s _
  rw [run_complete]
  simp only
  split
  · exact .ok ⟨le_rfl, rfl⟩ trivial
  · exact .error ⟨le_rfl, rfl⟩ ⟨le_rfl, nofun⟩

theorem define {F : Factory σ H} {number : Nat} {name : String} {x : Parser σ H (List H)}
    {fields : Nat → List H → Prop} (hx : Forward limit deepest pos x fields)
    {answers : Nat → H → Prop} (h : ∀ pos' handle, answers pos' handle) :
    Forward limit deepest pos
      (do
        let handle ← request F (.declare name)
        register handle
        emit (.assigned number name)
        Parse.complete F handle (← x)
        return handle)
      answers := by
  refine still_bind (fun _ => ⟨_, _, rfl, rfl⟩) fun handle => ?_
  refine still_bind (fun _ => ⟨_, _, rfl, rfl⟩) fun _ => ?_
  refine still_bind (fun _ => ⟨_, _, rfl, rfl⟩) fun _ => ?_
  refine hx.bind fun _ fields _ _ => complete.bind fun pos' _ _ _ => ?_
  exact still (fun _ => ⟨_, _, rfl, rfl⟩) fun _ => h pos' _

theorem dispatch {F : Factory σ H} {config : Config} {sub : ElementParser σ H}
    {answers : Nat → Option (Element H) → Prop} (hNone : answers pos none)
    (hSome : ∀ symbol,
      Forward limit deepest (pos + 1) (afterSymbol F config sub pos symbol) answers) :
    Forward limit deepest pos (dispatch F config sub) answers := by
  rintro s rfl
  have hCases := dispatches F config sub s
  generalize (Parse.dispatch F config sub).run s = result at hCases ⊢
  cases hCases with
  | nothing => exact .ok (.refl s) hNone
  | unknown => exact .error (.refl s) ⟨le_rfl, nofun⟩
  | @symbol symbol rest hRest =>
    refine (hSome symbol (s.afterRead symbol rest) rfl).precede ⟨Nat.le_succ _, ?_⟩
    simp only [Cursor.length, State.afterRead, hRest, List.length_cons]
    omega

end Forward

def forwarding (F : Factory σ H) (config : Config) (limit deepest : Nat) :
    Simulation F F config config where
  World := Nat
  Later := (· ≤ ·)
  Beyond := (· < ·)
  Handles _ _ _ := True
  Positions reached pos _ := pos ≤ reached
  Counts _ _ := True
  Related pos _ x _ answers := Forward limit deepest pos x fun pos' a => ∃ p b, answers pos' p a b
  later_refl _ := le_rfl
  later_trans := le_trans
  later_of_beyond := le_of_lt
  beyond_of_later := lt_of_lt_of_le
  handles_mono _ _ _ h := h
  positions_mono hLe _ _ hPos := hPos.trans hLe
  related_pure hAnswers s hs := .ok (.refl s) ⟨_, _, hs ▸ hAnswers⟩
  related_bind hx hf :=
    hx.bind fun pos' a hLe ⟨p, b, hAnswers⟩ => hf pos' p a b hLe hAnswers
  related_fail hCause hPos s hs := .error (.refl s) (hCause.bounded (hs ▸ hPos))
  related_limit hLeft _ hRelated s hs := by
    obtain ⟨n, hRun⟩ := hLeft s
    exact hRun n le_rfl ▸ hRelated n s hs
  found_of_within h := h
  closed_of_found h := h
  related_here pos p := by
    rintro s rfl
    exact .ok (.refl s) ⟨p, 0, rfl, rfl, le_rfl⟩
  related_nextNumber pos p :=
    Forward.still (fun _ => ⟨_, _, rfl, rfl⟩) fun n => ⟨p, n, rfl, rfl, rfl, trivial⟩
  related_opened? pos number :=
    Forward.still (fun _ => ⟨_, _, rfl, rfl⟩) fun found =>
      ⟨.found, found, rfl, rfl, optionRel_refl (fun _ => trivial) found⟩
  related_classOf _ :=
    Forward.still (fun _ => ⟨_, _, rfl, rfl⟩) fun k => ⟨.within, k, rfl, rfl, rfl⟩
  related_looksAt _ _ :=
    Forward.still (fun _ => ⟨_, _, rfl, rfl⟩) fun found => ⟨.within, found, rfl, rfl, rfl⟩
  related_eat _ _ := Forward.eat _ fun _ found => ⟨_, found, rfl, rfl, le_rfl⟩
  related_number _ _ hCause := Forward.number hCause fun _ n => ⟨_, n, rfl, rfl⟩
  related_request _ := Forward.still (fun _ => ⟨_, _, rfl, rfl⟩) fun a => ⟨.found, a, rfl, trivial⟩
  related_define _ hx := (hx _ le_rfl).define fun _ handle => ⟨.found, handle, rfl, trivial⟩
  related_dispatch hNone hSome :=
    Forward.dispatch ⟨_, _, hNone⟩ fun symbol =>
      hSome _ _ 0 symbol symbol (Nat.lt_succ_self _) (Nat.le_succ _) (.refl symbol)

/-- A parser for elements that reads at least one character if it finds one, with so many levels of
nesting left. -/
def ForwardElements (limit depth : Nat) (sub : ElementParser σ H) : Prop :=
  ∀ deepest pos, deepest ≤ pos + depth →
    Forward limit deepest pos sub fun pos' answer => answer.isSome → pos < pos'

namespace ForwardElements

variable {F : Factory σ H} {limit depth deepest pos : Nat} {sub : ElementParser σ H}

theorem progresses (h : ForwardElements limit depth sub) : Progresses sub := by
  intro s e s' hRun
  have hReaches := h 0 s.cursor.pos (Nat.zero_le _) s rfl
  rw [hRun] at hReaches
  cases hReaches with
  | ok hOnward hAnswers =>
    have hPos : s.cursor.pos < s'.cursor.pos := hAnswers rfl
    have hLength := hOnward.length_eq
    simp only [Cursor.length] at hLength
    omega

theorem length_eq (h : ForwardElements limit depth sub) {s s' : State σ H}
    {answer : Option (Element H)} (hRun : sub.run s = .ok answer s') :
    s'.cursor.length = s.cursor.length :=
  Forward.length_eq (h 0 s.cursor.pos (Nat.zero_le _)) rfl hRun

theorem elements (h : ForwardElements limit depth sub) (F : Factory σ H) (config : Config)
    (hLevels : deepest ≤ pos + depth) :
    Simulation.Elements (S := forwarding F config limit deepest) pos sub sub := by
  refine ⟨fun pos' hLe => ?_, h.progresses, h.progresses⟩
  apply (h deepest pos' (hLevels.trans (Nat.add_le_add_right hLe depth))).weaken
  rintro pos'' (_ | e) hSome
  · exact ⟨.within, none, .none _⟩
  · exact ⟨.found, some e, .some (hSome rfl) (.refl (fun _ => trivial) e)⟩

theorem elementType (h : ForwardElements limit depth sub) (hLevels : deepest ≤ pos + depth)
    {missing : Cause} (hMissing : Flat missing) (F : Factory σ H) (config : Config) :
    Forward limit deepest pos (elementType sub missing) fun _ _ => True :=
  ((h.elements F config hLevels).elementType hMissing).weaken fun _ _ _ => trivial

theorem dispatch (h : ForwardElements limit depth sub) (F : Factory σ H) (config : Config) :
    ForwardElements limit (depth + 1) (dispatch F config sub) := by
  intro deepest pos hLevels
  have hElement := Simulation.related_element (S := forwarding F config limit deepest) (w := pos)
    fun pos' (hLess : pos < pos') => h.elements F config (by omega)
  apply hElement.weaken
  rintro pos' _ ⟨p, b, hFound⟩ hSome
  cases hFound with
  | none => cases hSome
  | some hBeyond => exact hBeyond

end ForwardElements

theorem forwardElements_element (F : Factory σ H) (config : Config) (depth : Nat) :
    ForwardElements config.maxDepth depth (element F config depth) := by
  induction depth with
  | zero =>
    rintro deepest _ hLevels s rfl
    refine .error (.refl s) ⟨le_rfl, ?_⟩
    rintro _ ⟨⟩
    exact ⟨rfl, hLevels⟩
  | succ depth ih => exact ih.dispatch F config

theorem progresses_element (F : Factory σ H) (config : Config) (depth : Nat) :
    Progresses (element F config depth) :=
  (forwardElements_element F config depth).progresses

end CompactType.Parse
