import CompactType.Proofs.Accounts
import CompactType.Proofs.Forward
import Mathlib.Data.List.Sublists

/-!
# Chronicles of a run

What a run writes down while it reads a text. Each symbol is traced where it stands, each struct is
assigned its number as soon as it is declared. Of the characters that are read without failing,
some are silent: digits, the cross, closing delimiters, and the brace behind the heading of a
definition. All others are traced.
-/

set_option autoImplicit false

namespace CompactType

namespace Event

variable {H : Type}

def traced? : Event H → Option (Char × Nat)
  | symbol s pos => some (s.char, pos)
  | _ => none

def assigned? : Event H → Option (Nat × String)
  | assigned number name => some (number, name)
  | _ => none

theorem level_of_call [ToString H] {call : Call H} {entry : Level × String}
    (h : Event.entry? (.call call) = some entry) : entry.1 = .debug := by
  cases call with
  | made r handle =>
    cases r <;> cases h
    rfl
  | body handle fields =>
    cases h
    rfl

end Event

namespace Parse

variable {σ H α β : Type} {config : Config}

def traces (events : List (Event H)) : List (Char × Nat) := events.filterMap Event.traced?

def assignments (events : List (Event H)) : List (Nat × String) := events.filterMap Event.assigned?

section Silence

/-- Characters that are read without a trace. Behind the heading of a definition the opening brace
is one of them. -/
def silent (heading : Bool) (c : Char) : Bool :=
  c.isDigit || c == 'x' || c == '}' || c == ']' || c == '>' || c == ')' || heading && c == '{'

/-- A heading is an equals sign with digits behind it. -/
def inHeading (heading : Bool) (c : Char) : Bool := c == '=' || heading && c.isDigit

def headed (heading : Bool) (text : List Char) : Bool := text.foldl inHeading heading

/-- The characters of the text that are traced, with their positions. -/
def told (heading : Bool) (pos : Nat) : List Char → List (Char × Nat)
  | [] => []
  | c :: text =>
    (if silent heading c then [] else [(c, pos)]) ++ told (inHeading heading c) (pos + 1) text

theorem headed_append (heading : Bool) (text more : List Char) :
    headed heading (text ++ more) = headed (headed heading text) more :=
  List.foldl_append

theorem headed_concat (heading : Bool) (text : List Char) (c : Char) :
    headed heading (text ++ [c]) = inHeading (headed heading text) c :=
  headed_append heading text [c]

theorem told_append (heading : Bool) (pos : Nat) (text more : List Char) :
    told heading pos (text ++ more) =
      told heading pos text ++ told (headed heading text) (pos + text.length) more := by
  induction text generalizing heading pos with
  | nil => rfl
  | cons c text ih =>
    simp only [List.cons_append, told, ih, List.append_assoc, List.length_cons]
    rw [Nat.add_assoc pos 1, Nat.add_comm 1]
    rfl

theorem told_sublist (heading : Bool) (pos : Nat) (text : List Char) :
    (told heading pos text).Sublist (text.zipIdx pos) := by
  induction text generalizing heading pos with
  | nil => exact .slnil
  | cons c text ih =>
    rw [told, List.zipIdx_cons]
    split
    · exact (ih _ _).cons _
    · exact (ih _ _).cons_cons _

theorem inHeading_digit (heading : Bool) {c : Char} (hc : c.isDigit = true) :
    inHeading heading c = heading := by
  have hNot : (c == '=') = false := by
    rw [beq_eq_false_iff_ne]
    rintro rfl
    cases hc
  rw [inHeading, hNot, hc, Bool.and_true, Bool.false_or]

theorem told_digits (heading : Bool) (pos : Nat) {run : List Char}
    (hRun : ∀ c ∈ run, c.isDigit = true) :
    told heading pos run = [] ∧ headed heading run = heading := by
  induction run generalizing pos with
  | nil => exact ⟨rfl, rfl⟩
  | cons c run ih =>
    rw [List.forall_mem_cons] at hRun
    have hSame := inHeading_digit heading hRun.1
    obtain ⟨hTold, hHeaded⟩ := ih (pos + 1) hRun.2
    rw [told, hSame, hTold, silent, hRun.1]
    exact ⟨rfl, by rwa [headed, List.foldl_cons, hSame]⟩

theorem mem_told {heading : Bool} {pos p : Nat} {c : Char} {text : List Char} :
    (c, p) ∈ told heading pos text ↔ ∃ before after, text = before ++ c :: after ∧
      p = pos + before.length ∧ silent (headed heading before) c = false := by
  induction text generalizing heading pos with
  | nil => simp [told]
  | cons d text ih =>
    rw [told, List.mem_append, ih]
    constructor
    · rintro (hHead | ⟨before, after, rfl, rfl, hSilent⟩)
      · split at hHead
        · cases hHead
        · next hSilent =>
          obtain ⟨rfl, rfl⟩ := Prod.mk.inj (List.mem_singleton.mp hHead)
          exact ⟨[], text, rfl, rfl, Bool.eq_false_iff.mpr hSilent⟩
      · exact ⟨d :: before, after, rfl, by rw [List.length_cons]; omega, hSilent⟩
    · rintro ⟨before, after, hText, rfl, hSilent⟩
      cases before with
      | nil =>
        obtain ⟨rfl, rfl⟩ := List.cons.inj hText
        rw [show silent heading d = false from hSilent]
        exact .inl List.mem_cons_self
      | cons e before =>
        obtain ⟨rfl, rfl⟩ := List.cons.inj hText
        exact .inr ⟨before, after, rfl, by rw [List.length_cons]; omega, hSilent⟩

/-- An equals sign and digits stand at the end of the text. -/
def EndsWithHeading (text : List Char) : Prop :=
  ∃ front run, text = front ++ '=' :: run ∧ ∀ c ∈ run, c.isDigit = true

theorem headed_eq_true_iff {text : List Char} : headed false text = true ↔ EndsWithHeading text := by
  induction text using List.reverseRecOn with
  | nil =>
    constructor
    · rintro ⟨⟩
    · rintro ⟨front, run, hText, -⟩
      simp at hText
  | append_singleton text c ih =>
    rw [headed_concat]
    constructor
    · intro h
      obtain hEquals | hDigit := Bool.or_eq_true_iff.mp h
      · obtain rfl := beq_iff_eq.mp hEquals
        exact ⟨text, [], rfl, List.forall_mem_nil _⟩
      · obtain ⟨hHeaded, hc⟩ := Bool.and_eq_true_iff.mp hDigit
        obtain ⟨front, run, rfl, hRun⟩ := ih.mp hHeaded
        exact ⟨front, run ++ [c], by simp, List.forall_mem_append.mpr ⟨hRun, by simpa using hc⟩⟩
    · rintro ⟨front, run, hText, hRun⟩
      obtain rfl | ⟨run, d, rfl⟩ := List.eq_nil_or_concat run
      · obtain ⟨-, hc⟩ := List.append_inj' hText rfl
        cases hc
        rfl
      · have hText' : text ++ [c] = (front ++ '=' :: run) ++ [d] := by simpa using hText
        obtain ⟨rfl, hc⟩ := List.append_inj' hText' rfl
        cases hc
        rw [List.concat_eq_append, List.forall_mem_append, List.forall_mem_singleton] at hRun
        rw [inHeading_digit _ hRun.2]
        exact ih.mpr ⟨front, run, rfl, hRun.1⟩

end Silence

section Announced

/-- `Announced config n events m`: with `n` structs declared before the events and `m` after them,
each declaration has the next number in the name and is followed by the assignment of it. -/
inductive Announced (config : Config) : Nat → List (Event H) → Nat → Prop where
  | nil (n : Nat) : Announced config n [] n
  | symbol {n m : Nat} {events : List (Event H)} (symbol : Symbol) (pos : Nat) :
    Announced config n events m → Announced config n (.symbol symbol pos :: events) m
  | call {n m : Nat} {events : List (Event H)} {call : Call H} :
    call.declared? = none → Announced config n events m →
    Announced config n (.call call :: events) m
  | struct {n m : Nat} {events : List (Event H)} {handle : H} :
    Announced config (n + 1) events m →
    Announced config n (.call (.made (.declare (config.structName n)) handle) ::
      .assigned n (config.structName n) :: events) m

variable {n k m : Nat} {events more : List (Event H)}

theorem Announced.append (h : Announced config n events k) (h' : Announced config k more m) :
    Announced config n (events ++ more) m := by
  induction h with
  | nil => exact h'
  | symbol symbol pos _ ih => exact (ih h').symbol symbol pos
  | call hNone _ ih => exact (ih h').call hNone
  | struct _ ih => exact (ih h').struct

theorem Announced.assignments_eq (h : Announced config n events m) :
    n + (assignments events).length = m ∧
      assignments events = (List.range' n (assignments events).length).map
        fun number => (number, config.structName number) := by
  induction h with
  | nil => exact ⟨rfl, rfl⟩
  | symbol _ _ _ ih => exact ih
  | call _ _ ih => exact ih
  | @struct n m events _ _ ih =>
    obtain ⟨hCount, hNumbers⟩ := ih
    change n + ((assignments events).length + 1) = m ∧ (n, config.structName n) ::
      assignments events = (List.range' n ((assignments events).length + 1)).map _
    rw [List.range'_succ, List.map_cons, ← hNumbers]
    exact ⟨by omega, rfl⟩

/-- What is assigned a number was declared just before with the same name, after as many others. -/
theorem Announced.declared_before (h : Announced config n events m)
    {before after : List (Event H)} {number : Nat} {name : String}
    (hEvents : events = before ++ .assigned number name :: after) :
    number = n + (assignments before).length ∧ ∃ front handle,
      before = front ++ [.call (.made (.declare name) handle)] ∧
      number = n + (declarations (front.filterMap Event.call?)).length := by
  induction h generalizing before with
  | nil => simp at hEvents
  | symbol _ _ _ ih =>
    cases before with
    | nil => cases hEvents
    | cons e before =>
      obtain ⟨rfl, hRest⟩ := List.cons.inj hEvents
      obtain ⟨hNumber, front, handle, rfl, hCount⟩ := ih hRest
      exact ⟨hNumber, _ :: front, handle, rfl, hCount⟩
  | @call _ _ _ call hNone _ ih =>
    cases before with
    | nil => cases hEvents
    | cons e before =>
      obtain ⟨rfl, hRest⟩ := List.cons.inj hEvents
      obtain ⟨hNumber, front, handle, rfl, hCount⟩ := ih hRest
      refine ⟨hNumber, .call call :: front, handle, rfl, ?_⟩
      change number = _ + (declarations (call :: front.filterMap Event.call?)).length
      rwa [declarations, List.filterMap_cons_none hNone]
  | @struct n _ _ handle _ ih =>
    cases before with
    | nil => cases hEvents
    | cons first before =>
      cases before with
      | nil =>
        cases hEvents
        exact ⟨rfl, [], handle, rfl, rfl⟩
      | cons second before =>
        obtain ⟨rfl, hRest⟩ := List.cons.inj hEvents
        obtain ⟨rfl, hRest'⟩ := List.cons.inj hRest
        obtain ⟨hNumber, front, handle', rfl, hCount⟩ := ih hRest'
        refine ⟨?_, _ :: _ :: front, handle', rfl, ?_⟩
        · change _ = n + ((assignments _).length + 1)
          omega
        · change _ = n + ((declarations (front.filterMap Event.call?)).length + 1)
          omega

theorem Announced.level_ne_info [ToString H] (h : Announced config n events m) :
    ∀ e ∈ events, ∀ entry, e.entry? = some entry → entry.1 ≠ .info := by
  induction h with
  | nil => exact List.forall_mem_nil _
  | symbol _ _ _ ih =>
    refine List.forall_mem_cons.mpr ⟨?_, ih⟩
    rintro _ ⟨⟩ ⟨⟩
  | @call _ _ _ call _ _ ih =>
    refine List.forall_mem_cons.mpr ⟨fun entry hEntry hInfo => ?_, ih⟩
    have hDebug := Event.level_of_call hEntry
    rw [hInfo] at hDebug
    cases hDebug
  | struct _ ih =>
    refine List.forall_mem_cons.mpr ⟨?_, List.forall_mem_cons.mpr ⟨?_, ih⟩⟩
    · rintro _ ⟨⟩ ⟨⟩
    · rintro _ ⟨⟩ ⟨⟩

end Announced

/-- Between the states the text is read and the events are written down. -/
structure Narrates (config : Config) (s s' : State σ H) (text : List Char)
    (events : List (Event H)) : Prop where
  passes : Passes s text s'
  journal_eq : s'.journal.toList = s.journal.toList ++ events
  announced : Announced config s.opened.size events s'.opened.size

/-- What a run tells. If it ends well, it traced what it read except for silent characters; if it
fails, its traces are still in order. The flag says whether a heading stands before. The answer is
judged with the structs that are declared then, and with whether a heading stands behind. -/
inductive Tells (config : Config) (heading : Bool) (s : State σ H)
    (answers : Nat → Bool → α → Prop) : EStateM.Result Fault (State σ H) α → Prop where
  | ok {a : α} {s' : State σ H} {text : List Char} {events : List (Event H)} :
    Narrates config s s' text events → traces events = told heading s.cursor.pos text →
    answers s'.opened.size (headed heading text) a → Tells config heading s answers (.ok a s')
  | error {fault : Fault} {s' : State σ H} {text : List Char} {events : List (Event H)} :
    Narrates config s s' text events → (traces events).Sublist (text.zipIdx s.cursor.pos) →
    Tells config heading s answers (.error fault s')

/-- The parser tells what it does whenever so many structs are declared. -/
def Chronicles (config : Config) (heading : Bool) (count : Nat) (x : Parser σ H α)
    (answers : Nat → Bool → α → Prop) : Prop :=
  ∀ s, s.opened.size = count → Tells config heading s answers (x.run s)

section Rules

variable {s s₁ s' : State σ H} {text more : List Char} {events events' : List (Event H)}
  {heading heading₁ : Bool} {count : Nat} {x : Parser σ H α} {f : α → Parser σ H β}
  {answers weaker : Nat → Bool → α → Prop} {answers' : Nat → Bool → β → Prop}

theorem Narrates.refl (s : State σ H) : Narrates config s s [] [] :=
  ⟨.nil rfl, (List.append_nil _).symm, .nil _⟩

theorem Narrates.trans (h : Narrates config s s₁ text events)
    (h' : Narrates config s₁ s' more events') :
    Narrates config s s' (text ++ more) (events ++ events') where
  passes := h.passes.trans h'.passes
  journal_eq := by rw [h'.journal_eq, h.journal_eq, List.append_assoc]
  announced := h.announced.append h'.announced

theorem traces_append (events events' : List (Event H)) :
    traces (events ++ events') = traces events ++ traces events' :=
  List.filterMap_append

theorem Tells.prepend {result : EStateM.Result Fault (State σ H) α}
    (hNarrates : Narrates config s s₁ text events)
    (hTraces : traces events = told heading s.cursor.pos text)
    (hHeaded : headed heading text = heading₁) (h : Tells config heading₁ s₁ answers result) :
    Tells config heading s answers result := by
  subst hHeaded
  cases h with
  | ok hNarrates' hTraces' hAnswers =>
    refine .ok (hNarrates.trans hNarrates') ?_ (headed_append heading text _ ▸ hAnswers)
    rw [traces_append, told_append, hTraces, hTraces', hNarrates.passes.pos_eq]
  | error hNarrates' hTraces' =>
    refine .error (hNarrates.trans hNarrates') ?_
    rw [traces_append, List.zipIdx_append, hTraces, ← hNarrates.passes.pos_eq]
    exact (told_sublist ..).append hTraces'

theorem Tells.weaken {result : EStateM.Result Fault (State σ H) α}
    (h : Tells config heading s answers result)
    (hWeaker : ∀ n heading' a, answers n heading' a → weaker n heading' a) :
    Tells config heading s weaker result := by
  cases h with
  | ok hNarrates hTraces hAnswers => exact .ok hNarrates hTraces (hWeaker _ _ _ hAnswers)
  | error hNarrates hTraces => exact .error hNarrates hTraces

theorem narrates_read {cursor : Cursor Char} (hRest : s.cursor.rest = text ++ cursor.rest)
    (hPos : cursor.pos = s.cursor.pos + text.length) (hSize : ∀ c ∈ text, c.utf8Size = 1) :
    Narrates config s { s with cursor := cursor } text [] :=
  ⟨⟨hRest, hPos, hSize⟩, (List.append_nil _).symm, .nil _⟩

namespace Chronicles

theorem weaken (h : Chronicles config heading count x answers)
    (hWeaker : ∀ n heading' a, answers n heading' a → weaker n heading' a) :
    Chronicles config heading count x weaker :=
  fun s hs => (h s hs).weaken hWeaker

theorem bind (hx : Chronicles config heading count x answers)
    (hf : ∀ n heading' a, answers n heading' a → Chronicles config heading' n (f a) answers') :
    Chronicles config heading count (x >>= f) answers' := by
  intro s hs
  have hFirst := hx s hs
  rw [EStateM.run_bind]
  generalize x.run s = result at hFirst ⊢
  cases hFirst with
  | ok hNarrates hTraces hAnswers => exact (hf _ _ _ hAnswers _ rfl).prepend hNarrates hTraces rfl
  | error hNarrates hTraces => exact .error hNarrates hTraces

theorem still (hx : ∀ s, s.opened.size = count → ∃ a, x.run s = .ok a s ∧ answers count heading a) :
    Chronicles config heading count x answers := by
  rintro s rfl
  obtain ⟨a, hRun, ha⟩ := hx s rfl
  rw [hRun]
  exact .ok (.refl s) rfl ha

theorem fail (cause : Cause) (pos : Nat) :
    Chronicles config heading count (fail cause pos : Parser σ H α) answers :=
  fun s _ => .error (.refl s) .slnil

theorem request {F : Factory σ H} {r : Request H} (hName : r.name? = none)
    {answers : Nat → Bool → H → Prop} (h : ∀ a, answers count heading a) :
    Chronicles config heading count (request F r) answers := by
  rintro s rfl
  have hNone : (Call.made r (F.make r s.store).1).declared? = none := by
    rw [Call.declared?, hName]
    rfl
  have hNarrates : Narrates config s
      { s with
        store := (F.make r s.store).2
        journal := s.journal.push (.call (.made r (F.make r s.store).1)) } []
      [.call (.made r (F.make r s.store).1)] :=
    ⟨.nil rfl, Array.toList_push, .call hNone (.nil _)⟩
  exact .ok hNarrates rfl (h _)

theorem complete {F : Factory σ H} {handle : H} {fields : List H} :
    Chronicles config heading count (complete F handle fields)
      fun _ heading' _ => heading' = heading := by
  rintro s rfl
  have hNarrates : Narrates config s
      { s with
        store := (F.setBody handle fields s.store).2
        journal := s.journal.push (.call (.body handle fields)) } []
      [.call (.body handle fields)] :=
    ⟨.nil rfl, Array.toList_push, .call rfl (.nil _)⟩
  rw [run_complete]
  simp only
  split
  · exact .ok hNarrates rfl rfl
  · exact .error hNarrates (List.Sublist.refl [])

theorem eat {c : Char} (hSize : c.utf8Size = 1) (hSilent : silent heading c = true)
    {answers : Nat → Bool → Bool → Prop} (hFound : answers count (inHeading heading c) true)
    (hMissing : answers count heading false) :
    Chronicles config heading count (eat c : Parser σ H Bool) answers := by
  rintro s rfl
  rw [run_eat]
  by_cases hLooks : s.cursor.looksAt c = true
  · obtain ⟨rest, hRest⟩ : ∃ rest, s.cursor.rest = c :: rest :=
      List.head?_eq_some_iff.mp (beq_iff_eq.mp hLooks)
    have hNarrates : Narrates config s { s with cursor := ⟨s.cursor.pos + 1, rest⟩ } [c] [] :=
      narrates_read hRest rfl (List.forall_mem_singleton.mpr hSize)
    simp only [Cursor.eat, hLooks, if_true, Cursor.advance, hRest]
    refine .ok hNarrates ?_ hFound
    rw [told, hSilent]
    rfl
  · simp only [Cursor.eat, hLooks]
    exact .ok (.refl s) rfl hMissing

theorem number {limit : Nat} {cause : Cause} {answers : Nat → Bool → Nat → Prop}
    (h : ∀ n, answers count heading n) :
    Chronicles config heading count (number limit cause : Parser σ H Nat) answers := by
  rintro s rfl
  have hDigits : ∀ c ∈ s.cursor.rest.takeWhile Char.isDigit, c.isDigit = true :=
    fun c hc => List.all_eq_true.mp List.all_takeWhile c hc
  obtain ⟨hTold, hHeaded⟩ := told_digits heading s.cursor.pos hDigits
  have hNarrates : Narrates config s { s with cursor := (s.cursor.takeRun Char.isDigit).2 }
      (s.cursor.rest.takeWhile Char.isDigit) [] :=
    narrates_read List.takeWhile_append_dropWhile.symm rfl
      fun c hc => utf8Size_of_isDigit (hDigits c hc)
  rw [run_number]
  simp only
  split
  · exact .error hNarrates (List.nil_sublist _)
  · exact .ok hNarrates hTold.symm (hHeaded.symm ▸ h _)

theorem define {F : Factory σ H} {x : Parser σ H (List H)} {answers : Nat → Bool → H → Prop}
    (hx : ∀ n, Chronicles config heading n x fun _ heading' _ => heading' = false)
    (h : ∀ n a, answers n false a) :
    Chronicles config heading count
      (do
        let handle ← Parse.request F (.declare (config.structName count))
        register handle
        emit (.assigned count (config.structName count))
        Parse.complete F handle (← x)
        return handle)
      answers := by
  rintro s rfl
  rw [run_request_bind, run_register_bind, run_emit_bind]
  let name := config.structName s.opened.size
  let answer := F.make (.declare name) s.store
  let after : State σ H :=
    { s with
      opened := s.opened.push answer.1
      store := answer.2
      journal := (s.journal.push (.call (.made (.declare name) answer.1))).push
        (.assigned s.opened.size name) }
  have hNarrates : Narrates config s after []
      [.call (.made (.declare name) answer.1), .assigned s.opened.size name] := by
    refine ⟨.nil rfl, ?_, ?_⟩
    · rw [Array.toList_push, Array.toList_push, List.append_assoc]
      rfl
    · rw [show after.opened.size = s.opened.size + 1 from Array.size_push _]
      exact .struct (.nil _)
  have hBody (fields : List H) (n : Nat) : Chronicles config false n
      (Parse.complete F answer.1 fields >>= fun _ => pure answer.1) answers := by
    apply complete.bind
    rintro n' _ _ rfl
    exact still fun _ _ => ⟨_, rfl, h n' _⟩
  have hRest := (hx after.opened.size).bind fun n heading' fields hHeading =>
    hHeading ▸ hBody fields n
  exact (hRest after rfl).prepend hNarrates rfl rfl

theorem dispatch {F : Factory σ H} {sub : ElementParser σ H}
    {answers : Nat → Bool → Option (Element H) → Prop} (hNone : answers count false none)
    (hSome : ∀ start symbol, Chronicles config (inHeading false symbol.char) count
      (afterSymbol F config sub start symbol) answers) :
    Chronicles config false count (dispatch F config sub) answers := by
  rintro s rfl
  have hCases := dispatches F config sub s
  generalize (Parse.dispatch F config sub).run s = result at hCases ⊢
  cases hCases with
  | nothing => exact .ok (.refl s) rfl hNone
  | unknown => exact .error (.refl s) .slnil
  | @symbol symbol rest hRest =>
    have hNarrates : Narrates config s (s.afterRead symbol rest) [symbol.char]
        [.symbol symbol s.cursor.pos] :=
      ⟨⟨hRest, rfl, List.forall_mem_singleton.mpr symbol.utf8Size_char⟩, Array.toList_push,
        .symbol _ _ (.nil _)⟩
    have hOpener (hSilent : silent false symbol.char = false) : Tells config false s answers
        ((afterSymbol F config sub s.cursor.pos symbol).run (s.afterRead symbol rest)) := by
      refine (hSome s.cursor.pos symbol (s.afterRead symbol rest) rfl).prepend hNarrates ?_ rfl
      rw [told, hSilent]
      rfl
    cases symbol with
    | scalar letter => cases letter <;> exact hOpener rfl
    | closeBrace | closeBracket | greater | closeParen | cross =>
      exact .error hNarrates (List.Sublist.refl _)
    | _ => exact hOpener rfl

end Chronicles

end Rules

def Stage.heads : Stage → Bool
  | .heading | .numbered => true
  | _ => false

theorem Stage.Eats.tells {p q : Stage} {c : Char} (h : p.Eats c q) :
    c.utf8Size = 1 ∧ silent p.heads c = true ∧ inHeading p.heads c = q.heads := by
  cases h <;> exact ⟨rfl, rfl, rfl⟩

theorem Stage.Numbers.heads_eq {p q : Stage} (h : p.Numbers q) : q.heads = p.heads := by
  cases h <;> rfl

theorem Stage.heads_after (symbol : Symbol) :
    (Stage.after symbol).heads = inHeading false symbol.char := by
  cases symbol with
  | scalar letter => cases letter <;> rfl
  | _ => rfl

def chronicling (F : Factory σ H) (config : Config) : Simulation F F config config where
  World := Nat
  Later _ _ := True
  Beyond _ _ := True
  Handles _ _ _ := True
  Positions _ _ _ := True
  Counts count n := n = count
  Related count p x _ answers := Chronicles config p.heads count x fun n heading a =>
    ∃ q b, q.heads = heading ∧ answers n q a b
  later_refl _ := trivial
  later_trans _ _ := trivial
  later_of_beyond _ := trivial
  beyond_of_later _ _ := trivial
  handles_mono _ _ _ h := h
  positions_mono _ _ _ h := h
  related_pure {_ _ _ p _ b _} h := Chronicles.still fun _ _ => ⟨_, rfl, p, b, rfl, h⟩
  related_bind hx hf := hx.bind fun n _ a ⟨q, b, hHeads, hAnswers⟩ =>
    hHeads ▸ hf n q a b trivial hAnswers
  related_fail _ _ := Chronicles.fail _ _
  related_limit hLeft _ hRelated s hs := by
    obtain ⟨n, hRun⟩ := hLeft s
    exact hRun n le_rfl ▸ hRelated n s hs
  found_of_within h := h
  closed_of_found h := h
  related_here _ p := Chronicles.still fun _ _ => ⟨_, rfl, p, 0, rfl, rfl, rfl, trivial⟩
  related_nextNumber _ p :=
    Chronicles.still fun s hs => ⟨_, rfl, p, s.opened.size, rfl, rfl, rfl, rfl, hs⟩
  related_opened? _ number := Chronicles.still fun s _ =>
    ⟨_, rfl, .found, _, rfl, rfl, rfl, optionRel_refl (fun _ => trivial) s.opened[number]?⟩
  related_classOf _ := Chronicles.still fun _ _ => ⟨_, rfl, .within, _, rfl, rfl, rfl, rfl⟩
  related_looksAt _ _ := Chronicles.still fun _ _ => ⟨_, rfl, .within, _, rfl, rfl, rfl, rfl⟩
  related_eat {p q _} _ h :=
    Chronicles.eat h.tells.1 h.tells.2.1 ⟨q, true, h.tells.2.2.symm, rfl, rfl, le_rfl⟩
      ⟨p, false, rfl, rfl, rfl, le_rfl⟩
  related_number {_ q _ _} _ h _ := Chronicles.number fun n => ⟨q, n, h.heads_eq, rfl, rfl⟩
  related_request hRequest :=
    Chronicles.request hRequest.name?_eq_none fun a => ⟨.found, a, rfl, rfl, trivial⟩
  related_define hCount hx := by
    obtain rfl := hCount
    refine Chronicles.define (fun n => ?_) fun n a => ⟨.found, a, rfl, rfl, trivial⟩
    apply (hx n trivial).weaken
    rintro _ _ _ ⟨_, _, rfl, rfl, -⟩
    rfl
  related_dispatch hNone hSome :=
    Chronicles.dispatch ⟨.within, none, rfl, hNone⟩ fun start symbol => by
      rw [← Stage.heads_after]
      exact hSome _ start start symbol symbol trivial trivial (.refl symbol)

theorem chronicling_elements (F : Factory σ H) (config : Config) (depth count : Nat) :
    Simulation.Elements (S := chronicling F config) count (element F config depth)
      (element F config depth) := by
  refine ⟨fun count' _ => ?_, progresses_element _ _ _, progresses_element _ _ _⟩
  induction depth generalizing count' with
  | zero => exact fun s _ => .error (.refl s) .slnil
  | succ depth ih =>
    refine Simulation.related_element fun count'' _ => ?_
    exact ⟨fun count₁ _ => ih count₁ trivial, progresses_element _ _ _, progresses_element _ _ _⟩

end Parse

end CompactType
