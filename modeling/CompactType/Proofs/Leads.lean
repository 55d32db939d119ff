import CompactType.Proofs.Grammar
import CompactType.Proofs.Steps

/-!
# Runs that end well

A parser leads from one state to another with an answer, whatever the journal. Such runs compose,
and runs of an element parser one after another make up a run over a list of elements.
-/

set_option autoImplicit false

namespace CompactType.Parse

variable {σ H α β : Type}

/-- From the first state the parser answers and ends in the second one, journals aside. -/
def Leads (x : Parser σ H α) (s : State σ H) (a : α) (s' : State σ H) : Prop :=
  ∀ journal, ∃ journal', x.run { s with journal } = .ok a { s' with journal := journal' }

namespace Leads

variable {x : Parser σ H α} {f : α → Parser σ H β} {s s₁ s₂ : State σ H} {a : α} {b : β}

theorem bind (hx : Leads x s a s₁) (hf : Leads (f a) s₁ b s₂) : Leads (x >>= f) s b s₂ := by
  intro journal
  obtain ⟨journal₁, hFirst⟩ := hx journal
  obtain ⟨journal₂, hSecond⟩ := hf journal₁
  refine ⟨journal₂, ?_⟩
  rw [EStateM.run_bind, hFirst]
  exact hSecond

theorem pure (a : α) (s : State σ H) : Leads (pure a) s a s := fun journal => ⟨journal, rfl⟩

theorem map (hx : Leads x s a s₁) {g : α → β} : Leads (do return g (← x)) s (g a) s₁ :=
  hx.bind (pure _ _)

theorem here (s : State σ H) : Leads here s s.cursor.pos s := fun journal => ⟨journal, rfl⟩

theorem looksAt (c : Char) (s : State σ H) : Leads (looksAt c) s (s.cursor.looksAt c) s :=
  fun journal => ⟨journal, rfl⟩

theorem atEnd (s : State σ H) : Leads atEnd s s.cursor.atEnd s := fun journal => ⟨journal, rfl⟩

theorem nextNumber (s : State σ H) : Leads nextNumber s s.opened.size s :=
  fun journal => ⟨journal, rfl⟩

theorem emit (e : Event H) (s : State σ H) : Leads (emit e) s () s :=
  fun journal => ⟨journal.push e, rfl⟩

theorem classOf (F : Factory σ H) (handle : H) (s : State σ H) :
    Leads (classOf F handle) s (F.classOf s.store handle) s :=
  fun journal => ⟨journal, rfl⟩

theorem eat (c : Char) {pos : Nat} {rest : List Char} {opened : Array H} {store : σ}
    {journal : Journal H} :
    Leads (eat c) ⟨⟨pos, c :: rest⟩, opened, store, journal⟩ true
      ⟨⟨pos + 1, rest⟩, opened, store, journal⟩ := by
  intro journal
  refine ⟨journal, ?_⟩
  simp [run_eat, Cursor.eat, Cursor.looksAt, Cursor.peek?, Cursor.advance]

theorem close (c : Char) {pos : Nat} {rest : List Char} {opened : Array H} {store : σ}
    {journal : Journal H} :
    Leads (close c) ⟨⟨pos, c :: rest⟩, opened, store, journal⟩ ()
      ⟨⟨pos + 1, rest⟩, opened, store, journal⟩ := by
  intro journal
  refine ⟨journal, ?_⟩
  simp [run_close, Cursor.looksAt, Cursor.peek?, Cursor.advance]

theorem number {run : List Char} {value limit : Nat} (hRun : Numeral run value)
    (hLimit : value < limit) (cause : Cause) {pos : Nat} {rest : List Char}
    (hRest : NoDigit rest) {opened : Array H} {store : σ} {journal : Journal H} :
    Leads (number limit cause) ⟨⟨pos, run ++ rest⟩, opened, store, journal⟩ value
      ⟨⟨pos + run.length, rest⟩, opened, store, journal⟩ := by
  intro journal
  refine ⟨journal, ?_⟩
  simp only [run_number, Cursor.takeRun, hRun.takeWhile_append hRest,
    hRun.dropWhile_append hRest, hRun.value_eq]
  rw [if_neg (by simp [hRun.ne_nil, hLimit])]

theorem elementType {sub : ElementParser σ H} {handle : H}
    (hSub : Leads sub s (some (.type handle)) s₁) (missing : Cause) :
    Leads (elementType sub missing) s handle s₁ :=
  (here s).bind (hSub.bind (pure _ _))

theorem dispatch {F : Factory σ H} {config : Config} {sub : ElementParser σ H} (symbol : Symbol)
    {pos : Nat} {rest : List Char} {opened : Array H} {store : σ} {journal : Journal H}
    {answer : Option (Element H)}
    (h : Leads (afterSymbol F config sub pos symbol) ⟨⟨pos + 1, rest⟩, opened, store, journal⟩
      answer s₁) :
    Leads (dispatch F config sub) ⟨⟨pos, symbol.char :: rest⟩, opened, store, journal⟩
      answer s₁ := by
  intro journal
  obtain ⟨journal', hRun⟩ := h (journal.push (.symbol symbol pos))
  exact ⟨journal', (run_dispatch_symbol F config sub rfl).trans hRun⟩

end Leads

/-- From the first state the element parser reads the elements one by one. None of them starts
with the closing character and none is empty. -/
inductive LeadsAll (sub : ElementParser σ H) (closing : Char) :
    State σ H → List (Element H) → State σ H → Prop where
  | nil (s : State σ H) : LeadsAll sub closing s [] s
  | cons {s s₁ s₂ : State σ H} {e : Element H} {rest : List (Element H)} :
    s.cursor.looksAt closing = false → s₁.cursor.rest.length < s.cursor.rest.length →
    Leads sub s (some e) s₁ → LeadsAll sub closing s₁ rest s₂ →
    LeadsAll sub closing s (e :: rest) s₂

namespace LeadsAll

variable {sub : ElementParser σ H} {closing : Char} {s s₁ s₂ : State σ H}
  {elements more : List (Element H)}

theorem append (h : LeadsAll sub closing s elements s₁)
    (hMore : LeadsAll sub closing s₁ more s₂) :
    LeadsAll sub closing s (elements ++ more) s₂ := by
  induction h with
  | nil => exact hMore
  | cons hNot hLess hHead _ ih => exact cons hNot hLess hHead (ih hMore)

theorem length_le (h : LeadsAll sub closing s elements s₁) :
    elements.length + s₁.cursor.rest.length ≤ s.cursor.rest.length := by
  induction h with
  | nil => simp
  | cons _ hLess _ _ ih =>
    simp only [List.length_cons]
    omega

theorem sequenceWithin (h : LeadsAll sub closing s elements s₁)
    (hEnd : s₁.cursor.looksAt closing = true) {bound : Nat} (hBound : elements.length < bound) :
    ∃ placed, placed.map Placed.element = elements ∧
      Leads (sequenceWithin sub closing bound) s placed s₁ := by
  induction h generalizing bound with
  | nil s =>
    obtain ⟨bound, rfl⟩ := Nat.exists_eq_succ_of_ne_zero (n := bound) (by omega)
    refine ⟨[], rfl, (Leads.looksAt closing s).bind ?_⟩
    rw [hEnd]
    exact Leads.pure _ _
  | @cons s _ _ e _ hNot _ hHead _ ih =>
    obtain ⟨bound, rfl⟩ := Nat.exists_eq_succ_of_ne_zero (n := bound) (by omega)
    obtain ⟨placed, rfl, hTail⟩ := ih hEnd (Nat.lt_of_succ_lt_succ hBound)
    refine ⟨⟨e, s.cursor.pos⟩ :: placed, rfl, (Leads.looksAt closing s).bind ?_⟩
    rw [hNot]
    exact (Leads.here s).bind (hHead.bind hTail.map)

theorem sequence (h : LeadsAll sub closing s elements s₁)
    (hEnd : s₁.cursor.looksAt closing = true) :
    ∃ placed, placed.map Placed.element = elements ∧
      Leads (sequence sub closing) s placed s₁ := by
  have hLength := h.length_le
  have hBound : elements.length < s.cursor.rest.length + 1 := by omega
  obtain ⟨placed, hPlaced, hRun⟩ := h.sequenceWithin hEnd hBound
  exact ⟨placed, hPlaced, fun journal => hRun journal⟩

end LeadsAll

end CompactType.Parse
