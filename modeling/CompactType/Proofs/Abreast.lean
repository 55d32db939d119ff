import CompactType.Proofs.Calls
import CompactType.Proofs.Grammar
import CompactType.Proofs.Steps
import Mathlib.Order.Basic
import Mathlib.Data.List.Forall2

/-!
# Two parses abreast

Two parses are compared whose texts begin alike. While they read the common text, they stand at the
same place and have made the same calls, the names of structs aside. The text of the first one may
end where the other one goes on.
-/

set_option autoImplicit false

namespace CompactType

variable {σ τ H : Type}

/-- The same request, up to the name of a declared struct. -/
inductive Request.Renamed (named : String → String → Prop) : Request H → Request H → Prop where
  | same {r : Request H} : r.name? = none → Renamed named r r
  | declare {name name' : String} :
    named name name' → Renamed named (.declare name) (.declare name')

inductive Call.Renamed (named : String → String → Prop) : Call H → Call H → Prop where
  | made {r r' : Request H} (h : H) :
    r.Renamed named r' → Renamed named (.made r h) (.made r' h)
  | body (h : H) (fields : List H) : Renamed named (.body h fields) (.body h fields)

theorem Request.Renamed.mono {named named' : String → String → Prop} (hLe : named ≤ named')
    {r r' : Request H} (h : r.Renamed named r') : r.Renamed named' r' := by
  cases h with
  | same hName => exact .same hName
  | declare hNamed => exact .declare (hLe _ _ hNamed)

theorem Request.Renamed.eq {named : String → String → Prop} (hEq : named ≤ Eq)
    {r r' : Request H} (h : r.Renamed named r') : r = r' := by
  cases h with
  | same => rfl
  | declare hNamed => rw [hEq _ _ hNamed]

/-- Lists of calls that differ in the names of structs only. -/
def CallsRenamed (named : String → String → Prop) : List (Call H) → List (Call H) → Prop :=
  List.Forall₂ (Call.Renamed named)

theorem CallsRenamed.mono {named named' : String → String → Prop} (hLe : named ≤ named')
    {calls calls' : List (Call H)} (h : CallsRenamed named calls calls') :
    CallsRenamed named' calls calls' := by
  apply List.Forall₂.imp _ h
  rintro _ _ (⟨handle, hRequest⟩ | ⟨handle, fields⟩)
  · exact .made handle (hRequest.mono hLe)
  · exact .body handle fields

theorem CallsRenamed.eq {named : String → String → Prop} (hEq : named ≤ Eq)
    {calls calls' : List (Call H)} (h : CallsRenamed named calls calls') : calls = calls' := by
  apply List.forall₂_eq_eq_eq ▸ List.Forall₂.imp _ h
  rintro _ _ (⟨handle, hRequest⟩ | ⟨handle, fields⟩)
  · rw [hRequest.eq hEq]
  · rfl

/-- From the two stores on, calls that differ in names only get the same answers. -/
structure AnswerAlike (named : String → String → Prop) (F : Factory σ H) (s : σ)
    (G : Factory τ H) (t : τ) : Prop where
  make_eq : ∀ calls calls' r r', CallsRenamed named calls calls' → r.Renamed named r' →
    (F.make r (F.replay s calls)).1 = (G.make r' (G.replay t calls')).1
  setBody_eq : ∀ calls calls' h fields, CallsRenamed named calls calls' →
    (F.setBody h fields (F.replay s calls)).1 = (G.setBody h fields (G.replay t calls')).1
  classOf_eq : ∀ calls calls' h, CallsRenamed named calls calls' →
    F.classOf (F.replay s calls) h = G.classOf (G.replay t calls') h

namespace AnswerAlike

variable {named named' : String → String → Prop} {F : Factory σ H} {s : σ} {G : Factory τ H} {t : τ}

theorem mono (h : AnswerAlike named' F s G t) (hLe : named ≤ named') :
    AnswerAlike named F s G t where
  make_eq calls calls' r r' hCalls hRequest :=
    h.make_eq calls calls' r r' (hCalls.mono hLe) (hRequest.mono hLe)
  setBody_eq calls calls' handle fields hCalls :=
    h.setBody_eq calls calls' handle fields (hCalls.mono hLe)
  classOf_eq calls calls' handle hCalls := h.classOf_eq calls calls' handle (hCalls.mono hLe)

theorem refl (hEq : named ≤ Eq) (F : Factory σ H) (s : σ) : AnswerAlike named F s F s where
  make_eq _ _ _ _ hCalls hRequest := by rw [hCalls.eq hEq, hRequest.eq hEq]
  setBody_eq _ _ _ _ hCalls := by rw [hCalls.eq hEq]
  classOf_eq _ _ _ hCalls := by rw [hCalls.eq hEq]

end AnswerAlike

namespace Parse

/-- A character with no meaning in a specification. -/
def Foreign (c : Char) : Prop := Symbol.ofChar? c = none ∧ c.isDigit = false

instance (c : Char) : Decidable (Foreign c) := inferInstanceAs (Decidable (_ ∧ _))

/-- Between the texts no number is continued. -/
def Seam (text more : List Char) : Prop := ∀ c ∈ text.getLast?, c.isDigit = true → NoDigit more

theorem seam_nil (more : List Char) : Seam [] more := nofun

theorem Seam.of_append {first second more : List Char} (h : Seam (first ++ second) more) :
    Seam second more := by
  intro c hc
  apply h c
  rw [List.getLast?_append, Option.mem_def.mp hc]
  rfl

theorem Seam.tail {c : Char} {text more : List Char} (h : Seam (c :: text) more) :
    Seam text more := by
  rw [← List.singleton_append] at h
  exact h.of_append

theorem Seam.takeWhile_append {text more : List Char} (h : Seam text more) (hText : text ≠ []) :
    (text ++ more).takeWhile Char.isDigit = text.takeWhile Char.isDigit ∧
      (text ++ more).dropWhile Char.isDigit = text.dropWhile Char.isDigit ++ more := by
  induction text with
  | nil => exact absurd rfl hText
  | cons c text ih =>
    cases hc : c.isDigit with
    | false => simp [hc]
    | true =>
      cases text with
      | cons d text => simpa [hc] using ih h.tail
      | nil =>
        have hMore : NoDigit more := h c rfl hc
        cases more with
        | nil => simp [hc]
        | cons d more => simp [hc, noDigit_cons.mp hMore]

/-- What follows a common text. Either the first text is over, or both go on with the same
character, which has no meaning. -/
inductive Tails : List Char → List Char → Prop where
  | ended (more : List Char) : Tails [] more
  | barred {c : Char} (hc : Foreign c) (tail tail' : List Char) : Tails (c :: tail) (c :: tail')

theorem Tails.noDigit {tail tail' : List Char} (h : Tails tail tail') : NoDigit tail := by
  cases h with
  | ended => exact noDigit_nil
  | barred hc => exact noDigit_cons.mpr hc.2

/-- Cursors at the same place of the common text. -/
structure Parallel (tail tail' : List Char) (c d : Cursor Char) : Prop where
  pos_eq : c.pos = d.pos
  common : ∃ text, c.rest = text ++ tail ∧ d.rest = text ++ tail' ∧ Seam text tail'

/-- What parallel cursors see. -/
inductive Ahead (tail tail' : List Char) (c d : Cursor Char) : Prop where
  | ended : c.rest = [] → d.rest = [] → Ahead tail tail' c d
  /-- The first text is over, but not the second one. -/
  | spent : c.rest = [] → tail = [] → tail' ≠ [] → Ahead tail tail' c d
  | common {a : Char} {rest rest' : List Char} :
    c.rest = a :: rest → d.rest = a :: rest' →
    (¬Foreign a → Parallel tail tail' ⟨c.pos + 1, rest⟩ ⟨d.pos + 1, rest'⟩) →
    Ahead tail tail' c d

namespace Parallel

variable {tail tail' : List Char} {c d : Cursor Char}

theorem ahead (h : Parallel tail tail' c d) (hTails : Tails tail tail') :
    Ahead tail tail' c d := by
  obtain ⟨text, hLeft, hRight, hSeam⟩ := h.common
  cases text with
  | cons a text =>
    exact .common hLeft hRight fun _ =>
      ⟨congrArg (· + 1) h.pos_eq, text, rfl, rfl, hSeam.tail⟩
  | nil =>
    cases hTails with
    | barred hForeign => exact .common hLeft hRight fun hNot => absurd hForeign hNot
    | ended =>
      cases tail' with
      | nil => exact .ended hLeft hRight
      | cons => exact .spent hLeft rfl (List.cons_ne_nil _ _)

theorem takeRun (h : Parallel tail tail' c d) (hTails : Tails tail tail') :
    (c.rest = [] ∧ tail = [] ∧ tail' ≠ []) ∨
      (c.takeRun Char.isDigit).1 = (d.takeRun Char.isDigit).1 ∧
        Parallel tail tail' (c.takeRun Char.isDigit).2 (d.takeRun Char.isDigit).2 := by
  obtain ⟨text, hLeft, hRight, hSeam⟩ := h.common
  by_cases hText : text = []
  · subst hText
    cases hTails with
    | barred hForeign =>
      right
      simp only [Cursor.takeRun, hLeft, hRight, List.nil_append, List.takeWhile_cons,
        List.dropWhile_cons, hForeign.2, Bool.false_eq_true, if_false, true_and]
      exact ⟨h.pos_eq, [], rfl, rfl, hSeam⟩
    | ended =>
      cases tail' with
      | cons => exact .inl ⟨hLeft, rfl, List.cons_ne_nil _ _⟩
      | nil =>
        right
        simp only [Cursor.takeRun, hLeft, hRight, true_and]
        exact ⟨h.pos_eq, [], rfl, rfl, hSeam⟩
  · right
    have hSeam' : Seam text tail := fun _ _ _ => hTails.noDigit
    obtain ⟨hRun, hRest⟩ := hSeam.takeWhile_append hText
    obtain ⟨hRun', hRest'⟩ := hSeam'.takeWhile_append hText
    simp only [Cursor.takeRun, hLeft, hRight, hRun, hRun', hRest, hRest', true_and]
    refine ⟨congrArg (· + _) h.pos_eq, _, rfl, rfl, ?_⟩
    rw [← List.takeWhile_append_dropWhile (p := Char.isDigit) (l := text)] at hSeam
    exact hSeam.of_append

end Parallel

/-- One of two parses that are compared. Its text is a common text and then the tail. -/
structure Side (σ H : Type) where
  factory : Factory σ H
  config : Config
  store : σ
  tail : List Char

/-- The names that two configurations give to the same struct. -/
def Named (config config' : Config) (name name' : String) : Prop :=
  ∃ number, name = config.structName number ∧ name' = config'.structName number

theorem named_le_eq (config : Config) : Named config config ≤ Eq := by
  rintro _ _ ⟨number, rfl, rfl⟩
  rfl

/-- Two parses that go alike through the common text. -/
structure Comparable (A : Side σ H) (B : Side τ H) : Prop where
  answers : AnswerAlike (Named A.config B.config) A.factory A.store B.factory B.store
  tails : Tails A.tail B.tail

/-- The two parses stand at the same place of the common text. -/
structure Abreast (A : Side σ H) (B : Side τ H) (s : State σ H) (t : State τ H) : Prop where
  parallel : Parallel A.tail B.tail s.cursor t.cursor
  opened_eq : s.opened = t.opened
  calls : CallsRenamed (Named A.config B.config) (Journal.calls s.journal) (Journal.calls t.journal)
  left_store : s.store = A.factory.replay A.store (Journal.calls s.journal)
  right_store : t.store = B.factory.replay B.store (Journal.calls t.journal)

/-- The text of the first parse is over, but not the text of the second one. -/
structure Spent (A : Side σ H) (B : Side τ H) (s : State σ H) : Prop where
  rest_eq : s.cursor.rest = []
  left_tail : A.tail = []
  right_tail : B.tail ≠ []

/-- The second parse has made the same calls as the first one, and maybe more. -/
def Behind (A : Side σ H) (B : Side τ H) (s : State σ H) (t : State τ H) : Prop :=
  ∃ calls, calls <+: Journal.calls t.journal ∧
    CallsRenamed (Named A.config B.config) (Journal.calls s.journal) calls

namespace Abreast

variable {A : Side σ H} {B : Side τ H} {s : State σ H} {t : State τ H}

theorem behind (h : Abreast A B s t) {s' : State σ H} {t' : State τ H}
    (hLeft : Journal.calls s'.journal = Journal.calls s.journal)
    (hRight : Journal.calls t.journal <+: Journal.calls t'.journal) : Behind A B s' t' :=
  ⟨_, hRight, hLeft ▸ h.calls⟩

theorem spent_or_peek?_eq (h : Abreast A B s t) (hTails : Tails A.tail B.tail) :
    Spent A B s ∨ s.cursor.peek? = t.cursor.peek? := by
  cases h.parallel.ahead hTails with
  | spent hRest hLeft hRight => exact .inl ⟨hRest, hLeft, hRight⟩
  | ended hRest hRest' | common hRest hRest' => exact .inr (by simp [Cursor.peek?, hRest, hRest'])

theorem move (h : Abreast A B s t) {c d : Cursor Char} (hMove : Parallel A.tail B.tail c d) :
    Abreast A B { s with cursor := c } { t with cursor := d } :=
  ⟨hMove, h.opened_eq, h.calls, h.left_store, h.right_store⟩

theorem call (h : Abreast A B s t) {call call' : Call H}
    (hCall : call.Renamed (Named A.config B.config) call') :
    Abreast A B
      { s with
        store := call.apply A.factory s.store
        journal := s.journal.push (.call call) }
      { t with
        store := call'.apply B.factory t.store
        journal := t.journal.push (.call call') } where
  parallel := h.parallel
  opened_eq := h.opened_eq
  calls := by
    rw [Journal.calls_push, Journal.calls_push]
    exact List.rel_append h.calls (.cons hCall .nil)
  left_store := by
    rw [Journal.calls_push, h.left_store]
    exact (A.factory.replay_concat ..).symm
  right_store := by
    rw [Journal.calls_push, h.right_store]
    exact (B.factory.replay_concat ..).symm

theorem note (h : Abreast A B s t) {e e' : Event H} (he : e.call? = none) (he' : e'.call? = none) :
    Abreast A B { s with journal := s.journal.push e } { t with journal := t.journal.push e' } := by
  have hLeft : Journal.calls (s.journal.push e) = Journal.calls s.journal := by
    simp [Journal.calls_push, he]
  have hRight : Journal.calls (t.journal.push e') = Journal.calls t.journal := by
    simp [Journal.calls_push, he']
  exact ⟨h.parallel, h.opened_eq, hLeft ▸ hRight ▸ h.calls, hLeft ▸ h.left_store,
    hRight ▸ h.right_store⟩

end Abreast

end Parse

end CompactType
