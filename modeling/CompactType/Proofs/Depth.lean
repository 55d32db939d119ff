import CompactType.Proofs.Lockstep
import Mathlib.Order.Lattice

/-!
# The depth of the recursion

Nesting can be counted while elements are read: the count goes up when an element is begun and down
when the parser is through with it, be it well or not. A parser that looks at the count reads as
one that is given what is left of the limit.
-/

set_option autoImplicit false

namespace CompactType

/-- How many elements are begun, and how many there were at most. -/
structure Gauge where
  depth : Nat
  peak : Nat
deriving DecidableEq, Repr

namespace Gauge

def deeper (g : Gauge) : Gauge := ⟨g.depth + 1, max g.peak (g.depth + 1)⟩

def shallower (g : Gauge) : Gauge := ⟨g.depth - 1, g.peak⟩

end Gauge

variable {σ H α : Type}

/-- The factory beside a gauge, which it leaves alone. -/
def Factory.gauged (F : Factory σ H) : Factory (σ × Gauge) H where
  make r s := ((F.make r s.1).1, (F.make r s.1).2, s.2)
  setBody handle fields s := ((F.setBody handle fields s.1).1, (F.setBody handle fields s.1).2, s.2)
  classOf s handle := F.classOf s.1 handle

namespace Parse

def State.under (s : State σ H) (g : Gauge) : State (σ × Gauge) H :=
  { cursor := s.cursor, opened := s.opened, store := (s.store, g), journal := s.journal }

def underResult (g : Gauge) : EStateM.Result Fault (State σ H) α →
    EStateM.Result Fault (State (σ × Gauge) H) α
  | .ok a s => .ok a (s.under g)
  | .error fault s => .error fault (s.under g)

def State.regauge (s : State (σ × Gauge) H) (f : Gauge → Gauge) : State (σ × Gauge) H :=
  { s with store := (s.store.1, f s.store.2) }

def depth : Parser (σ × Gauge) H Nat := return (← get).store.2.depth

/-- Runs the parser one level deeper. The level is left again on a failure, too. -/
def descend (x : Parser (σ × Gauge) H α) : Parser (σ × Gauge) H α := fun s =>
  match x.run (s.regauge Gauge.deeper) with
  | .ok a s' => .ok a (s'.regauge Gauge.shallower)
  | .error fault s' => .error fault (s'.regauge Gauge.shallower)

/-- Reads an element if the count is below the limit. The argument bounds how often the parser may
call itself. -/
def counted (F : Factory σ H) (config : Config) :
    Nat → Parser (σ × Gauge) H (Option (Element H))
  | 0 => failHere (.nestingTooDeep config.maxDepth)
  | bound + 1 => do
    if config.maxDepth ≤ (← depth) then failHere (.nestingTooDeep config.maxDepth)
    else descend (dispatch F.gauged config (counted F config bound))

variable {F : Factory σ H} {config : Config}

theorem run_descend (x : Parser (σ × Gauge) H α) (s : State (σ × Gauge) H) :
    (descend x).run s = match x.run (s.regauge Gauge.deeper) with
      | .ok a s' => .ok a (s'.regauge Gauge.shallower)
      | .error fault s' => .error fault (s'.regauge Gauge.shallower) := rfl

theorem run_counted_of_full (F : Factory σ H) (bound : Nat) {s : State (σ × Gauge) H}
    (h : config.maxDepth ≤ s.store.2.depth) :
    (counted F config bound).run s = .error ⟨.nestingTooDeep config.maxDepth, s.cursor.pos⟩ s := by
  cases bound with
  | zero => rfl
  | succ bound =>
    change (if config.maxDepth ≤ s.store.2.depth then failHere _ else descend _).run s = _
    rw [if_pos h]
    rfl

theorem run_counted_of_room (F : Factory σ H) (bound : Nat) {s : State (σ × Gauge) H}
    (h : ¬config.maxDepth ≤ s.store.2.depth) :
    (counted F config (bound + 1)).run s =
      (descend (dispatch F.gauged config (counted F config bound))).run s := by
  change (if config.maxDepth ≤ s.store.2.depth then failHere _ else descend _).run s = _
  rw [if_neg h]

theorem Forward.descend {limit deepest pos : Nat} {answers : Nat → α → Prop}
    {x : Parser (σ × Gauge) H α} (hx : Forward limit deepest pos x answers) :
    Forward limit deepest pos (descend x) answers := by
  intro s hs
  have hReaches := hx (s.regauge Gauge.deeper) hs
  rw [run_descend]
  generalize x.run (s.regauge Gauge.deeper) = result at hReaches ⊢
  cases hReaches with
  | ok hOnward hAnswers => exact .ok ⟨hOnward.pos_le, hOnward.length_eq⟩ hAnswers
  | error hOnward hBounded => exact .error ⟨hOnward.pos_le, hOnward.length_eq⟩ hBounded

theorem forwardElements_counted (F : Factory σ H) (config : Config) (bound : Nat) :
    ForwardElements config.maxDepth 0 (counted F config bound) := by
  have hFull {deepest : Nat} {s : State (σ × Gauge) H} (hLevels : deepest ≤ s.cursor.pos)
      {answers : Nat → Option (Element H) → Prop} : Reaches config.maxDepth deepest s answers
        (.error ⟨.nestingTooDeep config.maxDepth, s.cursor.pos⟩ s) := by
    refine .error (.refl s) ⟨le_rfl, ?_⟩
    rintro _ ⟨⟩
    exact ⟨rfl, hLevels⟩
  induction bound with
  | zero =>
    rintro deepest _ hLevels s rfl
    exact hFull hLevels
  | succ bound ih =>
    rintro deepest _ hLevels s rfl
    by_cases hDepth : config.maxDepth ≤ s.store.2.depth
    · rw [run_counted_of_full F _ hDepth]
      exact hFull hLevels
    · rw [run_counted_of_room F _ hDepth]
      exact Forward.descend ((ih.dispatch F.gauged config) deepest _ (by omega)) s rfl

def gauging (F : Factory σ H) (depth most : Nat) : Lockstep F F.gauged where
  move := id
  Level _ s t := ∃ peak ≤ most, t = s.under ⟨depth, peak⟩
  Stopped _ _ _ := False
  stopped_mono h _ := h
  pos_eq := by
    rintro _ _ _ ⟨_, -, rfl⟩
    rfl
  opened_eq := by
    rintro _ _ _ ⟨_, -, rfl⟩
    rfl
  forget h := h
  heads := by
    rintro s _ ⟨_, -, rfl⟩
    change Option.Rel Alike s.cursor.peek? s.cursor.peek?
    cases s.cursor.peek? with
    | none => exact .none
    | some c => exact .some (.refl c)
  eat := by
    rintro _ _ _ _ _ ⟨peak, hPeak, rfl⟩ - hRest hRest'
    obtain ⟨-, rfl⟩ := List.cons.inj (hRest.symm.trans hRest')
    exact ⟨peak, hPeak, rfl⟩
  read := by
    rintro _ _ _ _ _ _ ⟨peak, hPeak, rfl⟩ hRest hRest'
    obtain ⟨hChar, rfl⟩ := List.cons.inj (hRest.symm.trans hRest')
    obtain rfl := Symbol.char_injective hChar
    exact ⟨peak, hPeak, rfl⟩
  digits := by
    rintro _ _ ⟨peak, hPeak, rfl⟩
    exact ⟨.rfl, rfl, peak, hPeak, rfl⟩
  assigned := by
    rintro _ _ number name ⟨peak, hPeak, rfl⟩
    exact ⟨peak, hPeak, rfl⟩
  register := by
    rintro _ _ handle ⟨peak, hPeak, rfl⟩
    exact ⟨peak, hPeak, rfl⟩
  classOf := by
    rintro _ _ handle ⟨_, -, rfl⟩
    rfl
  make := by
    rintro _ _ r ⟨peak, hPeak, rfl⟩
    exact ⟨rfl, peak, hPeak, rfl⟩
  setBody := by
    rintro _ _ _ _ handle fields ⟨peak, hPeak, rfl⟩ rfl rfl
    exact .inl ⟨rfl, peak, hPeak, rfl⟩

theorem gauging_level {depth most peak : Nat} (place : Place) (hPeak : peak ≤ most)
    (s : State σ H) : (gauging F depth most).Level place s (s.under ⟨depth, peak⟩) :=
  ⟨peak, hPeak, rfl⟩

theorem gauging_elements (F : Factory σ H) (config : Config) {most : Nat}
    (hMost : config.maxDepth ≤ most) {left depth bound : Nat}
    (hLeft : depth + left = config.maxDepth) (hBound : left ≤ bound) :
    Simulation.Elements (S := stepping (gauging F depth most) config) () (element F config left)
      (counted F config bound) := by
  have hProgress (bound : Nat) : Progresses (counted F config bound) :=
    (forwardElements_counted F config bound).progresses
  refine ⟨fun _ _ => ?_, progresses_element _ _ _, hProgress bound⟩
  induction left generalizing depth bound with
  | zero =>
    refine ⟨?_, fun _ => ⟨List.prefix_rfl, nofun⟩⟩
    rintro s _ ⟨peak, hPeak, rfl⟩
    have hFull : config.maxDepth ≤ (s.under ⟨depth, peak⟩).store.2.depth := hLeft.ge
    rw [run_counted_of_full F bound hFull]
    exact .error (gauging_level .within hPeak s)
  | succ left ih =>
    obtain ⟨bound, rfl⟩ := Nat.exists_eq_succ_of_ne_zero (Nat.ne_zero_of_lt hBound)
    have hNext : depth + 1 ≤ most := by omega
    have hInner : InStep (gauging F (depth + 1) most) .within
        (dispatch F config (element F config left))
        (dispatch F.gauged config (counted F config bound))
        ((stepping (gauging F (depth + 1) most) config).Found () ()) :=
      Simulation.related_element (S := stepping (gauging F (depth + 1) most) config) fun _ _ =>
        ⟨ih (by omega) (Nat.le_of_succ_le_succ hBound), progresses_element _ _ _, hProgress bound⟩
    have hSame {q : Stage} {answer answer' : Option (Element H)}
        (h : (stepping (gauging F (depth + 1) most) config).Found () () q answer answer') :
        (stepping (gauging F depth most) config).Found () () q answer answer' := by
      cases h with
      | none => exact .none _
      | some _ hMatches => exact .some trivial hMatches
    refine ⟨?_, hInner.grows.weaken fun a ⟨q, b, hFound⟩ => ⟨q, b, hSame hFound⟩⟩
    rintro s _ ⟨peak, hPeak, rfl⟩
    have hEnds := hInner.ends s ((s.under ⟨depth, peak⟩).regauge Gauge.deeper)
      (gauging_level .within (max_le hPeak hNext) s)
    have hRoom : ¬config.maxDepth ≤ (s.under ⟨depth, peak⟩).store.2.depth := by
      change ¬config.maxDepth ≤ depth
      omega
    rw [run_counted_of_room F bound hRoom, run_descend, element_succ]
    generalize (dispatch F config (element F config left)).run s = result at hEnds ⊢
    generalize (dispatch F.gauged config (counted F config bound)).run _ = result' at hEnds ⊢
    cases hEnds with
    | ok q hAfter hFound =>
      obtain ⟨peak', hPeak', rfl⟩ := hAfter
      exact .ok q (gauging_level q.place hPeak' _) (hSame hFound)
    | @error _ _ place _ _ hAfter =>
      obtain ⟨peak', hPeak', rfl⟩ := hAfter
      exact .error (gauging_level place hPeak' _)
    | stopped hStopped => exact hStopped.elim

/-- Wherever the count stands, it is the same after the parse of an element, and it never passes the
limit. What is read is what fits into the rest of the limit. -/
theorem exists_run_counted (F : Factory σ H) (config : Config) {depth bound : Nat}
    (hDepth : depth ≤ config.maxDepth) (hBound : config.maxDepth ≤ depth + bound) (peak : Nat)
    (s : State σ H) :
    ∃ peak' ≤ max peak config.maxDepth, (counted F config bound).run (s.under ⟨depth, peak⟩) =
      underResult ⟨depth, peak'⟩ ((element F config (config.maxDepth - depth)).run s) := by
  have hElements := gauging_elements F config (le_max_right peak config.maxDepth)
    (Nat.add_sub_cancel' hDepth) (Nat.sub_le_iff_le_add'.mpr hBound)
  have hEnds := (hElements.related () trivial).ends s _ (gauging_level .within (le_max_left peak _) s)
  generalize (element F config (config.maxDepth - depth)).run s = result at hEnds ⊢
  generalize (counted F config bound).run _ = result' at hEnds ⊢
  cases hEnds with
  | ok _ hAfter hFound =>
    obtain ⟨peak', hPeak', rfl⟩ := hAfter
    exact ⟨peak', hPeak', by rw [hFound.eq le_rfl]; rfl⟩
  | error hAfter =>
    obtain ⟨peak', hPeak', rfl⟩ := hAfter
    exact ⟨peak', hPeak', rfl⟩
  | stopped hStopped => exact hStopped.elim

end Parse

end CompactType
