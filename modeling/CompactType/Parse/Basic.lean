import CompactType.Config
import CompactType.Cursor
import CompactType.Journal

/-!
# Steps of a parse

The state of a parse and the steps that its forms are made of: looking at the next character,
reading on, calling the factory, failing. A failure keeps the state, so types made before it and
the journal up to it remain.
-/

set_option autoImplicit false

namespace CompactType.Parse

structure State (σ H : Type) where
  /-- What is unread. Only characters of one byte are read, so the position counts bytes. -/
  cursor : Cursor Char
  opened : Array H
  store : σ
  journal : Journal H

abbrev Parser (σ H : Type) := EStateM Fault (State σ H)

variable {σ H α : Type}

def here : Parser σ H Nat := return (← get).cursor.pos

def peek? : Parser σ H (Option Char) := return (← get).cursor.peek?

def looksAt (c : Char) : Parser σ H Bool := return (← get).cursor.looksAt c

def atEnd : Parser σ H Bool := return (← get).cursor.atEnd

def remaining : Parser σ H Nat := return (← get).cursor.rest.length

def advance : Parser σ H Unit :=
  modify fun s => { s with cursor := s.cursor.advance }

def eat (c : Char) : Parser σ H Bool :=
  modifyGet fun s => let (found, cursor) := s.cursor.eat c; (found, { s with cursor })

def digits : Parser σ H (List Char) :=
  modifyGet fun s => let (run, cursor) := s.cursor.takeRun Char.isDigit; (run, { s with cursor })

def fail (cause : Cause) (pos : Nat) : Parser σ H α := throw ⟨cause, pos⟩

def failHere (cause : Cause) : Parser σ H α := do fail cause (← here)

def close (c : Char) : Parser σ H Unit := do
  unless ← eat c do failHere (.missingClose c)

def emit (e : Event H) : Parser σ H Unit :=
  modify fun s => { s with journal := s.journal.push e }

def request (F : Factory σ H) (r : Request H) : Parser σ H H := do
  let handle ← modifyGet fun ⟨cursor, opened, store, journal⟩ =>
    let (handle, store) := F.make r store
    (handle, ⟨cursor, opened, store, journal⟩)
  emit (.call (.made r handle))
  return handle

def complete (F : Factory σ H) (handle : H) (fields : List H) : Parser σ H Unit := do
  emit (.call (.body handle fields))
  let result ← modifyGet fun ⟨cursor, opened, store, journal⟩ =>
    let (result, store) := F.setBody handle fields store
    (result, ⟨cursor, opened, store, journal⟩)
  match result with
  | .ok () => return ()
  | .error refusal => failHere (.factory refusal)

def classOf (F : Factory σ H) (handle : H) : Parser σ H TypeClass :=
  return F.classOf (← get).store handle

def nextNumber : Parser σ H Nat := return (← get).opened.size

def opened? (number : Nat) : Parser σ H (Option H) := return (← get).opened[number]?

def register (handle : H) : Parser σ H Unit :=
  modify fun s => { s with opened := s.opened.push handle }

/-- Reads a number below the limit. Failing that, the fault is at the first digit. -/
def number (limit : Nat) (cause : Cause) : Parser σ H Nat := do
  let start ← here
  let run ← digits
  let value := Nat.ofDigitChars 10 run 0
  if run.isEmpty || limit ≤ value then fail cause start
  return value

@[simp] theorem run_here (s : State σ H) : here.run s = .ok s.cursor.pos s := rfl

@[simp] theorem run_fail (cause : Cause) (pos : Nat) (s : State σ H) :
    (fail cause pos : Parser σ H α).run s = .error ⟨cause, pos⟩ s := rfl

@[simp] theorem run_failHere (cause : Cause) (s : State σ H) :
    (failHere cause : Parser σ H α).run s = .error ⟨cause, s.cursor.pos⟩ s := rfl

theorem run_digits (s : State σ H) :
    digits.run s = .ok (s.cursor.takeRun Char.isDigit).1
      { s with cursor := (s.cursor.takeRun Char.isDigit).2 } := rfl

theorem run_eat (c : Char) (s : State σ H) :
    (eat c).run s = .ok (s.cursor.eat c).1 { s with cursor := (s.cursor.eat c).2 } := rfl

theorem run_close (c : Char) (s : State σ H) :
    (close c).run s =
      if s.cursor.looksAt c then .ok () { s with cursor := s.cursor.advance }
      else .error ⟨.missingClose c, s.cursor.pos⟩ s := by
  by_cases h : s.cursor.looksAt c = true <;> simp [close, run_eat, Cursor.eat, h]

theorem run_request (F : Factory σ H) (r : Request H) (s : State σ H) :
    (request F r).run s =
      let answer := F.make r s.store
      .ok answer.1
        { s with store := answer.2, journal := s.journal.push (.call (.made r answer.1)) } := rfl

theorem run_complete (F : Factory σ H) (handle : H) (fields : List H) (s : State σ H) :
    (complete F handle fields).run s =
      let answer := F.setBody handle fields s.store
      let after : State σ H :=
        { s with store := answer.2, journal := s.journal.push (.call (.body handle fields)) }
      match answer.1 with
      | .ok () => .ok () after
      | .error refusal => .error ⟨.factory refusal, s.cursor.pos⟩ after := by
  simp only [complete, emit, EStateM.run_bind, EStateM.run_modify, EStateM.run_modifyGet]
  cases (F.setBody handle fields s.store).1 <;> rfl

theorem run_number (limit : Nat) (cause : Cause) (s : State σ H) :
    (number limit cause).run s =
      let run := (s.cursor.takeRun Char.isDigit).1
      let after : State σ H := { s with cursor := (s.cursor.takeRun Char.isDigit).2 }
      if run = [] ∨ limit ≤ Nat.ofDigitChars 10 run 0 then .error ⟨cause, s.cursor.pos⟩ after
      else .ok (Nat.ofDigitChars 10 run 0) after := by
  simp only [number, EStateM.run_bind, run_here, run_digits]
  generalize (s.cursor.takeRun Char.isDigit).1 = run
  cases run with
  | nil => rfl
  | cons c rest =>
    by_cases h : limit ≤ Nat.ofDigitChars 10 (c :: rest) 0
    · simp only [h, or_true, if_true, List.isEmpty_cons, Bool.false_or, decide_true]
      rfl
    · simp only [h, or_false, List.isEmpty_cons, Bool.false_or, decide_false, Bool.false_eq_true,
        if_false, reduceCtorEq]
      rfl

end CompactType.Parse
