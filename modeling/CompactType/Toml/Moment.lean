import CompactType.Toml.Reader

/-!
# Dates and times

Calendar dates, times of day and both together, the latter with an offset if wanted. Seconds may
be left out.
-/

set_option autoImplicit false

namespace CompactType.Toml

def daysInMonth (year month : Nat) : Nat :=
  let leap := year % 4 = 0 ∧ (year % 100 ≠ 0 ∨ year % 400 = 0)
  match month with
  | 2 => if leap then 29 else 28
  | 4 | 6 | 9 | 11 => 30
  | _ => 31

def fixedDigits (count : Nat) : Reader Char Nat := do
  let digits := (← get).take count
  unless digits.length = count && digits.all Char.isDigit do failure
  modify (·.drop count)
  return Nat.ofDigitChars 10 digits 0

def date : Reader Char Unit := do
  let year ← fixedDigits 4
  Reader.expect ['-']
  let month ← fixedDigits 2
  Reader.expect ['-']
  let day ← fixedDigits 2
  unless 1 ≤ month && month ≤ 12 && 1 ≤ day && day ≤ daysInMonth year month do failure

def hourMinute : Reader Char Unit := do
  let hour ← fixedDigits 2
  Reader.expect [':']
  let minute ← fixedDigits 2
  unless hour ≤ 23 && minute ≤ 59 do failure

/-- A minute may have a leap second. -/
def time : Reader Char Unit := do
  hourMinute
  if ← Reader.eat [':'] then
    unless (← fixedDigits 2) ≤ 60 do failure
    if ← Reader.eat ['.'] then
      if (← Reader.takeWhile Char.isDigit).isEmpty then failure

def offset : Reader Char Unit := do
  match ← get with
  | 'Z' :: rest | 'z' :: rest => set rest
  | '+' :: rest | '-' :: rest =>
    set rest
    hourMinute
  | _ => return ()

def dateTime : Reader Char Unit := do
  date
  match ← get with
  | c :: rest =>
    unless c == 'T' || c == 't' || c == ' ' do failure
    set rest
    time
    offset
  | [] => return ()

def isMoment (written : List Char) : Bool :=
  (dateTime.whole? written).isSome || (time.whole? written).isSome

end CompactType.Toml
