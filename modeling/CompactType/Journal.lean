import CompactType.Diagnostic
import CompactType.Factory
import CompactType.Symbol

/-!
# The journal of a parse

What happens during a parse, in order: the symbols read, the calls made to the factory and how the
parse ended. The journal can be read as a log, or for the calls alone.
-/

set_option autoImplicit false

namespace CompactType

inductive Event (H : Type) where
  | begun (spec : String)
  | symbol (symbol : Symbol) (pos : Nat)
  | call (call : Call H)
  | assigned (number : Nat) (name : String)
  | trailing (pos : Nat)
  | rejected (cause : Cause)
  | accepted (structs : Nat)
deriving DecidableEq, Repr

inductive Level where
  | info
  | debug
  | trace
deriving DecidableEq, Repr

namespace Event

variable {H : Type}

def call? : Event H → Option (Call H)
  | call c => some c
  | _ => none

/-- The log entry of an event. Calls other than for named structs are not logged. -/
def entry? [ToString H] : Event H → Option (Level × String)
  | begun spec => some (.info, "parsing type specification '" ++ spec ++ "'")
  | symbol s pos => some (.trace, s!"symbol '{s.char}' at {pos}")
  | call (.made (.declare name) handle) =>
    some (.debug, s!"created opaque struct '{name}' as #{handle}")
  | call (.made ..) => none
  | call (.body handle fields) => some (.debug, s!"setting body of {handle}, {fields.length} fields")
  | assigned number name => some (.debug, s!"assigned type id {number} to struct '{name}'")
  | trailing pos => some (.info, s!"fail: trailing input at {pos}")
  | rejected cause => some (.info, "fail: " ++ cause.message)
  | accepted structs => some (.info, s!"success, {structs} named structs")

end Event

abbrev Journal (H : Type) := Array (Event H)

namespace Journal

variable {H : Type}

def calls (journal : Journal H) : List (Call H) :=
  journal.toList.filterMap Event.call?

def log [ToString H] (journal : Journal H) : List (Level × String) :=
  journal.toList.filterMap Event.entry?

theorem calls_push (journal : Journal H) (e : Event H) :
    calls (journal.push e) = calls journal ++ e.call?.toList := by
  cases h : e.call? <;> simp [calls, h]

end Journal

end CompactType
