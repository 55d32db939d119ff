import CompactType.Factory
import CompactType.TypeTable.Text

/-!
# A table as a factory

Structs with names are declared, all other requests are interned. A refused body leaves the table
as it was.
-/

set_option autoImplicit false

namespace CompactType.TypeTable

def make (t : TypeTable) : Request Nat → Nat × TypeTable
  | .declare name => t.declare name
  | request => t.intern request.kind

def setBody (t : TypeTable) (id : Nat) (fields : List Nat) : Except Refusal Unit × TypeTable :=
  match t.complete id fields with
  | .ok t => (.ok (), t)
  | .error refusal => (.error refusal, t)

/-- The class of a type; ids outside the table count as void. -/
def classOf (t : TypeTable) (id : Nat) : TypeClass :=
  ((t.kind? id).map Kind.typeClass).getD .void

def factory : Factory TypeTable Nat where
  make request t := t.make request
  setBody id fields t := t.setBody id fields
  classOf := classOf

theorem setBody_of_error {t : TypeTable} {id : Nat} {fields : List Nat} {refusal : Refusal}
    (h : t.complete id fields = .error refusal) : t.setBody id fields = (.error refusal, t) := by
  simp [setBody, h]

end CompactType.TypeTable
