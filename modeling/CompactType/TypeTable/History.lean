import CompactType.TypeTable.Parse

/-!
# Histories of tables

The operations that change a table, and the tables that they lead to from the initial one. Any
arguments are allowed; a refused operation leaves the table as it was.
-/

set_option autoImplicit false

namespace CompactType.TypeTable

inductive Operation where
  | intern (kind : Kind)
  | make (request : Request Nat)
  | complete (id : Nat) (fields : List Nat)
  | parse (spec : String) (config : Config)
deriving Repr

def Operation.apply (t : TypeTable) : Operation → TypeTable
  | intern kind => (t.intern kind).2
  | make request => (t.make request).2
  | complete id fields => (t.setBody id fields).2
  | parse spec config => (t.parse spec config).store

def after (t : TypeTable) (operations : List Operation) : TypeTable :=
  operations.foldl Operation.apply t

/-- Tables that operations lead to. -/
def Reachable (t : TypeTable) : Prop := ∃ operations, initial.after operations = t

@[simp] theorem after_nil (t : TypeTable) : t.after [] = t := rfl

@[simp] theorem after_cons (t : TypeTable) (o : Operation) (rest : List Operation) :
    t.after (o :: rest) = (o.apply t).after rest := rfl

theorem after_append (t : TypeTable) (first second : List Operation) :
    t.after (first ++ second) = (t.after first).after second := by
  simp [after]

theorem reachable_initial : Reachable initial := ⟨[], rfl⟩

theorem Reachable.after {t : TypeTable} (h : Reachable t) (operations : List Operation) :
    Reachable (t.after operations) := by
  obtain ⟨first, rfl⟩ := h
  exact ⟨first ++ operations, after_append _ _ _⟩

end CompactType.TypeTable
