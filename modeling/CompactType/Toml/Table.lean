import CompactType.Toml.Node

/-!
# Tables under construction

Key-value pairs and headers are applied one after another. Each key is given once; a table is opened
by one header at most, and neither headers nor dotted keys add to what is closed.
-/

set_option autoImplicit false

namespace CompactType.Toml

namespace Entries

def put (key : String) (node : Node) : Entries → Entries
  | [] => [(key, node)]
  | (k, old) :: rest => if k = key then (key, node) :: rest else (k, old) :: put key node rest

end Entries

inductive Fault where
  | malformed
  | keyTooLong
deriving DecidableEq, Repr

/-- Changes the table that a path leads to. Missing tables on the way are created in the given
style; the last table of an array stands for the array. Inline tables are closed, and dotted keys
do not enter a table with a header of its own. -/
def descend (created : Style) (change : Style → Entries → Except Fault Entries) :
    List String → Style → Entries → Except Fault Entries
  | [], style, entries => change style entries
  | key :: path, _, entries =>
    match entries.lookup key with
    | none => do
      let inner ← descend created change path created []
      return entries.put key (.table created inner)
    | some (.table style inner) =>
      if style = .inline ∨ (created = .dotted ∧ style = .header) then .error .malformed
      else do
        let inner ← descend created change path style inner
        return entries.put key (.table style inner)
    | some (.array true items) =>
      match items.getLast? with
      | some (.table style inner) => do
        let inner ← descend created change path style inner
        return entries.put key (.array true (items.dropLast ++ [.table style inner]))
      | _ => .error .malformed
    | some _ => .error .malformed

/-- Adds a node to a table. A dotted key adds only to tables that dotted keys created, and a plain
key to all others. -/
def assign (path : List String) (key : String) (node : Node) (style : Style) (entries : Entries) :
    Except Fault Entries :=
  descend .dotted
    (fun style entries =>
      if (style = .dotted) ↔ path = [] then .error .malformed
      else if (entries.lookup key).isSome then .error .malformed
      else .ok (entries ++ [(key, node)]))
    path style entries

/-- The entries that a table has when a header opens it: none, or those that longer headers gave
it on their way. -/
def openedBy (key : String) (entries : Entries) : Except Fault Entries :=
  match entries.lookup key with
  | none => .ok []
  | some (.table .implied inner) => .ok inner
  | some _ => .error .malformed

def addElement (key : String) (table : Entries) (entries : Entries) : Except Fault Entries :=
  match entries.lookup key with
  | none => .ok (entries.put key (.array true [.table .header table]))
  | some (.array true items) =>
    .ok (entries.put key (.array true (items ++ [.table .header table])))
  | some _ => .error .malformed

end CompactType.Toml
