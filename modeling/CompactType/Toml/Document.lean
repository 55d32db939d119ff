import CompactType.Toml.Moment
import CompactType.Toml.Number
import CompactType.Toml.Outline
import CompactType.Toml.Quoted
import CompactType.Toml.Table

/-!
# Documents

The root table of a document. The parts of its outline are given their meaning in order, and the
first that has none decides what is wrong with the document.
-/

set_option autoImplicit false

namespace CompactType.Toml

/-- Where something is missing that has to be there, the document is malformed. -/
def orMalformed {α : Type} : Option α → Except Fault α
  | some a => .ok a
  | none => .error .malformed

def maxKeyParts : Nat := 80

def isBareKey (c : Char) : Bool := c.isAlphanum || c == '_' || c == '-'

namespace Atom

def name? : Atom → Option String
  | word written =>
    if !written.isEmpty && written.all isBareKey then some (String.ofList written) else none
  | quoted quote content => if quote.lines then none else content.bind quote.text?

def nodeOfWord? (written : List Char) : Option Node :=
  match written with
  | ['t', 'r', 'u', 'e'] => some (.boolean true)
  | ['f', 'a', 'l', 's', 'e'] => some (.boolean false)
  | '0' :: 'x' :: digits => based? 16 digits
  | '0' :: 'o' :: digits => based? 8 digits
  | '0' :: 'b' :: digits => based? 2 digits
  | _ => if isMoment written then some (.moment (String.ofList written)) else number? written

def node? : Atom → Option Node
  | word written => nodeOfWord? written
  | quoted quote content => .text <$> content.bind quote.text?

end Atom

def Key.names (key : Key) : Except Fault (List String × String) := do
  let names ← key.mapM fun part => orMalformed part.name?
  if maxKeyParts < names.length then .error .keyTooLong
  return (names.dropLast, names.getLastD "")

mutual

def Phrase.node : Phrase → Except Fault Node
  | .atom a => orMalformed a.node?
  | .array items => do return .array false (← Phrase.nodes items)
  | .table pairs => do return .table .inline (← Phrase.entries [] pairs)

def Phrase.nodes : List Phrase → Except Fault (List Node)
  | [] => return []
  | item :: rest => do
    let node ← item.node
    return node :: (← Phrase.nodes rest)

def Phrase.entries (before : Entries) : List Pair → Except Fault Entries
  | [] => return before
  | (key, value) :: rest => do
    let (path, key) ← key.names
    let node ← value.node
    Phrase.entries (← assign path key node .inline before) rest

end

def Pair.apply (before : Entries) (pair : Pair) : Except Fault Entries := do
  let (path, key) ← pair.1.names
  let node ← pair.2.node
  assign path key node .header before

/-- Adds a section to the tables before it. A table that is added to an array takes its place once
it is complete; any other is opened first. -/
def Section.apply (root : Entries) (s : Section) : Except Fault Entries := do
  let (path, key) ← s.key.names
  if s.grows then
    let table ← s.pairs.foldlM Pair.apply []
    descend .implied (fun _ => addElement key table) path .header root
  else
    descend .implied
      (fun _ entries => do
        let table ← s.pairs.foldlM Pair.apply (← openedBy key entries)
        return entries.put key (.table .header table))
      path .header root

def parse (document : String) : Except Fault Entries := do
  let outline ← orMalformed (Outline.ofDocument? document)
  outline.sections.foldlM Section.apply (← outline.pairs.foldlM Pair.apply [])

end CompactType.Toml
