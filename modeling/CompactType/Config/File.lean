import CompactType.Config
import CompactType.Toml.Document

/-!
# Configuration files

The configuration in a TOML document: the table `parser` with the keys `max-depth` and
`struct-prefix`. Both are optional and other keys are ignored.
-/

set_option autoImplicit false

namespace CompactType.Config

open Toml (Node Entries)

inductive FileError where
  | malformed
  | keyTooLong
  | zeroDepth
deriving DecidableEq, Repr

namespace FileError

def message : FileError → String
  | malformed => "TOML parse error"
  | keyTooLong => "recursion limit\n"
  | zeroDepth => "max-depth must be at least 1"

def ofFault : Toml.Fault → FileError
  | .malformed => malformed
  | .keyTooLong => keyTooLong

end FileError

/-- A depth is an integer of 64 bits. -/
def depth? : Node → Option Nat
  | .integer (some (.ofNat n)) => if n < UInt64.size then some n else none
  | _ => none

def text? : Node → Option String
  | .text s => some s
  | _ => none

/-- Takes over one entry of the table. Values under other keys are ignored, but have to fit. -/
def withEntry (config : Config) : String × Node → Option Config
  | ("max-depth", node) => (depth? node).map fun maxDepth => { config with maxDepth }
  | ("struct-prefix", node) => (text? node).map fun structPrefix => { config with structPrefix }
  | (_, node) => if node.fits then some config else none

/-- In an array the depth comes first and the prefix second. Further items are ignored. -/
def ofItems : List Node → Option Config
  | [] => some {}
  | [d] => return { maxDepth := ← depth? d }
  | d :: p :: _ => return { maxDepth := ← depth? d, structPrefix := ← text? p }

/-- A date or a time gives neither key, and so the default configuration. -/
def ofNode? : Node → Option Config
  | .table _ entries => entries.foldlM withEntry {}
  | .array _ items => ofItems items
  | .moment _ => some {}
  | _ => none

def withRootEntry (config : Config) : String × Node → Option Config
  | ("parser", node) => ofNode? node
  | (_, node) => if node.fits then some config else none

def ofDocument? (root : Entries) : Option Config := root.foldlM withRootEntry {}

/-- Reads a configuration. Without any nesting nothing could be parsed, so that is refused. -/
def read (document : String) : Except FileError Config := do
  let root ← (Toml.parse document).mapError FileError.ofFault
  match ofDocument? root with
  | none => .error .malformed
  | some config => if config.maxDepth = 0 then .error .zeroDepth else .ok config

def fileName : String := "typespec.toml"

def defaultDocument : String :=
  "# Type specification parser configuration\n" ++
  "\n" ++
  "[parser]\n" ++
  "max-depth = 256                     # Deepest allowed type nesting\n" ++
  "struct-prefix = \"typespec.struct.\"  # Name prefix of '=N' structs\n"

end CompactType.Config
