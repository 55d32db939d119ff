/-!
# Configuration of a parse

How deep types may nest and how defined structs are named.
-/

set_option autoImplicit false

namespace CompactType

structure Config where
  maxDepth : Nat := 256
  /-- The name of a defined struct is this text followed by its number. -/
  structPrefix : String := "typespec.struct."
deriving DecidableEq, Repr, Inhabited

namespace Config

def shallow : Config := { maxDepth := 32 }

def structName (config : Config) (number : Nat) : String :=
  config.structPrefix ++ toString number

end Config

end CompactType
