import CompactType.Parse.Run
import CompactType.TypeTable.Factory

/-!
# Parsing into a table
-/

set_option autoImplicit false

namespace CompactType.TypeTable

/-- Adds the types of a specification to a table. Types made before a failure stay. -/
def parse (t : TypeTable) (spec : String) (config : Config) : Parse.Run TypeTable Nat :=
  Parse.run factory config spec t

end CompactType.TypeTable
