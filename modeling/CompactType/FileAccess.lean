/-!
# Access to files

The operations on files that the command line needs, which a file system or a tree of files
provides.
-/

set_option autoImplicit false

namespace CompactType

structure FileAccess (m : Type → Type) where
  present : String → m Bool
  read : String → m (Except String ByteArray)
  write : String → String → m (Except String Unit)

end CompactType
