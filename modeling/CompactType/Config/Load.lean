import CompactType.Config.File
import CompactType.FileAccess

/-!
# Loading a configuration

A configuration is loaded from a file if there is one. A file that is there but cannot be used is
an error.
-/

set_option autoImplicit false

namespace CompactType.Config

inductive LoadError where
  | unreadable (path : String) (reason : String)
  | invalid (path : String) (error : FileError)
deriving DecidableEq, Repr

def LoadError.message : LoadError → String
  | unreadable path reason => "failed to read " ++ path ++ ": " ++ reason
  | invalid path error => "invalid config " ++ path ++ ": " ++ error.message

def ofBytes (path : String) (bytes : ByteArray) : Except LoadError Config :=
  match String.fromUTF8? bytes with
  | none => .error (.unreadable path "stream did not contain valid UTF-8")
  | some document =>
    match read document with
    | .ok config => .ok config
    | .error e => .error (.invalid path e)

/-- Loads the configuration at a path, which is the default one if nothing is there. -/
def load {m : Type → Type} [Monad m] (files : FileAccess m) (path : String) :
    m (Except LoadError Config) := do
  if ← files.present path then
    match ← files.read path with
    | .ok bytes => return ofBytes path bytes
    | .error reason => return .error (.unreadable path reason)
  else return .ok {}

end CompactType.Config
