import CompactType.CommandLine.Run

/-!
# The program

Runs the command line on the files of the system.
-/

set_option autoImplicit false

namespace CompactType

def systemFailure : IO.Error → String
  | .noFileOrDirectory _ code details | .permissionDenied _ code details
  | .inappropriateType _ code details | .invalidArgument _ code details
  | .resourceExhausted _ code details | .alreadyExists _ code details =>
    details ++ " (os error " ++ toString code ++ ")"
  | .otherError code details | .hardwareFault code details | .resourceBusy code details
  | .unsupportedOperation code details => details ++ " (os error " ++ toString code ++ ")"
  | e => toString e

def attempt {α : Type} (action : IO α) : IO (Except String α) := do
  try
    return .ok (← action)
  catch e =>
    return .error (systemFailure e)

def systemFiles : FileAccess IO where
  present path := do
    match ← attempt (IO.FS.realPath path) with
    | .ok _ => return true
    | .error _ => return false
  read path := attempt (IO.FS.readBinFile path)
  write path content := attempt (IO.FS.writeFile path content)

end CompactType

def main (arguments : List String) : IO UInt32 := do
  let report ← CompactType.CommandLine.run CompactType.systemFiles arguments
  IO.print report.output
  return report.code
