import CompactType.CommandLine.Help
import CompactType.Config.Load
import CompactType.TypeTable.Encoding
import CompactType.TypeTable.Parse

/-!
# Running the command line

A run reads a configuration or creates one, and leaves an exit code and a text. Each specification
is parsed into a table of its own; the first that fails ends the run.
-/

set_option autoImplicit false

namespace CompactType.CommandLine

structure Report where
  code : UInt32
  output : String
deriving DecidableEq, Repr

abbrev Show := TypeTable → Nat → Except Refusal String

def showSpec (display : Show) (config : Config) (spec : String) : Except String String :=
  let run := TypeTable.initial.parse spec config
  match run.outcome with
  | .error d => .error d.render
  | .ok id => (display run.store id).mapError Refusal.message

/-- The lines for specifications up to the first that fails, whose message is the last line. -/
def showAll (display : Show) (config : Config) : List String → Report
  | [] => ⟨0, ""⟩
  | spec :: rest =>
    match showSpec display config spec with
    | .error message => ⟨1, message ++ "\n"⟩
    | .ok line =>
      let report := showAll display config rest
      { report with output := line ++ "\n" ++ report.output }

variable {m : Type → Type} [Monad m]

def showUnder (files : FileAccess m) (path : String) (display : Show) (specs : List String) :
    m Report := do
  match ← Config.load files path with
  | .error e => return ⟨1, e.message ++ "\n"⟩
  | .ok config => return showAll display config specs

def create (files : FileAccess m) (path : String) : m Report := do
  if ← files.present path then
    return ⟨0, "File " ++ path ++ " already exists\n"⟩
  match ← files.write path Config.defaultDocument with
  | .ok () => return ⟨0, "Created " ++ path ++ "\n"⟩
  | .error reason =>
    return ⟨1, "error: failed to write file " ++ path ++ ": " ++ reason ++ "\n"⟩

def Invocation.run (files : FileAccess m) (i : Invocation) : m Report :=
  let path := i.config.getD Config.fileName
  match i.command with
  | .types specs => showUnder files path TypeTable.text specs
  | .spellings specs => showUnder files path TypeTable.encode specs
  | .create => create files path

/-- Misuse is reported by the exit code alone. -/
def Stop.report : Stop → Report
  | misuse => ⟨2, ""⟩
  | help topic => ⟨0, topic.text⟩
  | version => ⟨0, versionText⟩

def run (files : FileAccess m) (arguments : List String) : m Report :=
  match readArguments arguments with
  | .error stop => return stop.report
  | .ok invocation => invocation.run files

end CompactType.CommandLine
