/-!
# Arguments of the command line

Arguments are read from left to right, on the top level up to the name of a command and below it
as the command's own. The path of the configuration may be given on both levels; below wins.
-/

set_option autoImplicit false

namespace CompactType.CommandLine

inductive Command where
  | types (specs : List String)
  | spellings (specs : List String)
  | create
deriving DecidableEq, Repr

inductive Level where
  | top
  | types
  | spellings
  | create
deriving DecidableEq, Repr

inductive Topic where
  | level (level : Level)
  | help
deriving DecidableEq, Repr

/-- Ways in which reading arguments ends before there is anything to run. -/
inductive Stop where
  | misuse
  | help (topic : Topic)
  | version
deriving DecidableEq, Repr

structure Options where
  config : Option String := none
  /-- An option for the path that is not settled yet, with the value that followed it, if any. -/
  pending : Option (Option String) := none
  literal : Bool := false
  specs : List String := []
deriving DecidableEq, Repr

namespace Options

/-- The path may be given once on a level, and may not be empty. -/
def setConfig (o : Options) (value : String) : Except Stop Options :=
  if o.config.isSome || value.isEmpty then .error .misuse
  else .ok { o with config := some value, pending := none }

def settle (o : Options) : Except Stop Options :=
  match o.pending with
  | none => .ok o
  | some none => .error .misuse
  | some (some value) => o.setConfig value

def awaits (o : Options) : Bool := o.pending == some none

def await (o : Options) : Except Stop Options := do
  return { ← o.settle with pending := some none }

def attach (o : Options) (value : String) : Except Stop Options := do
  (← o.settle).setConfig value

def stop (o : Options) (s : Stop) : Except Stop Options := do
  let _ ← o.settle
  throw s

/-- Takes an argument that is no option. Only specifications are expected. -/
def positional (o : Options) (level : Level) (value : String) : Except Stop Options := do
  let o ← o.settle
  match level with
  | .types | .spellings => return { o with specs := o.specs ++ [value] }
  | .top | .create => throw .misuse

def short (o : Options) (level : Level) : List Char → Except Stop Options
  | [] => .ok o
  | ['c'] => o.await
  | 'c' :: '=' :: value => o.attach (String.ofList value)
  | 'c' :: value => o.attach (String.ofList value)
  | 'h' :: _ => o.stop (.help (.level level))
  | 'V' :: _ => if level = .top then o.stop .version else .error .misuse
  | _ => .error .misuse

def long (o : Options) (level : Level) (written : List Char) : Except Stop Options :=
  let name := written.takeWhile (· != '=')
  let value := (written.drop name.length).tail?
  match String.ofList name, value with
  | "config", none => o.await
  | "config", some value => o.attach (String.ofList value)
  | "help", none => o.stop (.help (.level level))
  | "version", none => if level = .top then o.stop .version else .error .misuse
  | _, _ => .error .misuse

def step (o : Options) (level : Level) (argument : String) : Except Stop Options :=
  if o.literal then o.positional level argument
  else match argument.toList with
    | ['-', '-'] => .ok { o with literal := true }
    | '-' :: '-' :: written => o.long level written
    | '-' :: c :: letters => o.short level (c :: letters)
    | _ =>
      if o.awaits then .ok { o with pending := some (some argument) }
      else o.positional level argument

end Options

structure Invocation where
  command : Command
  config : Option String
deriving DecidableEq, Repr

def level? : String → Option Level
  | "parse" => some .types
  | "spec" => some .spellings
  | "init" => some .create
  | _ => none

def Options.command (o : Options) : Level → Except Stop Command
  | .top => .error .misuse
  | .types => .ok (.types o.specs)
  | .spellings => .ok (.spellings o.specs)
  | .create => .ok .create

def readCommand (level : Level) (arguments : List String) : Except Stop Invocation := do
  let o ← arguments.foldlM (fun o argument => o.step level argument) ({} : Options)
  let o ← o.settle
  return ⟨← o.command level, o.config⟩

def helpTopic : List String → Stop
  | [] => .help (.level .top)
  | ["help"] => .help .help
  | [name] =>
    match level? name with
    | some level => .help (.level level)
    | none => .misuse
  | _ => .misuse

/-- Reads arguments of the top level, up to the name of a command. What is pending there is
settled after the command's own arguments. -/
def readTop (o : Options) : List String → Except Stop Invocation
  | [] => do
    let _ ← o.settle
    throw (.help (.level .top))
  | argument :: rest =>
    if o.literal || o.awaits then do readTop (← o.step .top argument) rest
    else if argument = "help" then .error (helpTopic rest)
    else match level? argument with
      | some level => do
        let invocation ← readCommand level rest
        let o ← o.settle
        return { invocation with config := invocation.config.or o.config }
      | none => do readTop (← o.step .top argument) rest

def readArguments (arguments : List String) : Except Stop Invocation :=
  readTop {} arguments

end CompactType.CommandLine
