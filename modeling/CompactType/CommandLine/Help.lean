import CompactType.CommandLine.Arguments

/-!
# Help texts
-/

set_option autoImplicit false

namespace CompactType.CommandLine

def versionText : String := "typespec 0.1.0\n"

def Topic.about : Topic → String
  | level .top => "Parse compact type specifications"
  | level .types => "Parse specifications and print the resulting types"
  | level .spellings => "Parse specifications and print their canonical encoding"
  | level .create => "Write a default config file"
  | help => "Print this message or the help of the given subcommand(s)"

def Topic.usage : Topic → String
  | level .top => "typespec [OPTIONS] [COMMAND]"
  | level .types => "typespec parse [OPTIONS] [SPECS]..."
  | level .spellings => "typespec spec [OPTIONS] [SPECS]..."
  | level .create => "typespec init [OPTIONS]"
  | help => "typespec help [COMMAND]..."

def commandsText : String :=
  "Commands:\n" ++
  "  parse  " ++ (Topic.level .types).about ++ "\n" ++
  "  spec   " ++ (Topic.level .spellings).about ++ "\n" ++
  "  init   " ++ (Topic.level .create).about ++ "\n" ++
  "  help   " ++ Topic.help.about ++ "\n"

def specsText : String := "Arguments:\n  [SPECS]...  \n"

def optionsText : String :=
  "Options:\n" ++
  "  -c, --config <CONFIG>  Path to config file [default: typespec.toml]\n" ++
  "  -h, --help             Print help\n"

def Topic.blocks : Topic → List String
  | level .top => [commandsText, optionsText ++ "  -V, --version          Print version\n"]
  | level .types | level .spellings => [specsText, optionsText]
  | level .create => [optionsText]
  | help => ["Arguments:\n  [COMMAND]...  Print help for the subcommand(s)\n"]

def Topic.text (topic : Topic) : String :=
  "\n".intercalate ((topic.about ++ "\n") :: ("Usage: " ++ topic.usage ++ "\n") :: topic.blocks)

end CompactType.CommandLine
