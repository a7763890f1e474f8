import ScriptTags.Output
import ScriptTags.Text.Terminal

/-!
# Help and version

What `-h`, `--help`, and `--version` print, line by line. The names of the options stand out in bold
type, and the value of the environment's **configuration variable** is shown with the option that it
stands in for. A line end in that value is followed by the indentation of the column it is in.
-/

namespace ScriptTags.CommandLine

open Terminal (bold heading)

/-- A text of these lines. -/
def textOfLines (lines : List String) : String :=
  String.join (lines.map fun line => line ++ "\n")

/-- The name of the configuration variable. -/
def configVariableName : String :=
  "SHTAGS_CONFIG"

/-- A text whose lines but the first are **indented** by so many spaces. -/
def indented (columns : Nat) (text : String) : String :=
  String.ofList (text.toList.flatMap fun c =>
    if c = '\n' then c :: List.replicate columns ' ' else [c])

/-- The note that shows the configuration variable. -/
def variableNote (columns : Nat) (value : String) : String :=
  indented columns ("[env: " ++ configVariableName ++ "=" ++ value ++ "]")

/-- The names of an option that has two. -/
def names (short long : String) : String :=
  "  " ++ bold ("-" ++ short) ++ ", " ++ bold ("--" ++ long)

/-- The name of an option that has only one. -/
def name (long : String) : String :=
  "      " ++ bold ("--" ++ long)

/-- What the program does. -/
def purpose : String :=
  "Extracts function definitions from sh/bash/ksh/zsh scripts into a tag file"

/-- How the program is called. -/
def usage : String :=
  heading "Usage:" ++ " " ++ bold Ctags.programName ++ " [OPTIONS] <PATH>..."

/-- What the configuration option is about. -/
def configAbout : String :=
  "Configuration file (default: ./.shtags.toml, then the user config dir)"

/-- The **summary** that `-h` prints, with the value of the configuration variable. -/
def summary (value : String) : List String :=
  [purpose,
    "",
    usage,
    "",
    heading "Arguments:",
    "  <PATH>...  Files or directories to scan",
    "",
    heading "Options:",
    names "f" "format" ++ " <FORMAT>        Output format [default: ctags] " ++
      "[possible values: ctags, json, toon]",
    names "o" "output" ++ " <FILE>          Write output to FILE instead of stdout",
    names "R" "recursive" ++ "              Descend into directories",
    name "max-depth" ++ " <MAX_DEPTH>  Maximum directory depth with --recursive [default: 10]",
    name "unsorted" ++ "               Keep tags in scan order instead of sorting by name",
    name "config" ++ " <FILE>          " ++ configAbout ++ " " ++ variableNote 31 value,
    names "v" "verbose" ++ "                Log scanning progress to stderr",
    names "h" "help" ++ "                   Print help (see more with '--help')",
    names "V" "version" ++ "                Print version"]

/-- The **help** that `--help` prints, with the value of the configuration variable. -/
def help (value : String) : List String :=
  [purpose,
    "",
    usage,
    "",
    heading "Arguments:",
    "  <PATH>...",
    "          Files or directories to scan",
    "",
    heading "Options:",
    names "f" "format" ++ " <FORMAT>",
    "          Output format",
    "",
    "          Possible values:",
    "          - " ++ bold "ctags" ++ ": Extended ctags tag file - default",
    "          - " ++ bold "json" ++ ":  JSON - one object per scanned file",
    "          - " ++ bold "toon" ++
      ":  TOON (Token-Oriented Object Notation) - token-efficient format",
    "          ",
    "          [default: ctags]",
    "",
    names "o" "output" ++ " <FILE>",
    "          Write output to FILE instead of stdout",
    "",
    names "R" "recursive",
    "          Descend into directories",
    "",
    name "max-depth" ++ " <MAX_DEPTH>",
    "          Maximum directory depth with --recursive",
    "          ",
    "          [default: 10]",
    "",
    name "unsorted",
    "          Keep tags in scan order instead of sorting by name",
    "",
    name "config" ++ " <FILE>",
    "          " ++ configAbout,
    "          ",
    "          " ++ variableNote 10 value,
    "",
    names "v" "verbose",
    "          Log scanning progress to stderr",
    "",
    names "h" "help",
    "          Print help (see a summary with '-h')",
    "",
    names "V" "version",
    "          Print version"]

/-- The **version** that `--version` prints. -/
def version : List String :=
  [Ctags.programName ++ " " ++ Ctags.programVersion]

end ScriptTags.CommandLine
