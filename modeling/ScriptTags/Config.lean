import ScriptTags.Config.Schema
import ScriptTags.Language
import ScriptTags.Toml.Grammar

/-!
# Configuration

A configuration adds to what is built in: **extensions** that are scanned as shell scripts, and
**rules** that suppress tags. Extensions are kept without their leading full stops, and those of
which nothing is left are dropped. The built-in rule comes before the given ones unless the file
turns it off.
-/

namespace ScriptTags

/-- A **configuration**. -/
structure Config where
  extensions : List String := []
  rules : Rules := Rules.builtin
  /-- The file that it was read from. -/
  source : Option Path := none
  deriving DecidableEq, Repr

namespace Config

/-- An extension without its leading full stops. -/
def bareExtension (extension : String) : String :=
  String.ofList (extension.toList.dropWhile (· == '.'))

/-- The configuration that a file's settings make. -/
def ofSettings (s : Settings) : Config :=
  { extensions := (s.extensions.map bareExtension).filter (· != "")
    rules := (if s.defaultSuppressions then Rules.builtin else []) ++ s.suppress }

/-- The configuration that a document's entries make. -/
def ofEntries (entries : Toml.Entries) : Except Settings.Fault Config := do
  return ofSettings (← Settings.read entries)

/-- **Parses** a configuration; `origin` is the file that errors name. -/
def parse (text : String) (origin : Path) : Except Error Config :=
  match Toml.parse text with
  | .error fault => .error (.configSyntax origin.display fault.message)
  | .ok entries =>
    match ofEntries entries with
    | .ok config => .ok config
    | .error fault => .error (.config origin.display fault.message)

/-- The language that the extension of a path gives, with the configured extensions first. -/
def languageOf? (config : Config) (path : Path) : Option Language :=
  path.extensionText?.bind fun extension =>
    if config.extensions.contains extension then some .sh else Language.ofExtension? extension

/-- The **language** of a script: by its extension, or else by its first line. -/
def route (config : Config) (path : Path) (content : Bytes) : Except Error Language :=
  match config.languageOf? path with
  | some language => .ok language
  | none => Language.detect path content

end Config

end ScriptTags
