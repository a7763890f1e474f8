import ScriptTags.Output.Ctags
import ScriptTags.Output.Json
import ScriptTags.Output.Toon

/-!
# Output formats

The three texts that a list of files can be written as. Only tag files are sorted; the other formats
keep the order of the scan.
-/

namespace ScriptTags

/-- The **formats** of the output. -/
inductive Format where
  | ctags
  | json
  | toon
  deriving DecidableEq, Repr

namespace Format

/-- Every format. -/
def all : List Format :=
  [ctags, json, toon]

/-- The name of a format. -/
def name : Format → String
  | ctags => "ctags"
  | json => "json"
  | toon => "toon"

/-- The format with this name. -/
def ofName? (name : String) : Option Format :=
  all.find? fun format => format.name == name

end Format

/-- **Renders** a list of files. -/
def render (files : List TagFile) (sorted : Bool) : Format → String
  | .ctags => Ctags.text files sorted
  | .json => JsonText.text files
  | .toon => Toon.text files

end ScriptTags
