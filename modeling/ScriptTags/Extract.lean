import ScriptTags.Config
import ScriptTags.Script.Scanner

/-!
# The tags of a script

A script is routed to its language and its physical lines are scanned. The path decides the
language, with the first line as a fallback, and its base name is what suppression rules look at.
-/

namespace ScriptTags

/-- **Extracts** the tags of a script. -/
def extract (config : Config) (path : Path) (content : Bytes) : Except Error TagFile := do
  let language ← config.route path content
  match language with
  | .sh =>
    return { file := path.display
             language := language.name
             tags := findTags config.rules path (Script.lines content) }

end ScriptTags
