/-!
# Tags

A **tag** records one definition: its name, its kind, the number of the line it stands on, and the
text of that line. The tags of a script are kept with the path as it was given and the name of the
language.
-/

namespace ScriptTags

/-- The **kinds** of tags. Shell scripts have functions only. -/
inductive TagKind where
  | function
  deriving DecidableEq, Repr

namespace TagKind

/-- The letter that stands for a kind in a tag file. -/
def letter : TagKind → Char
  | function => 'f'

/-- The name of a kind. -/
def name : TagKind → String
  | function => "function"

/-- What the tags of a kind are called together. -/
def description : TagKind → String
  | function => "functions"

end TagKind

/-- A **tag**: a definition found on a line. -/
structure Tag where
  name : String
  kind : TagKind := .function
  /-- The number of the line, counted from one. -/
  line : Nat
  /-- The text of the line, which an editor searches for. -/
  pattern : String
  deriving DecidableEq, Repr

/-- The tags of one script, in the order of their lines. -/
structure TagFile where
  /-- The path as it was given. -/
  file : String
  language : String
  tags : List Tag
  deriving DecidableEq, Repr

end ScriptTags
