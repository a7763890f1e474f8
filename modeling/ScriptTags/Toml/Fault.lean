/-!
# What is wrong with a TOML text

A text is malformed where no rule of the grammar applies, and **contradicts itself** where a
statement gives a key that is there already, or goes on from a value as if it were a table. The
first fault of a text is the one that is reported.
-/

namespace ScriptTags.Toml

/-- The **kinds** of values that are no tables of their own. -/
inductive Kind where
  | string
  | integer
  | float
  | boolean
  | datetime
  | array
  | inlineTable
  deriving DecidableEq, Repr

/-- The name of a kind. -/
def Kind.name : Kind → String
  | string => "string"
  | integer => "integer"
  | float => "float"
  | boolean => "boolean"
  | datetime => "datetime"
  | array => "array"
  | inlineTable => "inline table"

/-- A **fault**. -/
inductive Fault where
  | malformed
  /-- A key is there already. The table that it is in is told by the names that lead to it, unless
  the fault lies on the way or inside of braces. -/
  | duplicateKey (key : String) (table : Option (List String))
  /-- Names lead on from a value that is no table. -/
  | notTable (names : List String) (kind : Kind)
  deriving DecidableEq, Repr

namespace Fault

/-- Names with full stops between them. -/
def dotted (names : List String) : String :=
  ".".intercalate names

/-- The **message** of a fault. -/
def message : Fault → String
  | malformed => "not well-formed TOML"
  | duplicateKey key none => "duplicate key `" ++ key ++ "`"
  | duplicateKey key (some []) => "duplicate key `" ++ key ++ "` in document root"
  | duplicateKey key (some names) =>
    "duplicate key `" ++ key ++ "` in table `" ++ dotted names ++ "`"
  | notTable names kind =>
    "dotted key `" ++ dotted names ++ "` attempted to extend non-table type (" ++ kind.name ++ ")"

end Fault

end ScriptTags.Toml
