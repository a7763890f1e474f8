import ScriptTags.Suppression
import ScriptTags.Text.Quoted
import ScriptTags.Toml.Value

/-!
# What a configuration file can say

A configuration is a table with at most three keys:

* `extensions`, an array of strings;
* `default_suppressions`, a boolean, true if it is not given;
* `suppress`, an array of rules. A rule is a table of the strings `file` and `name` and nothing
  else, or an array that starts with these two strings.

Entries are read in the order of the document, and the first **fault** is the one that is
reported. A date-time counts as a map with one key of its own.
-/

namespace ScriptTags

open Toml (Value Entries)

/-- What a configuration file **says**. -/
structure Settings where
  extensions : List String := []
  defaultSuppressions : Bool := true
  suppress : List Rule := []
  deriving DecidableEq, Repr

namespace Settings

/-- What is **wanted** of a value. -/
inductive Wanted where
  | sequence
  | boolean
  | string
  | rule
  deriving DecidableEq, Repr

/-- How a want is worded. -/
def Wanted.text : Wanted → String
  | sequence => "a sequence"
  | boolean => "a boolean"
  | string => "a string"
  | rule => "struct SuppressionRule"

/-- How a value that is not wanted is worded. -/
def foundText : Value → String
  | .string s => "string " ++ Text.quote s
  | .integer i => "integer `" ++ toString i ++ "`"
  | .float x => "floating point `" ++ String.ofList x.text ++ "`"
  | .boolean b => "boolean `" ++ (if b then "true" else "false") ++ "`"
  | .array _ | .tables _ => "sequence"
  | .datetime | .table _ _ => "map"

/-- What can be **wrong** with a well-formed configuration. -/
inductive Fault where
  | unknownKey (key : String)
  | unknownRuleKey (key : String)
  | missingRuleKey (key : String)
  | wrongType (found : Value) (wanted : Wanted)
  | shortRule (length : Nat)
  deriving Repr

/-- The **message** of a fault. -/
def Fault.message : Fault → String
  | unknownKey key =>
    "unknown field `" ++ key ++
      "`, expected one of `extensions`, `default_suppressions`, `suppress`"
  | unknownRuleKey key => "unknown field `" ++ key ++ "`, expected `file` or `name`"
  | missingRuleKey key => "missing field `" ++ key ++ "`"
  | wrongType found wanted => "invalid type: " ++ foundText found ++ ", expected " ++ wanted.text
  | shortRule length =>
    "invalid length " ++ toString length ++
      ", expected struct SuppressionRule with 2 elements"

/-! ### Values -/

/-- Reads a string. -/
def readString : Value → Except Fault String
  | .string s => .ok s
  | v => .error (.wrongType v .string)

/-- Reads a boolean. -/
def readBoolean : Value → Except Fault Bool
  | .boolean b => .ok b
  | v => .error (.wrongType v .boolean)

/-- Reads an array, item by item. -/
def readArray {α : Type} (readItem : Value → Except Fault α) (v : Value) :
    Except Fault (List α) :=
  match v.items? with
  | some items => items.mapM readItem
  | none => .error (.wrongType v .sequence)

/-! ### Rules -/

/-- A rule of which some keys have been read. -/
structure RuleDraft where
  file : Option String := none
  name : Option String := none
  deriving DecidableEq, Repr

/-- Reads one entry of a rule. -/
def RuleDraft.set (draft : RuleDraft) (entry : String × Value) : Except Fault RuleDraft :=
  if entry.1 = "file" then do
    return { draft with file := some (← readString entry.2) }
  else if entry.1 = "name" then do
    return { draft with name := some (← readString entry.2) }
  else .error (.unknownRuleKey entry.1)

/-- The rule of a draft that has both keys. -/
def RuleDraft.finish (draft : RuleDraft) : Except Fault Rule :=
  match draft.file, draft.name with
  | none, _ => .error (.missingRuleKey "file")
  | some _, none => .error (.missingRuleKey "name")
  | some file, some name => .ok ⟨file, name⟩

/-- Reads a rule from the entries of a map. -/
def readRuleEntries (entries : Entries) : Except Fault Rule := do
  (← entries.foldlM RuleDraft.set {}).finish

/-- Reads a rule from the items of an array. Items after the second are not looked at. -/
def readRuleItems : List Value → Except Fault Rule
  | [] => .error (.shortRule 0)
  | file :: rest => do
    let file ← readString file
    match rest with
    | [] => .error (.shortRule 1)
    | name :: _ => return ⟨file, ← readString name⟩

/-- The one key of a date-time, seen as a map. -/
def datetimeKey : String :=
  "$__toml_private_datetime"

/-- Reads a **rule**. -/
def readRule : Value → Except Fault Rule
  | .table _ entries => readRuleEntries entries
  | .datetime => .error (.unknownRuleKey datetimeKey)
  | .array items => readRuleItems items
  | .tables latestFirst => readRuleItems latestFirst.reverse
  | v => .error (.wrongType v .rule)

/-! ### Files -/

/-- Reads one entry of a configuration. -/
def set (settings : Settings) (entry : String × Value) : Except Fault Settings :=
  if entry.1 = "extensions" then do
    return { settings with extensions := ← readArray readString entry.2 }
  else if entry.1 = "default_suppressions" then do
    return { settings with defaultSuppressions := ← readBoolean entry.2 }
  else if entry.1 = "suppress" then do
    return { settings with suppress := ← readArray readRule entry.2 }
  else .error (.unknownKey entry.1)

/-- Reads a **configuration**. -/
def read (entries : Entries) : Except Fault Settings :=
  entries.foldlM set {}

end Settings

end ScriptTags
