import ScriptTags.Tag

/-!
# JSON

The list of files is written as a JSON **array of objects**, indented by two spaces a level, with a
space after the colon of a member and with `[]` for an empty array. Inside a string only the
quotation mark, the reverse solidus, and the control characters below `U+0020` are escaped.
-/

namespace ScriptTags.JsonText

/-- A digit of a `\u` escape. -/
def hexDigit (n : Nat) : Char :=
  Nat.digitChar n

/-- The form of a character inside a string. -/
def escapeChar (c : Char) : List Char :=
  if c = '"' then ['\\', '"']
  else if c = '\\' then ['\\', '\\']
  else if c = '\x08' then ['\\', 'b']
  else if c = '\x0C' then ['\\', 'f']
  else if c = '\n' then ['\\', 'n']
  else if c = '\r' then ['\\', 'r']
  else if c = '\t' then ['\\', 't']
  else if c.toNat < 0x20 then
    ['\\', 'u', '0', '0', hexDigit (c.toNat / 16), hexDigit (c.toNat % 16)]
  else [c]

/-- A **string**. -/
def string (s : String) : List Char :=
  '"' :: s.toList.flatMap escapeChar ++ ['"']

/-- A **number**. -/
def number (n : Nat) : List Char :=
  Nat.toDigits 10 n

/-- The white space at the start of a line. -/
def indent (depth : Nat) : List Char :=
  List.replicate (2 * depth) ' '

/-- Items between brackets, each on a line of its own. -/
def block (depth : Nat) (opening closing : Char) (items : List (List Char)) : List Char :=
  if items.isEmpty then [opening, closing]
  else
    opening :: '\n' ::
      List.intercalate [',', '\n'] (items.map fun item => indent (depth + 1) ++ item) ++
      '\n' :: indent depth ++ [closing]

/-- An **array**. -/
def array (depth : Nat) (items : List (List Char)) : List Char :=
  block depth '[' ']' items

/-- An **object**. -/
def object (depth : Nat) (members : List (String × List Char)) : List Char :=
  block depth '\x7b' '\x7d' (members.map fun m => string m.1 ++ ':' :: ' ' :: m.2)

/-- The object of a tag. -/
def tag (depth : Nat) (t : Tag) : List Char :=
  object depth
    [("name", string t.name), ("kind", string t.kind.name), ("line", number t.line),
      ("pattern", string t.pattern)]

/-- The object of a file. -/
def file (depth : Nat) (f : TagFile) : List Char :=
  object depth
    [("file", string f.file), ("language", string f.language),
      ("tags", array (depth + 1) (f.tags.map (tag (depth + 2))))]

/-- The **JSON text** of a list of files. -/
def text (files : List TagFile) : String :=
  String.ofList (array 0 (files.map (file 1)))

end ScriptTags.JsonText
