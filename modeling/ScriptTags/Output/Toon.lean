import ScriptTags.Tag

/-!
# TOON

**Token-oriented object notation** writes the list of files as an indented block and the tags of a
file as a table, one row to a tag, under a head that says how many rows follow:

```text
files[1]:
  - file: a.sh
    language: sh
    tags: [2]{name,kind,line}:
      setup,function,3
      "tear-down",function,9
```

A string is **quoted** when it could be taken for something else: when it is empty or a literal,
looks like a number, or holds a delimiter or white space. Escapes are written inside quotes only.
-/

namespace ScriptTags.Toon

/-- The characters that may follow the first digit of a number. -/
def isNumberChar (c : Char) : Bool :=
  c.isDigit || c == '.' || c == 'e' || c == 'E' || c == '+' || c == '-'

/-- Whether a text without a sign looks like a number. -/
def unsignedLooksNumeric : List Char → Bool
  | [] => false
  | d :: rest => d.isDigit && !(d == '0' && rest.head?.any Char.isDigit) && rest.all isNumberChar

/-- Whether a text **looks like a number**. -/
def looksNumeric (s : List Char) : Bool :=
  if s.head? = some '-' then unsignedLooksNumeric s.tail else unsignedLooksNumeric s

/-- The characters that force quotes: delimiters, the hyphen, and white space. -/
def isDelimiter (c : Char) : Bool :=
  c == '[' || c == ']' || c == '\x7b' || c == '\x7d' || c == ':' || c == '-' || c == ',' ||
    c == ' ' || c == '\t' || c == '\n' || c == '\r'

/-- The words that stand for something other than a string. -/
def literals : List String :=
  ["null", "true", "false"]

/-- Whether a string needs **quotes**. -/
def needsQuotes (s : String) : Bool :=
  s.isEmpty || literals.contains s || looksNumeric s.toList || s.toList.any isDelimiter

/-- The form of a character inside quotes. -/
def escapeChar (c : Char) : List Char :=
  if c = '\n' then ['\\', 'n']
  else if c = '\r' then ['\\', 'r']
  else if c = '\t' then ['\\', 't']
  else if c = '"' then ['\\', '"']
  else if c = '\\' then ['\\', '\\']
  else [c]

/-- A **string**. -/
def string (s : String) : List Char :=
  if needsQuotes s then '"' :: s.toList.flatMap escapeChar ++ ['"'] else s.toList

/-- The count of a list, in brackets. -/
def count (n : Nat) : List Char :=
  '[' :: Nat.toDigits 10 n ++ [']']

/-- The row of a tag. -/
def row (t : Tag) : List Char :=
  List.replicate 6 ' ' ++ string t.name ++ ',' :: string t.kind.name ++ ',' ::
    Nat.toDigits 10 t.line

/-- The columns of the table of tags. -/
def columns : List Char :=
  "\x7bname,kind,line\x7d".toList

/-- The head of the table of tags. -/
def tableHead (tags : List Tag) : List Char :=
  "    tags: ".toList ++ count tags.length ++ (if tags.isEmpty then [] else columns) ++ [':']

/-- The lines of a file. -/
def fileLines (f : TagFile) : List (List Char) :=
  ("  - file: ".toList ++ string f.file) :: ("    language: ".toList ++ string f.language) ::
    tableHead f.tags :: f.tags.map row

/-- The lines of a list of files. -/
def lines (files : List TagFile) : List (List Char) :=
  ("files".toList ++ count files.length ++ [':']) :: files.flatMap fileLines

/-- The **TOON text** of a list of files. -/
def text (files : List TagFile) : String :=
  String.ofList (List.intercalate ['\n'] (lines files))

end ScriptTags.Toon
