import ScriptTags.Error
import ScriptTags.Path
import ScriptTags.Script.Lines
import ScriptTags.Tag

/-!
# Languages

A script is recognised by its **extension**, whose spelling counts, or else by the interpreter that
its **first line** names: `#!`, then the interpreter's path, or the path of `env` and the first word
after it that is no option. Words end at ASCII white space, which leaves out the vertical tab.
-/

namespace ScriptTags

/-- The **languages** that are scanned: the shells of the Bourne family, as one. -/
inductive Language where
  | sh
  deriving DecidableEq, Repr

namespace Language

/-- Every language. -/
def all : List Language :=
  [sh]

/-- The name of a language. -/
def name : Language → String
  | sh => "sh"

/-- The extensions of a language, which are also the names of its interpreters. -/
def extensions : Language → List String
  | sh => ["sh", "SH", "bsh", "bash", "BASH", "ksh", "KSH", "zsh", "Zsh", "ZSH"]

/-- The kinds of tags that a language has. -/
def kinds : Language → List TagKind
  | sh => [.function]

/-- The language with this extension. -/
def ofExtension? (extension : String) : Option Language :=
  all.find? fun language => language.extensions.contains extension

/-- The language with this extension, or the error that there is none. -/
def ofExtension (extension : String) : Except Error Language :=
  match ofExtension? extension with
  | some language => .ok language
  | none => .error (.unsupportedLanguage extension)

/-- The language that the extension of a path gives. A path without an extension, or with one that
is not text, is reported as having `none`. -/
def ofPath (path : Path) : Except Error Language :=
  match path.extensionText? with
  | some extension => ofExtension extension
  | none => .error (.unsupportedLanguage "none")

/-- ASCII white space: space, tab, line feed, form feed, and carriage return. -/
def endsWord (c : Char) : Bool :=
  c == ' ' || c == '\t' || c == '\n' || c == '\x0C' || c == '\r'

/-- The words of a text. -/
def words (text : List Char) : List (List Char) :=
  (text.splitOnP endsWord).filter (· != [])

/-- The last component of an interpreter's path. -/
def interpreterName (word : List Char) : List Char :=
  (word.splitOn '/').getLast?.getD word

/-- The interpreter that the words after `#!` name. -/
def interpreter? : List (List Char) → Option (List Char)
  | [] => none
  | word :: rest =>
    if interpreterName word = ['e', 'n', 'v'] then
      (rest.find? fun w => w.head? != some '-').map interpreterName
    else some (interpreterName word)

/-- The bytes `#!`, which open a line that names an interpreter. -/
def shebang : Bytes :=
  [Byte.hash, 0x21]

/-- The language that a **first line** gives. -/
def ofShebang? (line : Bytes) : Option Language :=
  if shebang.isPrefixOf line then
    (interpreter? (words (Utf8.decodeLossy (line.drop shebang.length)).toList)).bind fun name =>
      ofExtension? (String.ofList name)
  else none

/-- The language of a script, by its path or else by its first line; if neither gives one, the error
is the path's. -/
def detect (path : Path) (content : Bytes) : Except Error Language :=
  match ofPath path with
  | .ok language => .ok language
  | .error e =>
    match ofShebang? (Script.firstLine content) with
    | some language => .ok language
    | none => .error e

end Language

end ScriptTags
