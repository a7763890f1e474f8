import ScriptTags.Text.Utf8

/-!
# Paths

A path is a byte string cut at `/`. Empty pieces and `.` say nothing, except that a relative path
may start with `.`; so `a/b`, `a//b`, and `a/./b/` have the same **components**. Three views of a
path matter:

* its **file name**, the last component unless that is `..` or there is none;
* its **extension**, the part of the file name after the last full stop, provided that something
  stands before that full stop;
* its **key**, by which lists of paths are sorted: components are compared one after the other,
  names byte by byte, so that `a/b.sh` comes before `a.sh`.

A path is always shown as it was given, with ill-formed UTF-8 replaced.
-/

namespace ScriptTags

/-- A **path**, as the bytes it is spelled with. -/
structure Path where
  bytes : Bytes
  deriving DecidableEq, Repr

/-- A **component** of a path. -/
inductive Component where
  | root
  | current
  | parent
  | normal (name : Bytes)
  deriving DecidableEq, Repr

/-- The sort key of a component: the root first, then `.`, then `..`, then names by their bytes. -/
def Component.key : Component → Bytes
  | root => [0]
  | current => [1]
  | parent => [2]
  | normal name => 3 :: name

namespace Path

/-- The path spelled by a text. -/
def ofString (text : String) : Path :=
  ⟨Utf8.encode text⟩

/-- The pieces between the separators, empty ones included. -/
def pieces (p : Path) : List Bytes :=
  p.bytes.splitOn Byte.slash

/-- Whether the path starts at the root. -/
def isAbsolute (p : Path) : Bool :=
  p.bytes.head? == some Byte.slash

/-- The pieces that name something: neither empty nor `.`. -/
def names (p : Path) : List Bytes :=
  p.pieces.filter fun piece => piece != [] && piece != [Byte.dot]

/-- The component that a piece other than `.` stands for. -/
def componentOf (piece : Bytes) : Component :=
  if piece = [Byte.dot, Byte.dot] then .parent else .normal piece

/-- The **components** of a path. -/
def components (p : Path) : List Component :=
  let start : List Component :=
    if p.isAbsolute then [.root]
    else if p.pieces.head? = some [Byte.dot] then [.current]
    else []
  start ++ p.names.map componentOf

/-- The key by which paths are ordered. -/
def key (p : Path) : List Bytes :=
  p.components.map Component.key

/-- Compares two paths by their keys. -/
protected def compare : Path → Path → Ordering :=
  compareOn key

/-- A list of paths in order. -/
def sorted (paths : List Path) : List Path :=
  paths.mergeSort fun p q => (p.compare q).isLE

/-- The **file name** of a path. -/
def fileName? (p : Path) : Option Bytes :=
  match p.names.getLast? with
  | none => none
  | some name => if name = [Byte.dot, Byte.dot] then none else some name

/-- The part of a file name after its last full stop, if something stands before that stop. -/
def nameExtension? (name : Bytes) : Option Bytes :=
  match name.reverse.dropWhile (· != Byte.dot) with
  | _ :: _ :: _ => some (name.reverse.takeWhile (· != Byte.dot)).reverse
  | _ => none

/-- The **extension** of a path. -/
def extension? (p : Path) : Option Bytes :=
  p.fileName?.bind nameExtension?

/-- The extension of a path as text, if it is text. -/
def extensionText? (p : Path) : Option String :=
  p.extension?.bind Utf8.decode?

/-- The **base name** of a path: its file name as text, or nothing. -/
def baseName (p : Path) : String :=
  match p.fileName? with
  | none => ""
  | some name => Utf8.decodeLossy name

/-- A path as it is **shown**. -/
def display (p : Path) : String :=
  Utf8.decodeLossy p.bytes

/-- The path `q` seen from the directory `p`; an absolute `q` stays as it is. -/
def join (p q : Path) : Path :=
  if q.isAbsolute then q
  else if p.bytes = [] ∨ p.bytes.getLast? = some Byte.slash then ⟨p.bytes ++ q.bytes⟩
  else ⟨p.bytes ++ Byte.slash :: q.bytes⟩

end Path

end ScriptTags
