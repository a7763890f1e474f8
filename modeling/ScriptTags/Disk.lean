import ScriptTags.Disk.Tree
import ScriptTags.Path

/-!
# The file system

A **disk** is a directory tree with a working directory in it. A path is followed from the root or
from the working directory, piece by piece; every piece, also an empty one or `.`, needs a
directory to stand in. So `a.sh/` is not found where `a.sh` is a file, and neither is
`missing/../a.sh`.

Lengths are limited. A path of more than `pathLimit` bytes is not followed at all, however few
directories it leads through, and a name of more than `nameLimit` bytes is not made.

Writing replaces the contents of a file, or makes one in a directory that exists. Nobody is kept
from reading or writing what is there, and a name stands for its own node, never for a path to
another.
-/

namespace ScriptTags

/-- The greatest number of bytes in a path. -/
def pathLimit : Nat :=
  4095

/-- The greatest number of bytes in a name. -/
def nameLimit : Nat :=
  255

/-- Whether a path is **too long** to be followed. -/
def Path.isTooLong (p : Path) : Bool :=
  pathLimit < p.bytes.length

/-- A **disk**: the root directory, and the names that lead to the working directory. -/
structure Disk where
  root : Listing
  cwd : List Bytes := []
  deriving DecidableEq, Repr

namespace Disk

/-- Why the file system **refuses** something. -/
inductive Refusal where
  | notFound
  | notDirectory
  | isDirectory
  /-- The path, or a name in it, has too many bytes. -/
  | tooLong
  /-- A NUL byte cannot be part of a path. -/
  | badName
  deriving DecidableEq, Repr

/-- The wording of a refusal. -/
def Refusal.message : Refusal → String
  | notFound => "No such file or directory (os error 2)"
  | notDirectory => "Not a directory (os error 20)"
  | isDirectory => "Is a directory (os error 21)"
  | tooLong => "File name too long (os error 36)"
  | badName => "file name contained an unexpected NUL byte"

/-- The node that names lead to from the root. -/
def node? (d : Disk) (names : List Bytes) : Option Node :=
  (Node.dir d.root).get? names

/-- The working directory as an absolute path. -/
def cwdPath (d : Disk) : Path :=
  if d.cwd.isEmpty then ⟨[Byte.slash]⟩ else ⟨d.cwd.flatMap fun name => Byte.slash :: name⟩

/-! ### Following paths -/

/-- The refusal of a place at which there is nothing, perhaps because its last name cannot be
made. -/
def missing (place : List Bytes) : Refusal :=
  if place.getLast?.any fun name => nameLimit < name.length then .tooLong else .notFound

/-- Follows one piece of a path from the directory at the end of `place`. -/
def enter (d : Disk) (place : List Bytes) (piece : Bytes) : Except Refusal (List Bytes) :=
  match d.node? place with
  | none => .error (missing place)
  | some (.file _) => .error .notDirectory
  | some (.dir _) =>
    if piece = [] ∨ piece = [Byte.dot] then .ok place
    else if piece = [Byte.dot, Byte.dot] then .ok place.dropLast
    else .ok (place ++ [piece])

/-- Where a path starts. -/
def start (d : Disk) (p : Path) : List Bytes :=
  if p.isAbsolute then [] else d.cwd

/-- Refuses the paths that name nothing on any disk. -/
def check (p : Path) : Except Refusal Unit :=
  if p.bytes = [] then .error .notFound
  else if p.bytes.contains 0 then .error .badName
  else if p.isTooLong then .error .tooLong
  else .ok ()

/-- The node that a path leads to. -/
def resolve (d : Disk) (p : Path) : Except Refusal Node := do
  check p
  let place ← p.pieces.foldlM d.enter (d.start p)
  match d.node? place with
  | some node => return node
  | none => throw (missing place)

/-- Whether a path leads to a file. -/
def isFile (d : Disk) (p : Path) : Bool :=
  match d.resolve p with
  | .ok (.file _) => true
  | _ => false

/-- Whether a path leads to a directory. -/
def isDir (d : Disk) (p : Path) : Bool :=
  match d.resolve p with
  | .ok (.dir _) => true
  | _ => false

/-- Whether a path leads anywhere. -/
def pathExists (d : Disk) (p : Path) : Bool :=
  (d.resolve p).isOk

/-! ### Reading and writing -/

/-- **Reads** a file. -/
def read (d : Disk) (p : Path) : Except Refusal Bytes := do
  match ← d.resolve p with
  | .file content => return content
  | .dir _ => throw .isDirectory

/-- **Lists** a directory. -/
def list (d : Disk) (p : Path) : Except Refusal Listing := do
  match ← d.resolve p with
  | .dir inner => return inner
  | .file _ => throw .notDirectory

/-- The place that a file is written to: names that lead to an existing file, or to nothing in an
existing directory. A path that ends in a separator, `.`, or `..` can only name a directory. -/
def target (d : Disk) (p : Path) : Except Refusal (List Bytes) := do
  check p
  let pieces := (p.pieces.reverse.dropWhile (· == [])).reverse
  match pieces.getLast? with
  | none => throw .isDirectory
  | some name =>
    let place ← (pieces.dropLast ++ [[]]).foldlM d.enter (d.start p)
    if name = [Byte.dot] ∨ name = [Byte.dot, Byte.dot] ∨ p.bytes.getLast? = some Byte.slash then
      throw .isDirectory
    else
      match d.node? (place ++ [name]) with
      | some (.dir _) => throw .isDirectory
      | some (.file _) => return place ++ [name]
      | none => if nameLimit < name.length then throw .tooLong else return place ++ [name]

/-- The disk with `node` at the end of `names`. -/
def put (d : Disk) (names : List Bytes) (node : Node) : Disk :=
  { d with root := d.root.put node names }

/-- **Writes** a file. -/
def write (d : Disk) (p : Path) (content : Bytes) : Except Refusal Disk := do
  return d.put (← d.target p) (.file content)

end Disk

end ScriptTags
