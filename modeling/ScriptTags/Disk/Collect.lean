import ScriptTags.Config
import ScriptTags.Disk
import ScriptTags.Overflow

/-!
# Collecting scripts

A directory is walked down to a **depth limit**, and every file is kept that the configuration can
route: by its extension, or else by its first line. On the way, hidden entries and the directories
that tools fill are **skipped**, while the directory that the walk starts from is not put to this
test. An entry whose path has become too long to be followed is neither a file nor a directory to
the walk, which passes over it.

A walk counts the levels that it has come down in a 64-bit word (`Listing.walk`), and where it
enters a directory it counts on before it looks at the limit. What it finds is described without a
count, by the levels that are left below a listing (`Listing.scripts`).
-/

namespace ScriptTags

/-- The names of directories that tools fill. -/
def toolDirectories : List String :=
  ["node_modules", "target", "dist", "build", "coverage", "__pycache__", "vendor"]

/-- Whether a name is left out of a walk. -/
def skipsName (name : String) : Bool :=
  name.toList.head? == some '.' || toolDirectories.contains name

/-- Whether a path is **left out** of a walk. A file name that is not text is not. -/
def Path.isSkipped (path : Path) : Bool :=
  (path.fileName?.bind Utf8.decode?).any skipsName

/-- Whether a file is a **script**. Its first line is looked at with its end. -/
def Config.isScript (config : Config) (path : Path) (content : Bytes) : Bool :=
  (config.languageOf? path).isSome ||
    (Language.ofShebang? (Script.firstLineEnded content)).isSome

/-- The scripts in a listing of `dir` and up to `levels` levels of directories below it, in the
order of the listings. -/
def Listing.scripts (config : Config) (dir : Path) (levels : Nat) : Listing → List Path
  | .nil => []
  | .file name content rest =>
    let path := dir.join ⟨name⟩
    if !path.isSkipped && !path.isTooLong && config.isScript path content then
      path :: rest.scripts config dir levels
    else rest.scripts config dir levels
  | .dir name inner rest =>
    let path := dir.join ⟨name⟩
    let below :=
      match levels with
      | 0 => []
      | levels + 1 =>
        if path.isSkipped || path.isTooLong then [] else inner.scripts config path levels
    below ++ rest.scripts config dir levels

/-- The scripts that a **walk** finds in a listing of `dir`, to which it has come `depth` levels
down. -/
def Listing.walk (o : Overflow) (config : Config) (limit : UInt64) (dir : Path) (depth : UInt64) :
    Listing → Except Panic (List Path)
  | .nil => return []
  | .file name content rest => do
    let path := dir.join ⟨name⟩
    let found :=
      if !path.isSkipped && !path.isTooLong && config.isScript path content then [path] else []
    return found ++ (← rest.walk o config limit dir depth)
  | .dir name inner rest => do
    let path := dir.join ⟨name⟩
    let below : Except Panic (List Path) :=
      if path.isSkipped || path.isTooLong then return []
      else do
        let next ← o.add depth 1
        if limit < next then return [] else inner.walk o config limit path next
    return (← below) ++ (← rest.walk o config limit dir depth)

namespace Disk

/-- The scripts that a walk finds which is already `depth` levels down, in order. A directory that
cannot be read has none. -/
def collectFrom (o : Overflow) (d : Disk) (config : Config) (dir : Path) (limit depth : UInt64) :
    Except Panic (List Path) :=
  if limit < depth then return []
  else
    match d.list dir with
    | .error _ => return []
    | .ok listing => return Path.sorted (← listing.walk o config limit dir depth)

/-- **Collects** the scripts under a directory, in order: those in it and in the directories up to
`limit` levels below it. A directory that cannot be read has none. -/
def collect (d : Disk) (config : Config) (dir : Path) (limit : UInt64) : List Path :=
  match d.list dir with
  | .error _ => []
  | .ok listing => Path.sorted (listing.scripts config dir limit.toNat)

end Disk

end ScriptTags
