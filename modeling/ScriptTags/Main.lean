import ScriptTags.Invocation

/-!
# The program

The outer layer. It **observes** the part of the real file system that a run can look at, as a
`Disk`; runs on that disk; and carries out what the run has left behind: the output file, the two
streams, and the exit code.
-/

namespace ScriptTags.Observe

/-- The absolute path that names lead to from the root, as text. -/
def placeText (place : List Bytes) : String :=
  ({ root := .nil, cwd := place } : Disk).cwdPath.display

/-- Whether the contents of a file can matter to a walk: it is routed by its extension, or starts
with `#!`. -/
def mayBeScript (config : Config) (name : Bytes) (content : ByteArray) : Bool :=
  (config.languageOf? ⟨name⟩).isSome || (content.extract 0 2).toList == Language.shebang

/-- What an action gives, or nothing if the system refuses it. -/
def attempt {α : Type} (action : IO α) : IO (Option α) :=
  (some <$> action) <|> pure none

/-- Adds the node at a place to the disk, unless the disk has one there. A walk with a configuration
leaves out the contents that cannot matter to it. -/
def node (config : Option Config) (d : Disk) (place : List Bytes) : IO Disk := do
  if (d.node? place).isSome then return d
  match ← attempt (IO.FS.realPath (placeText place)) with
  | none => return d
  | some found =>
    if ← found.isDir then return d.put place (.dir .nil)
    match ← attempt (IO.FS.readBinFile found) with
    | none => return d
    | some content =>
      let kept := match config, place.getLast? with
        | some config, some name => mayBeScript config name content
        | _, _ => true
      return d.put place (.file (if kept then content.toList else []))

/-- The names of the entries in a directory that a walk visits. -/
def names (place : List Bytes) : IO (List Bytes) := do
  match ← attempt (do (← IO.FS.realPath (placeText place)).readDir) with
  | none => return []
  | some entries =>
    return (entries.toList.map fun entry => Utf8.encode entry.fileName).filter fun name =>
      !Path.isSkipped ⟨name⟩

/-- Adds the node at a place and all nodes up to so many levels below it. -/
def below (config : Option Config) : Nat → Disk → List Bytes → IO Disk
  | 0, d, place => node config d place
  | levels + 1, d, place => do
    let d ← node config d place
    (← names place).foldlM (fun d name => below config levels d (place ++ [name])) d

/-- Adds every node on the way of a path, and all nodes up to so many levels below its end. -/
def path (config : Option Config) (levels : Nat) (d : Disk) (p : Path) : IO Disk := do
  let mut d := d
  let mut place := d.start p
  for piece in p.pieces do
    d ← node none d place
    match d.enter place piece with
    | .ok next => place := next
    | .error _ => return d
  below config levels d place

/-- The disk as far as a run with these options can look at it. -/
def disk (cwd : List Bytes) (home : Option Path) (o : CommandLine.Options) : IO Disk := do
  let start : Disk := { root := .nil, cwd }
  let userDir := home.map fun dir => dir.join Config.userDirectory
  let looked := o.config.toList ++ Config.candidates start.cwdPath userDir ++ o.output.toList
  let d ← (looked ++ o.paths).foldlM (path none 0) start
  if o.recursive then
    let config := (Config.load d home o.config).toOption.getD {}
    o.paths.foldlM (path (some config) (o.maxDepth.toNat + 1)) d
  else return d

end ScriptTags.Observe

namespace ScriptTags

/-- The directory in which programs keep the user's configuration. -/
def configHome : IO (Option Path) := do
  match ← IO.getEnv "XDG_CONFIG_HOME", ← IO.getEnv "HOME" with
  | some given, home =>
    if given.startsWith "/" then return some (Path.ofString given)
    else return home.map fun dir => (Path.ofString dir).join (Path.ofString ".config")
  | none, home => return home.map fun dir => (Path.ofString dir).join (Path.ofString ".config")

/-- Carries out what a run has done to its output file. -/
def writeOutput (o : CommandLine.Options) (before after : Disk) : IO Unit := do
  match o.output with
  | none => return
  | some p =>
    match after.read p with
    | .error _ => return
    | .ok content =>
      if (before.read p).toOption != some content then
        IO.FS.writeBinFile p.display (ByteArray.mk content.toArray)

/-- Prints a report and gives its exit code. -/
def printReport (r : Report) : IO UInt32 := do
  IO.print r.stdout
  IO.eprint r.stderr
  return r.exitCode.toUInt32

end ScriptTags

open ScriptTags in
/-- Runs the program on the real file system. -/
def main (arguments : List String) : IO UInt32 := do
  let arguments := arguments.map Utf8.encode
  let configVariable := (← IO.getEnv CommandLine.configVariableName).map Utf8.encode
  match CommandLine.parse arguments configVariable with
  | .error stop => printReport (Disk.stopReport configVariable stop)
  | .ok o =>
    let cwd := (Path.ofString (← IO.currentDir).toString).names
    let home ← configHome
    let before ← Observe.disk cwd home o
    let (after, report) := before.invoke home configVariable arguments
    writeOutput o before after
    printReport report
