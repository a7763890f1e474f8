import ScriptTags.Config
import ScriptTags.Disk

/-!
# Where the configuration is looked up

An **explicit** file has to exist. Without one, the first of these that is a file is read: the local
file in the working directory, then the user's own; and if neither is there, the defaults hold.
-/

namespace ScriptTags.Config

/-- The name of the local configuration file. -/
def localName : Path :=
  Path.ofString ".shtags.toml"

/-- The name of the configuration file in the user's directory. -/
def userName : Path :=
  Path.ofString "config.toml"

/-- The name of the program's directory in the user's configuration directory. -/
def userDirectory : Path :=
  Path.ofString "shtags"

/-- Reads a configuration **file**. -/
def ofFile (d : Disk) (path : Path) : Except Error Config :=
  match d.read path with
  | .error refusal => .error (.config path.display refusal.message)
  | .ok content =>
    match Utf8.decode? content with
    | none => .error (.config path.display "stream did not contain valid UTF-8")
    | some text => do
      return { ← parse text path with source := some path }

/-- The files that are looked at, in order, when none is explicit. -/
def candidates (cwd : Path) (userDir : Option Path) : List Path :=
  cwd.join localName :: (userDir.map fun dir => dir.join userName).toList

/-- **Looks up** the configuration. -/
def lookup (d : Disk) (explicit : Option Path) (cwd : Path) (userDir : Option Path) :
    Except Error Config :=
  match explicit with
  | some path => if d.isFile path then ofFile d path else .error (.fileNotFound path.display)
  | none =>
    match (candidates cwd userDir).find? d.isFile with
    | some path => ofFile d path
    | none => .ok {}

/-- The configuration of a run in the disk's working directory; `home` is the directory in which
programs keep the user's configuration. -/
def load (d : Disk) (home : Option Path) (explicit : Option Path) : Except Error Config :=
  lookup d explicit d.cwdPath (home.map fun dir => dir.join userDirectory)

end ScriptTags.Config
