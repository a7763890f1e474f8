import ScriptTags.Disk
import ScriptTags.Extract

/-!
# Scanning many files

Files are scanned one by one and independently: a file that cannot be scanned is recorded with its
error, and the others still are. Results and errors keep the order of the paths.
-/

namespace ScriptTags

/-- **Extracts** the tags of a file on the disk. -/
def Disk.extract (d : Disk) (config : Config) (path : Path) : Except Error TagFile :=
  match d.resolve path with
  | .error _ => .error (.fileNotFound path.display)
  | .ok (.dir _) => .error (.isDirectory path.display)
  | .ok (.file content) => ScriptTags.extract config path content

/-- A file that could not be scanned. -/
structure FileError where
  path : Path
  error : Error
  deriving DecidableEq, Repr

/-- The results of scanning a **batch** of files. -/
structure Batch where
  files : List TagFile := []
  errors : List FileError := []
  deriving DecidableEq, Repr

namespace Batch

/-- The number of tags in a batch. -/
def tagCount (b : Batch) : Nat :=
  b.files.foldl (fun count f => count + f.tags.length) 0

/-- Splits outcomes into results and errors. -/
def ofOutcomes (outcomes : List (Path × Except Error TagFile)) : Batch :=
  { files := outcomes.filterMap fun o => o.2.toOption
    errors := outcomes.filterMap fun o =>
      match o.2 with
      | .ok _ => none
      | .error e => some ⟨o.1, e⟩ }

end Batch

/-- **Scans** a batch of files. -/
def Disk.scan (d : Disk) (config : Config) (paths : List Path) : Batch :=
  Batch.ofOutcomes (paths.map fun path => (path, d.extract config path))

end ScriptTags
