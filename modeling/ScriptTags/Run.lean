import ScriptTags.CommandLine
import ScriptTags.Config.Lookup
import ScriptTags.Disk.Batch
import ScriptTags.Disk.Collect

/-!
# A run

A run loads the configuration, **expands** its paths to files, scans them, writes the output, and
then reports the files that could not be scanned. An error in the configuration, or a directory
among the paths of a run that is not recursive, ends the run before anything is written; so does
output that cannot be written. A run changes nothing on the disk but its output file.
-/

namespace ScriptTags

open CommandLine (Options)

/-- What a run **leaves behind** besides the disk. -/
structure Report where
  stdout : String := ""
  /-- What the standard error stream shows before the errors. -/
  notices : String := ""
  errors : List Error := []
  exitCode : UInt8 := 0
  deriving DecidableEq, Repr

namespace Report

/-- The report of a run that an error ends. -/
def failed (e : Error) : Report :=
  { errors := [e], exitCode := e.exitCode }

/-- The report of a run that has written its output. The exit code is that of the first error. -/
def done (stdout : String) (errors : List Error) : Report :=
  { stdout, errors, exitCode := (errors.head?.map Error.exitCode).getD 0 }

/-- What a report shows on the standard error stream. -/
def stderr (r : Report) : String :=
  r.notices ++ String.join (r.errors.map fun e => "Error: " ++ e.message ++ "\n")

end Report

namespace Disk

/-- The files that one path of the command line stands for. A path that leads nowhere stands for
itself. -/
def expandPath (d : Disk) (config : Config) (o : Options) (path : Path) :
    Except Error (List Path) :=
  if d.isDir path then
    if o.recursive then .ok (d.collect config path o.maxDepth)
    else .error (.isDirectory path.display)
  else .ok [path]

/-- The files that the paths of the command line stand for. -/
def expand (d : Disk) (config : Config) (o : Options) : Except Error (List Path) := do
  return (← o.paths.mapM (d.expandPath config o)).flatten

/-- Writes the output of a run and reports on it. -/
def finish (d : Disk) (o : Options) (batch : Batch) : Disk × Report :=
  let text := render batch.files (!o.unsorted) o.format
  let errors := batch.errors.map FileError.error
  match o.output with
  | none => (d, .done text errors)
  | some path =>
    match d.write path (Utf8.encode text) with
    | .ok d' => (d', .done "" errors)
    | .error refusal => (d, .failed (.output (path.display ++ ": " ++ refusal.message)))

/-- **Runs** the program; `home` is the directory in which programs keep configurations. -/
def run (d : Disk) (home : Option Path) (o : Options) : Disk × Report :=
  match Config.load d home o.config with
  | .error e => (d, .failed e)
  | .ok config =>
    match d.expand config o with
    | .error e => (d, .failed e)
    | .ok paths => d.finish o (d.scan config paths)

end Disk

end ScriptTags
