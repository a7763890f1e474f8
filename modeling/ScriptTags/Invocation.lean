import ScriptTags.CommandLine.Complaint
import ScriptTags.Progress

/-!
# Invoking the program

The program is **invoked** with arguments. They come to options, with which it runs, or they stop
it: it then prints help, its version, or a complaint. A verbose run shows its progress before the
files that could not be scanned.
-/

namespace ScriptTags.Disk

open CommandLine (Stop)

/-- The lines that are printed when no options come out of the command line. -/
def stopLines (configVariable : Option Bytes) : Stop → List String
  | .displayHelp false => CommandLine.summary (Utf8.decodeLossy (configVariable.getD []))
  | .displayHelp true => CommandLine.help (Utf8.decodeLossy (configVariable.getD []))
  | .displayVersion => CommandLine.version
  | stop => stop.complaint

/-- The report of a run that has no options. What it prints is not for a terminal; help and version
go to the standard output, and complaints to the standard error stream. -/
def stopReport (configVariable : Option Bytes) (stop : Stop) : Report :=
  let text := Terminal.plain (CommandLine.textOfLines (stopLines configVariable stop))
  if stop.exitCode = 0 then { stdout := text } else { notices := text, exitCode := stop.exitCode }

/-- The progress that a run shows. -/
def progressText (d : Disk) (home : Option Path) (o : CommandLine.Options) : String :=
  if o.verbose then CommandLine.textOfLines ((d.progress home o).map Progress.line) else ""

/-- **Invokes** the program on a command line; `configVariable` is the environment's configuration
file. -/
def invoke (d : Disk) (home : Option Path) (configVariable : Option Bytes)
    (arguments : List Bytes) : Disk × Report :=
  match CommandLine.parse arguments configVariable with
  | .error stop => (d, stopReport configVariable stop)
  | .ok o =>
    let (after, report) := d.run home o
    (after, { report with notices := progressText d home o })

end ScriptTags.Disk
