import ScriptTags.Run

/-!
# The progress of a run

A verbose run **logs** what it does: the configuration it uses, the number of files, what is
suppressed and counted in each file, and the files it passes over. The log comes from the same
parts as the run, in the same order, and ends where the run ends. Files are logged in the order of
their paths.
-/

namespace ScriptTags

/-- A step of a run, as it is **logged**. -/
inductive Progress where
  | noConfig
  | loaded (source : Path) (rules : Nat)
  | configured (source : Path)
  | scanning (files : Nat)
  | suppressed (file : Path) (line : Nat) (name : String) (rule : Rule)
  | scanned (file : Path) (stats : ScanStats)
  | skipped (path : Path)
  | finished (batch : Batch)
  deriving DecidableEq, Repr

namespace Progress

/-- A **field** of a log line. -/
def field (name value : String) : String :=
  " " ++ name ++ "=" ++ value

/-- A field whose value is a number. -/
def count (name : String) (value : Nat) : String :=
  field name (toString value)

/-- The **line** of a step in the log. -/
def line : Progress → String
  | noConfig => "DEBUG no configuration file found, using defaults"
  | loaded source rules =>
    "DEBUG loaded configuration" ++ field "path" source.display ++ count "rules" rules
  | configured source => "DEBUG using configuration" ++ field "path" source.display
  | scanning files => " INFO scanning" ++ count "files" files
  | suppressed file line name rule =>
    "DEBUG suppressed function tag" ++ field "file" file.display ++ count "line" line ++
      field "name" name ++ field "rule_file" rule.file
  | scanned file stats =>
    "DEBUG scanned" ++ field "file" file.display ++ count "lines" stats.lines ++
      count "tags" stats.tags ++ count "suppressed" stats.suppressed
  | skipped path => "DEBUG skipping file" ++ field "path" path.display
  | finished batch =>
    " INFO scan complete" ++ count "files" batch.files.length ++ count "tags" batch.tagCount ++
      count "errors" batch.errors.length

/-- The steps that lead to a configuration. -/
def ofConfig (config : Config) : List Progress :=
  match config.source with
  | none => [noConfig]
  | some source => [loaded source config.rules.length, configured source]

/-- The step that a line of a script is, if a rule vetoes its definition. -/
def ofLine? (rules : Rules) (file : Path) (line : Bytes) (number : Nat) : Option Progress :=
  match Line.classify line with
  | .definition found =>
    let name := String.ofList (Bytes.toChars found.name)
    (rules.veto? file.baseName name).map (suppressed file number name)
  | _ => none

/-- The steps of scanning the lines of a script. -/
def ofLines (rules : Rules) (file : Path) (lines : List Bytes) : List Progress :=
  (lines.zipIdx 1).filterMap (fun e => ofLine? rules file e.1 e.2) ++
    [scanned file (({ rules := rules : Scanner }).scan file lines #[]).2.1]

end Progress

namespace Disk

/-- The steps of scanning a file. There are none if it cannot be scanned. -/
def fileProgress (d : Disk) (config : Config) (path : Path) : List Progress :=
  match d.resolve path with
  | .ok (.file content) =>
    if (config.route path content).toOption.isSome then
      Progress.ofLines config.rules path (Script.lines content)
    else []
  | _ => []

/-- The steps of scanning a batch of files. -/
def scanProgress (d : Disk) (config : Config) (paths : List Path) : List Progress :=
  let batch := d.scan config paths
  [.scanning paths.length] ++ paths.flatMap (d.fileProgress config) ++
    batch.errors.map (fun e => .skipped e.path) ++ [.finished batch]

/-- The **progress** of a run. -/
def progress (d : Disk) (home : Option Path) (o : CommandLine.Options) : List Progress :=
  match Config.load d home o.config with
  | .error _ => []
  | .ok config =>
    Progress.ofConfig config ++
      match d.expand config o with
      | .error _ => []
      | .ok paths => d.scanProgress config paths

end Disk

end ScriptTags
