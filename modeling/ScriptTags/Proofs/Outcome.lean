import ScriptTags.Proofs.Writing
import ScriptTags.Run

/-!
# The outcome of a run

Errors of a run reach differently far. One in the configuration, a directory in a run that is not
recursive, and output that cannot be written **stop** the run (`Report.Stops`): the disk stays as it
is, nothing is printed, and this error is all that is reported. A file that cannot be scanned is
**listed** (`Report.Lists`) and takes nothing from the others.

`Disk.run_outcome` puts these together. It speaks of the paths that a command line stands for
(`Disk.expansion`), of the files among them that can be scanned, and of what is seen on the disk; in
which order the run does its work does not appear.
-/

namespace ScriptTags

open CommandLine (Options)

namespace Report

/-- **The report lists errors**, one after the other, and its exit code is that of the first, or
zero if there is none. -/
structure Lists (r : Report) (errors : List Error) : Prop where
  stderr_eq : r.stderr = String.join (errors.map fun e => "Error: " ++ e.message ++ "\n")
  exitCode_eq : r.exitCode = (errors.head?.map Error.exitCode).getD 0

/-- **The error `e` stops the run** on the disk `d`. -/
structure Stops (d : Disk) (e : Error) (outcome : Disk × Report) : Prop where
  disk_eq : outcome.1 = d
  stdout_eq : outcome.2.stdout = ""
  stderr_eq : outcome.2.stderr = "Error: " ++ e.message ++ "\n"
  exitCode_eq : outcome.2.exitCode = e.exitCode

/-- A run that comes to its end lists its errors. -/
theorem lists_done (stdout : String) (errors : List Error) : (done stdout errors).Lists errors :=
  ⟨String.empty_append, rfl⟩

theorem stops_failed (d : Disk) (e : Error) : Stops d e (d, failed e) :=
  ⟨rfl, rfl, by simp [stderr, failed, String.join], rfl⟩

end Report

namespace Disk

variable {d : Disk} {config : Config} {o : Options} {paths : List Path} {path : Path}

/-! ### What a command line stands for -/

/-- The files that one path stands for: those collected below it, if it is a directory, and else the
path itself. -/
def standsFor (d : Disk) (config : Config) (o : Options) (path : Path) : List Path :=
  if d.isDir path then d.collect config path o.maxDepth else [path]

/-- The **expansion** of a command line: what its paths stand for, in their order. -/
def expansion (d : Disk) (config : Config) (o : Options) : List Path :=
  o.paths.flatMap (d.standsFor config o)

/-- A directory is an error where directories are not walked. -/
theorem expandPath_of_isDir_of_not_recursive (hdir : d.isDir path = true)
    (hrec : o.recursive = false) :
    d.expandPath config o path = .error (.isDirectory path.display) := by
  simp [expandPath, hdir, hrec]

/-- A path is expanded to what it stands for if it is no directory or directories are walked. -/
theorem expandPath_eq_ok (h : o.recursive = true ∨ d.isDir path = false) :
    d.expandPath config o path = .ok (d.standsFor config o path) := by
  rw [expandPath, standsFor]
  cases hdir : d.isDir path with
  | false => rfl
  | true => simp [h.resolve_right (by simp [hdir])]

theorem mapM_expandPath_eq_ok (h : o.recursive = true ∨ ∀ path ∈ paths, d.isDir path = false) :
    paths.mapM (d.expandPath config o) = .ok (paths.map (d.standsFor config o)) := by
  induction paths with
  | nil => rfl
  | cons path paths ih =>
    have hpath : o.recursive = true ∨ d.isDir path = false := h.imp_right fun h => h path (by simp)
    have hpaths := ih (h.imp_right fun h p hp => h p (List.mem_cons_of_mem path hp))
    rw [List.mapM_cons, expandPath_eq_ok hpath, hpaths]
    rfl

/-- The first directory is the one that is reported, wherever it stands. -/
theorem mapM_expandPath_eq_error (hrec : o.recursive = false)
    (h : paths.find? d.isDir = some path) :
    paths.mapM (d.expandPath config o) = .error (.isDirectory path.display) := by
  induction paths with
  | nil => contradiction
  | cons first paths ih =>
    rw [List.mapM_cons]
    rw [List.find?_cons] at h
    cases hfirst : d.isDir first with
    | true =>
      simp only [hfirst, Option.some.injEq] at h
      rw [h, expandPath_of_isDir_of_not_recursive (h ▸ hfirst) hrec]
      rfl
    | false =>
      simp only [hfirst] at h
      rw [expandPath_eq_ok (.inr hfirst), ih h]
      rfl

/-- **A command line expands** when its directories are walked or there are none among its paths. -/
def Expands (d : Disk) (o : Options) : Prop :=
  o.recursive = true ∨ ∀ path ∈ o.paths, d.isDir path = false

/-- A command line expands, or it has a first directory. -/
theorem expands_or_exists_find? (d : Disk) (o : Options) :
    d.Expands o ∨ o.recursive = false ∧ ∃ path, o.paths.find? d.isDir = some path := by
  cases hrec : o.recursive with
  | true => exact .inl (.inl hrec)
  | false =>
    cases hfind : o.paths.find? d.isDir with
    | some path => exact .inr ⟨rfl, path, rfl⟩
    | none =>
      refine .inl (.inr fun path hpath => ?_)
      simpa using List.find?_eq_none.mp hfind path hpath

theorem expand_eq_ok (h : d.Expands o) :
    d.expand config o = .ok (d.expansion config o) := by
  rw [expand, mapM_expandPath_eq_ok h, expansion, List.flatMap_def]
  rfl

theorem expand_eq_error (hrec : o.recursive = false) (h : o.paths.find? d.isDir = some path) :
    d.expand config o = .error (.isDirectory path.display) := by
  rw [expand, mapM_expandPath_eq_error hrec h]
  rfl

/-! ### What a scan finds -/

/-- The error of a file that cannot be scanned. -/
def failure? (d : Disk) (config : Config) (path : Path) : Option Error :=
  match d.extract config path with
  | .ok _ => none
  | .error e => some e

/-- The scan has the files that can be extracted, in their order. -/
theorem files_scan (d : Disk) (config : Config) (paths : List Path) :
    (d.scan config paths).files = paths.filterMap fun path => (d.extract config path).toOption := by
  simp only [scan, Batch.ofOutcomes, List.filterMap_map]
  rfl

/-- The scan has the errors of all others, in their order. -/
theorem errors_scan (d : Disk) (config : Config) (paths : List Path) :
    (d.scan config paths).errors.map FileError.error = paths.filterMap (d.failure? config) := by
  simp only [scan, Batch.ofOutcomes, List.filterMap_map, List.map_filterMap]
  congr 1
  funext path
  simp only [Function.comp_apply, failure?]
  cases d.extract config path <;> rfl

/-- **The text of a run**: what the files of the expansion that can be scanned are rendered to. -/
def outputText (d : Disk) (config : Config) (o : Options) : String :=
  render ((d.expansion config o).filterMap fun path => (d.extract config path).toOption)
    (!o.unsorted) o.format

/-- Without a configuration there is no run. -/
theorem run_of_load_eq_error {home : Option Path} {e : Error}
    (hload : Config.load d home o.config = .error e) : d.run home o = (d, .failed e) := by
  simp only [run, hload]

/-- A directory among the paths ends a run that is not recursive before anything is scanned. -/
theorem run_of_find?_isDir {home : Option Path} (hload : Config.load d home o.config = .ok config)
    (hrec : o.recursive = false) (hfind : o.paths.find? d.isDir = some path) :
    d.run home o = (d, .failed (.isDirectory path.display)) := by
  simp only [run, hload, expand_eq_error hrec hfind]

/-- In every other case the expansion is scanned, and the scan is put out. -/
theorem run_eq_finish {home : Option Path} (hload : Config.load d home o.config = .ok config)
    (h : d.Expands o) :
    d.run home o = d.finish o (d.scan config (d.expansion config o)) := by
  simp only [run, hload, expand_eq_ok h]

/-- Without an output file the text goes to the standard output. -/
theorem finish_of_output_eq_none (h : o.output = none) (config : Config) :
    d.finish o (d.scan config (d.expansion config o)) =
      (d, .done (d.outputText config o)
        ((d.expansion config o).filterMap (d.failure? config))) := by
  simp only [finish, h, files_scan, errors_scan, outputText]

/-- An output file that can be written takes the text, and nothing is printed. -/
theorem finish_of_target_eq_ok {out : Path} {place : List Bytes} (h : o.output = some out)
    (htarget : d.target out = .ok place) (config : Config) :
    d.finish o (d.scan config (d.expansion config o)) =
      (d.put place (.file (Utf8.encode (d.outputText config o))),
        .done "" ((d.expansion config o).filterMap (d.failure? config))) := by
  have hwrite : ∀ content, d.write out content = .ok (d.put place (.file content)) := fun content =>
    write_eq_ok_iff.mpr ⟨place, htarget, rfl⟩
  simp only [finish, h, files_scan, errors_scan, outputText, hwrite]

/-- An output file that cannot be written is all that is reported. -/
theorem finish_of_target_eq_error {out : Path} {refusal : Refusal} (h : o.output = some out)
    (htarget : d.target out = .error refusal) (batch : Batch) :
    d.finish o batch = (d, .failed (.output (out.display ++ ": " ++ refusal.message))) := by
  simp only [finish, h, write, htarget]
  rfl

/-- **The outcome of a run.** A configuration that cannot be loaded, or else the first directory
among the paths of a run that is not recursive, stops it. Otherwise the text of the run is printed,
or written to the output file and nowhere else, and the files that could not be scanned are listed
in their order; only if the output file cannot be written does this stop the run instead. -/
theorem run_outcome (d : Disk) (home : Option Path) (o : Options) :
    match Config.load d home o.config with
    | .error e => Report.Stops d e (d.run home o)
    | .ok config =>
      match o.recursive, o.paths.find? d.isDir with
      | false, some path => Report.Stops d (.isDirectory path.display) (d.run home o)
      | _, _ =>
        match o.output with
        | none =>
          (d.run home o).1 = d ∧ (d.run home o).2.stdout = d.outputText config o ∧
            (d.run home o).2.Lists ((d.expansion config o).filterMap (d.failure? config))
        | some out =>
          match d.target out with
          | .error refusal =>
            Report.Stops d (.output (out.display ++ ": " ++ refusal.message)) (d.run home o) ∧
              (d.run home o).2.exitCode = 1
          | .ok place =>
            d.WritesAt place (Utf8.encode (d.outputText config o)) (d.run home o).1 ∧
              (d.run home o).1.read out = .ok (Utf8.encode (d.outputText config o)) ∧
              (d.run home o).2.stdout = "" ∧
              (d.run home o).2.Lists ((d.expansion config o).filterMap (d.failure? config)) := by
  split
  · next e hload =>
    rw [run_of_load_eq_error hload]
    exact Report.stops_failed d e
  · next config hload =>
    split
    · next path hrec hfind =>
      rw [run_of_find?_isDir hload hrec hfind]
      exact Report.stops_failed d _
    · next hother =>
      -- from here on errors are listed, and only the output file can still stop the run
      have hexpands : d.Expands o := (expands_or_exists_find? d o).resolve_right
        fun ⟨hrec, path, hfind⟩ => hother path hrec hfind
      rw [run_eq_finish hload hexpands]
      split
      · next hout =>
        rw [finish_of_output_eq_none hout]
        exact ⟨rfl, rfl, Report.lists_done _ _⟩
      · next out hout =>
        split
        · next refusal htarget =>
          rw [finish_of_target_eq_error hout htarget]
          exact ⟨Report.stops_failed d _, rfl⟩
        · next place htarget =>
          obtain ⟨hlead, hplace, -⟩ := target_eq_ok_iff.mp htarget
          have hwrites := writesAt_put htarget (Utf8.encode (d.outputText config o))
          rw [finish_of_target_eq_ok hout htarget]
          exact ⟨hwrites, hwrites.read_eq hplace hlead, rfl, Report.lists_done _ _⟩

end Disk

end ScriptTags
