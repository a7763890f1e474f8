import ScriptTags.Proofs.Outcome

/-!
# Scanning by many workers

The files of a batch are scanned by **workers** that run side by side. Every path has a slot, a
worker that is done with a path fills its slot, and when all slots are filled they are read off in
the order of the paths. In which order the workers are done is left open, and it does not matter:
one step fills one slot and leaves the others alone (`Disk.getElem?_fill`), so at any time the slots
that are filled hold the outcomes of their own paths (`Disk.getElem?_fillAll`), whoever filled them
and when.

The batch is therefore the one that a single worker makes by going through the paths and recording
each outcome behind the others (`Disk.scan_eq_foldl_record`). `Disk.scanInOrder_eq_scan` puts this
together with what a batch keeps of its paths.
-/

namespace ScriptTags

/-- What came of scanning a path. -/
abbrev ScanOutcome := Path × Except Error TagFile

/-- The **slots** of a batch, one for each path, empty until a worker is done with it. -/
abbrev Slots := List (Option ScanOutcome)

/-- **Records** an outcome behind those that a batch has. -/
def Batch.record (batch : Batch) (outcome : ScanOutcome) : Batch :=
  match outcome.2 with
  | .ok file => { batch with files := batch.files ++ [file] }
  | .error e => { batch with errors := batch.errors ++ [⟨outcome.1, e⟩] }

/-- Recording outcomes one by one splits them into results and errors. -/
theorem Batch.foldl_record (batch : Batch) (outcomes : List ScanOutcome) :
    outcomes.foldl record batch =
      ⟨batch.files ++ (ofOutcomes outcomes).files,
        batch.errors ++ (ofOutcomes outcomes).errors⟩ := by
  induction outcomes generalizing batch with
  | nil => simp [ofOutcomes]
  | cons outcome outcomes ih =>
    obtain ⟨path, result⟩ := outcome
    rw [List.foldl_cons, ih]
    cases result <;> simp [record, ofOutcomes, Except.toOption]

/-- No error leaves the run with the exit code of success. -/
theorem Error.exitCode_ne_zero (e : Error) : e.exitCode ≠ 0 := by
  cases e <;> simp [exitCode]

namespace Disk

variable (d : Disk) (config : Config) (paths : List Path)

/-! ### Workers -/

/-- What comes of scanning a path on this disk. -/
def outcome (path : Path) : ScanOutcome :=
  (path, d.extract config path)

/-- A worker is done with the path that has the number `i`, and **fills** its slot. -/
def fill (slots : Slots) (i : Nat) : Slots :=
  match paths[i]? with
  | some path => slots.set i (some (d.outcome config path))
  | none => slots

/-- The slots after workers were done with these numbers, one after the other. -/
def fillAll (order : List Nat) : Slots :=
  order.foldl (d.fill config paths) (List.replicate paths.length none)

/-- The batch of workers that are done **in this order**. There is none while a slot is empty. -/
def scanInOrder (order : List Nat) : Option Batch :=
  ((d.fillAll config paths order).mapM id).map Batch.ofOutcomes

variable {d config paths}

theorem length_fill (slots : Slots) (i : Nat) :
    (d.fill config paths slots i).length = slots.length := by
  rw [fill]
  split
  · exact List.length_set
  · rfl

/-- **A step** fills the slot of its own number and leaves the others alone. -/
theorem getElem?_fill {slots : Slots} (hslots : slots.length = paths.length) (i j : Nat) :
    (d.fill config paths slots i)[j]? =
      if i = j then paths[j]?.map fun path => some (d.outcome config path) else slots[j]? := by
  rw [fill]
  split
  · next path hpath =>
    have hi : i < slots.length := hslots ▸ (List.getElem?_eq_some_iff.mp hpath).1
    rw [List.getElem?_set, if_pos hi]
    split
    · next hij => rw [← hij, hpath, Option.map_some]
    · rfl
  · next hnone =>
    split
    · next hij =>
      -- a number that no path has is not the number of a slot either
      have hout : slots[j]? = none := by
        rw [List.getElem?_eq_none_iff, hslots, ← List.getElem?_eq_none_iff, ← hij]
        exact hnone
      rw [hout, ← hij, hnone, Option.map_none]
    · rfl

/-- After workers are done, the slots of their files hold the outcomes, and no other slot has
changed. -/
theorem getElem?_foldl_fill {slots : Slots} (hslots : slots.length = paths.length)
    (order : List Nat) (j : Nat) :
    (order.foldl (d.fill config paths) slots)[j]? =
      if j ∈ order then paths[j]?.map fun path => some (d.outcome config path)
      else slots[j]? := by
  induction order generalizing slots with
  | nil => simp
  | cons i order ih =>
    have hlength : (d.fill config paths slots i).length = paths.length :=
      (length_fill slots i).trans hslots
    rw [List.foldl_cons, ih hlength, getElem?_fill hslots]
    by_cases hmem : j ∈ order
    · rw [if_pos hmem, if_pos (List.mem_cons_of_mem i hmem)]
    · rw [if_neg hmem]
      simp only [List.mem_cons, hmem, or_false, eq_comm]

/-- **At any time** the slots of the paths that workers are done with hold the outcomes of these
paths, and the others are empty. -/
theorem getElem?_fillAll {order : List Nat} {j : Nat} {path : Path}
    (hpath : paths[j]? = some path) :
    (d.fillAll config paths order)[j]? =
      some (if j ∈ order then some (d.outcome config path) else none) := by
  have hj : j < paths.length := (List.getElem?_eq_some_iff.mp hpath).1
  rw [fillAll, getElem?_foldl_fill List.length_replicate, hpath, Option.map_some,
    List.getElem?_replicate_of_lt hj]
  split <;> rfl

theorem length_fillAll (order : List Nat) :
    (d.fillAll config paths order).length = paths.length := by
  have hfold : ∀ slots : Slots,
      (order.foldl (d.fill config paths) slots).length = slots.length := by
    intro slots
    induction order generalizing slots with
    | nil => rfl
    | cons i order ih => rw [List.foldl_cons, ih, length_fill]
  rw [fillAll, hfold, List.length_replicate]

/-- **When all workers are done**, every slot holds the outcome of its path. -/
theorem fillAll_eq_map {order : List Nat} (h : order.Perm (List.range paths.length)) :
    d.fillAll config paths order = paths.map fun path => some (d.outcome config path) := by
  refine List.ext_getElem? fun j => ?_
  rw [List.getElem?_map]
  cases hpath : paths[j]? with
  | none =>
    rw [List.getElem?_eq_none_iff] at hpath
    rw [Option.map_none, List.getElem?_eq_none_iff, length_fillAll]
    exact hpath
  | some path =>
    have hj : j ∈ order := by
      rw [h.mem_iff, List.mem_range]
      exact (List.getElem?_eq_some_iff.mp hpath).1
    rw [getElem?_fillAll hpath, if_pos hj, Option.map_some]

/-- In whatever order the workers finish, the scan is the same. -/
theorem scanInOrder_eq {order : List Nat} (h : order.Perm (List.range paths.length)) :
    d.scanInOrder config paths order = some (d.scan config paths) := by
  rw [scanInOrder, fillAll_eq_map h, List.mapM_map]
  have hall : paths.mapM (id ∘ fun path => some (d.outcome config path)) =
      some (paths.map (d.outcome config)) := List.mapM_pure
  rw [hall]
  rfl

/-! ### What a batch keeps of its paths -/

/-- **One worker** makes the same batch, path by path. -/
theorem scan_eq_foldl_record (d : Disk) (config : Config) (paths : List Path) :
    d.scan config paths =
      paths.foldl (fun batch path => batch.record (d.outcome config path)) {} := by
  rw [← List.foldl_map, Batch.foldl_record]
  rfl

/-- The scan of two lists of paths is that of one after that of the other. -/
theorem scan_append (d : Disk) (config : Config) (paths more : List Path) :
    d.scan config (paths ++ more) =
      ⟨(d.scan config paths).files ++ (d.scan config more).files,
        (d.scan config paths).errors ++ (d.scan config more).errors⟩ := by
  simp only [scan, Batch.ofOutcomes, List.map_append, List.filterMap_append]

/-- Every path is among the results or among the errors. -/
theorem length_files_add_length_errors (d : Disk) (config : Config) (paths : List Path) :
    (d.scan config paths).files.length + (d.scan config paths).errors.length = paths.length := by
  induction paths with
  | nil => rfl
  | cons path paths ih =>
    have hcons := scan_append d config [path] paths
    rw [List.singleton_append] at hcons
    have hone : (d.scan config [path]).files.length + (d.scan config [path]).errors.length = 1 := by
      cases hpath : d.extract config path <;> simp [scan, Batch.ofOutcomes, hpath, Except.toOption]
    rw [hcons, List.length_append, List.length_append, List.length_cons]
    omega

theorem files_scan_of_failing {failing : List Path}
    (h : ∀ path ∈ failing, ∃ e, d.extract config path = .error e) :
    (d.scan config failing).files = [] := by
  rw [files_scan, List.filterMap_eq_nil_iff]
  intro path hpath
  obtain ⟨e, he⟩ := h path hpath
  rw [he]
  rfl

theorem errors_scan_eq (d : Disk) (config : Config) (paths : List Path) :
    (d.scan config paths).errors =
      paths.filterMap fun path => (d.failure? config path).map (FileError.mk path) := by
  simp only [scan, Batch.ofOutcomes, List.filterMap_map]
  congr 1
  funext path
  simp only [Function.comp_apply, failure?]
  cases d.extract config path <;> rfl

/-- **Workers that are done in any order make the batch of one worker.** Its files are those of the
paths that can be scanned, and its errors, with their messages and exit codes, those of the others,
both in the order of the paths; each path is counted once, and no exit code is zero. Batches of
paths one after the other are appended, and paths that fail, wherever they stand, change no file. -/
theorem scanInOrder_eq_scan (d : Disk) (config : Config) (paths : List Path) (order : List Nat)
    (horder : order.Perm (List.range paths.length)) :
    d.scanInOrder config paths order = some (d.scan config paths) ∧
    d.scan config paths =
      paths.foldl (fun batch path => batch.record (path, d.extract config path)) {} ∧
    (d.scan config paths).files =
      (paths.filterMap fun path => (d.extract config path).toOption) ∧
    ((d.scan config paths).errors.map fun e => (e.path, e.error.message, e.error.exitCode)) =
      (paths.filterMap fun path =>
        (d.failure? config path).map fun e => (path, e.message, e.exitCode)) ∧
    (d.scan config paths).files.length + (d.scan config paths).errors.length = paths.length ∧
    (∀ e ∈ (d.scan config paths).errors, e.error.exitCode ≠ 0) ∧
    (∀ more, d.scan config (paths ++ more) =
      ⟨(d.scan config paths).files ++ (d.scan config more).files,
        (d.scan config paths).errors ++ (d.scan config more).errors⟩) ∧
    (∀ before failing after, (∀ path ∈ failing, ∃ e, d.extract config path = .error e) →
      (d.scan config (before ++ failing ++ after)).files =
        (d.scan config (before ++ after)).files) := by
  refine ⟨scanInOrder_eq horder, scan_eq_foldl_record d config paths, files_scan d config paths, ?_,
    length_files_add_length_errors d config paths, fun e _ => e.error.exitCode_ne_zero,
    scan_append d config paths, ?_⟩
  · rw [errors_scan_eq, List.map_filterMap]
    simp only [Option.map_map, Function.comp_def]
  · intro before failing after hfailing
    simp only [scan_append, files_scan_of_failing hfailing, List.append_nil]

/-- A disk with a script `run` and a text `n.txt`. -/
def runAndText : Disk :=
  { root := .file (Bytes.ofAscii "run") (Bytes.ofAscii "#!/bin/sh\nf()\n")
      (.file (Bytes.ofAscii "n.txt") (Bytes.ofAscii "f()\n") .nil) }

/-- Four workers, of whom the last is done first; one path leads nowhere, and one is given twice. -/
theorem scanInOrder_eq_scan_runAndText :
    let paths := ["run", "gone", "n.txt", "run"].map Path.ofString
    let scanned : TagFile := ⟨"run", "sh", [⟨"f", .function, 2, "f()"⟩]⟩
    [3, 0, 2, 1].Perm (List.range paths.length) ∧
    runAndText.scanInOrder {} paths [3, 0, 2, 1] =
      some ⟨[scanned, scanned],
        [⟨Path.ofString "gone", .fileNotFound "gone"⟩,
          ⟨Path.ofString "n.txt", .unsupportedLanguage "txt"⟩]⟩ := by
  intro paths scanned
  have horder : [3, 0, 2, 1].Perm (List.range paths.length) := by decide
  refine ⟨horder, ?_⟩
  rw [(scanInOrder_eq_scan runAndText {} paths [3, 0, 2, 1] horder).1]
  rfl

end Disk

end ScriptTags
