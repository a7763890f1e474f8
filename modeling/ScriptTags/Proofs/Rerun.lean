import ScriptTags.Proofs.Outcome
import ScriptTags.Proofs.WalkOrder

/-!
# Running twice

The output file of a run may lie in the tree that the run scans, so the second run meets it. It
changes nothing there (`Disk.run_run`), for three reasons.

* **It is no script.** The file name is not routed, and no text of any format opens with `#!`
  (`Config.noScript_render`). So a walk leaves the file out and a scan refuses it, as both did when
  there was no such file; only the error of the scan differs.
* **It hides nothing.** Every other path leads to what it led to (`Disk.AddsAt`), and the
  configuration is looked up elsewhere.
* **It is written as it is**, which leaves the disk as it is.
-/

namespace ScriptTags

open CommandLine (Options)

/-! ### What is written is no script -/

/-- **No rendered text starts a comment**: a tag file starts with `!`, JSON with `[`, and TOON with
`f`. -/
theorem head?_encode_render (files : List TagFile) (sorted : Bool) (format : Format) :
    (Utf8.encode (render files sorted format)).head? ≠ some Byte.hash := by
  cases format with
  | ctags =>
    have hfirst : (Utf8.encode (render files sorted .ctags)).head? = some 0x21 := by
      rw [Utf8.encode, render, Ctags.text, String.toList_ofList]
      rfl
    rw [hfirst]
    decide
  | json =>
    have hfirst : (Utf8.encode (render files sorted .json)).head? = some 0x5B := by
      rw [Utf8.encode, render, JsonText.text, String.toList_ofList, JsonText.array, JsonText.block]
      split <;> rfl
    rw [hfirst]
    decide
  | toon =>
    have hfirst : (Utf8.encode (render files sorted .toon)).head? = some 0x66 := by
      rw [Utf8.encode, render, Toon.text, String.toList_ofList, Toon.lines]
      cases files.flatMap Toon.fileLines <;> rfl
    rw [hfirst]
    decide

theorem Language.ofShebang?_eq_none_of_head? {line : Bytes} (h : line.head? ≠ some Byte.hash) :
    ofShebang? line = none := by
  rw [ofShebang?, if_neg]
  rw [List.isPrefixOf_iff_prefix]
  rintro ⟨rest, rfl⟩
  exact h rfl

theorem Script.head?_firstLine_ne {content : Bytes} {b : Byte} (h : content.head? ≠ some b) :
    (firstLine content).head? ≠ some b := by
  cases content with
  | nil => exact h
  | cons first content =>
    rw [firstLine, List.takeWhile_cons]
    split
    · exact h
    · simp

namespace Config

variable {config : Config} {path : Path}

/-- **The content is no script** under a file name, in whatever directory. -/
def NoScript (config : Config) (name : Option Bytes) (content : Bytes) : Prop :=
  ∀ path : Path, path.fileName? = name → config.isScript path content = false

/-- **What is written is no script**, under any name that is not routed. -/
theorem noScript_render (h : config.languageOf? path = none) (files : List TagFile) (sorted : Bool)
    (format : Format) :
    config.NoScript path.fileName? (Utf8.encode (render files sorted format)) := by
  intro other hother
  have hline := Language.ofShebang?_eq_none_of_head?
    (Script.head?_firstLine_ne (head?_encode_render files sorted format))
  rw [isScript, languageOf?_congr config hother, h, Language.ofShebang?_firstLineEnded, hline]
  rfl

/-! ### The configuration is looked up elsewhere -/

/-- The files in which a run **looks for its configuration**: the explicit one, or else the
candidates up to the first that is there. -/
def lookedUp (d : Disk) (home explicit : Option Path) : List Path :=
  match explicit with
  | some path => [path]
  | none =>
    let files := candidates d.cwdPath (home.map fun dir => dir.join userDirectory)
    files.take (files.findIdx d.isFile + 1)

end Config

/-- A search looks at nothing behind what it finds. -/
theorem find?_congr_of_take {α : Type} {p q : α → Bool} {l : List α}
    (h : ∀ a ∈ l.take (l.findIdx p + 1), p a = q a) : l.find? p = l.find? q := by
  induction l with
  | nil => rfl
  | cons a l ih =>
    rw [List.findIdx_cons] at h
    cases ha : p a with
    | true =>
      have hq : q a = true := by rw [← h a (by simp [ha]), ha]
      rw [List.find?_cons, List.find?_cons, ha, hq]
    | false =>
      simp only [ha, cond_false, List.take_succ_cons, List.forall_mem_cons] at h
      rw [List.find?_cons, List.find?_cons, ha, ← h.1, ih h.2]

namespace Disk

variable {d d' : Disk} {config : Config} {o : Options} {place : List Bytes} {content : Bytes}
  {p q dir : Path} {limit : UInt64} {home explicit : Option Path}

theorem isFile_iff : d.isFile q = true ↔ ∃ found, d.resolve q = .ok (.file found) := by
  rw [isFile]
  cases d.resolve q with
  | error refusal => simp
  | ok node => cases node <;> simp

/-- A file on the disk is extracted when its path leads to it and it can be routed. -/
theorem toOption_extract_eq_some_iff {file : TagFile} :
    (d.extract config q).toOption = some file ↔
      ∃ found, d.resolve q = .ok (.file found) ∧ ScriptTags.extract config q found = .ok file := by
  rw [Disk.extract]
  cases d.resolve q with
  | error refusal => simp [Except.toOption]
  | ok node =>
    cases node with
    | dir inner => simp [Except.toOption]
    | file found =>
      simp only [Except.ok.injEq, Node.file.injEq, exists_eq_left']
      cases ScriptTags.extract config q found <;> simp [Except.toOption]

/-- A path that does not exist, but leads somewhere, leads to where nothing is. -/
theorem LeadsTo.seen?_eq_none (h : d.LeadsTo p place) (hp : d.pathExists p = false) :
    d.seen? place = none := by
  rw [seen?_eq_none_iff, Option.eq_none_iff_forall_ne_some]
  intro node hnode
  rw [pathExists, resolve_eq_ok_iff_leadsTo.mpr ⟨place, h, hnode⟩] at hp
  contradiction

/-- **Two paths of one place**, however they are spelled. -/
def SamePlace (d : Disk) (p q : Path) : Prop :=
  ∃ place, d.LeadsTo p place ∧ d.LeadsTo q place

/-- **The disk `d'` is `d` with one file more**: the file is written where nothing was. -/
structure AddsAt (d : Disk) (place : List Bytes) (content : Bytes) (d' : Disk) : Prop
    extends d.WritesAt place content d' where
  fresh : d.seen? place = none

namespace AddsAt

variable (h : d.AddsAt place content d')

include h

theorem not_directory : d.seen? place ≠ some .directory := by
  rw [h.fresh]
  simp

theorem not_resolve_file {found : Bytes} (hq : d.LeadsTo q place) :
    d.resolve q ≠ .ok (.file found) := by
  rw [ne_eq, hq.resolve_eq_file_iff, h.fresh]
  simp

theorem isFile_eq (hq : ¬ d.LeadsTo q place) : d.isFile q = d'.isFile q := by
  rw [Bool.eq_iff_iff, isFile_iff, isFile_iff]
  exact exists_congr fun found => h.resolve_eq_file_iff h.not_directory hq

/-- A file that is read was there before, so it is not the one that is added. -/
theorem ofFile_eq (hfile : d.isFile q = true) : Config.ofFile d q = Config.ofFile d' q := by
  obtain ⟨found, hres⟩ := isFile_iff.mp hfile
  have hq : ¬ d.LeadsTo q place := fun hlead => h.not_resolve_file hlead hres
  have hres' := (h.resolve_eq_file_iff h.not_directory hq).mp hres
  rw [Config.ofFile, Config.ofFile, read, read, hres, hres']

/-- **A file that is not looked up does not change the configuration.** -/
theorem load_eq (hlook : ∀ path ∈ Config.lookedUp d home explicit, ¬ d.LeadsTo path place) :
    Config.load d home explicit = Config.load d' home explicit := by
  have hcwd : d'.cwdPath = d.cwdPath := by rw [cwdPath, cwdPath, h.cwd_eq]
  rw [Config.load, Config.load, hcwd]
  cases explicit with
  | some path =>
    have hpath := hlook path (by simp [Config.lookedUp])
    simp only [Config.lookup, ← h.isFile_eq hpath]
    split
    · next hfile => exact h.ofFile_eq hfile
    · rfl
  | none =>
    have hfind := find?_congr_of_take (p := d.isFile) (q := d'.isFile)
      fun path hpath => h.isFile_eq (hlook path hpath)
    simp only [Config.lookup, ← hfind]
    split
    · next path hfound => exact h.ofFile_eq (List.find?_some hfound)
    · rfl

/-! ### Nothing else is found -/

/-- **A walk finds the same scripts as before.** -/
theorem collect_eq (hroot : d.root.WellFormed) (hroot' : d'.root.WellFormed)
    (hscript : config.NoScript place.getLast? content) :
    d.collect config dir limit = d'.collect config dir limit := by
  refine collect_eq_of_mem_iff hroot hroot' fun path => ?_
  rw [mem_collect_iff_seen hroot, mem_collect_iff_seen hroot']
  refine exists_congr fun start => exists_congr fun names => exists_congr fun found => ?_
  rw [← h.leadsTo_iff h.not_directory, ← h.seen?_eq_directory_iff h.not_directory]
  refine and_congr_right fun hlead => and_congr_right fun hdir => ?_
  by_cases hne : start ++ names = place
  · -- the file was not there before, and is no script now
    refine iff_of_false (by simp [hne, h.fresh]) ?_
    rintro ⟨hseen, -, -, rfl, -, hfound⟩
    rw [hne, h.seen?_self] at hseen
    obtain rfl : content = found := by simpa using hseen
    have hnames : names ≠ [] := by
      rintro rfl
      rw [List.append_nil] at hne
      exact h.not_directory (hne ▸ hdir)
    have hproper := (hroot'.of_get? (seen?_eq_file_iff.mp h.seen?_self)).1
    have hlast : (dir.joinAll names).fileName? = place.getLast? := by
      rw [← hne, List.getLast?_append_of_ne_nil _ hnames]
      refine Path.fileName?_joinAll (fun name hname => hproper name ?_) hnames dir
      exact hne ▸ List.mem_append_right start hname
    rw [hscript _ hlast] at hfound
    contradiction
  · rw [h.seen?_of_ne _ hne]

/-- **A scan succeeds on the same files as before**, with the same tags. -/
theorem toOption_extract_eq (hscript : config.NoScript place.getLast? content) (q : Path) :
    (d.extract config q).toOption = (d'.extract config q).toOption := by
  refine Option.ext fun file => ?_
  rw [toOption_extract_eq_some_iff, toOption_extract_eq_some_iff]
  by_cases hq : d.LeadsTo q place
  · -- there was no file to scan, and the one that is there now is refused
    have hname : q.fileName? = place.getLast? := hq.fileName? h.not_directory
    have hq' : d'.LeadsTo q place := (h.leadsTo_iff h.not_directory).mp hq
    refine iff_of_false ?_ ?_
    · rintro ⟨found, hres, -⟩
      exact h.not_resolve_file hq hres
    · rintro ⟨found, hres, hfile⟩
      rw [hq'.resolve_eq_file_iff, h.seen?_self] at hres
      obtain rfl : content = found := by simpa using hres
      obtain ⟨language, hroute, -⟩ := extract_eq_ok_iff.mp hfile
      have hyes := Config.isScript_iff_route.mpr ⟨language, hroute⟩
      rw [hscript q hname] at hyes
      contradiction
  · simp only [h.resolve_eq_file_iff h.not_directory hq]

theorem expands_iff : d.Expands o ↔ d'.Expands o := by
  simp only [Expands, h.isDir_eq h.not_directory]

/-- The place that the file is written to is the same once it is there. -/
theorem target_eq (hp : d.target p = .ok place) : d'.target p = .ok place := by
  obtain ⟨hlead, -, -⟩ := target_eq_ok_iff.mp hp
  refine target_eq_ok_iff.mpr ⟨(h.leadsTo_iff h.not_directory).mp hlead, ?_, ?_⟩ <;>
    simp [h.seen?_self]

/-- **The text of a run is the same.** -/
theorem outputText_eq (hroot : d.root.WellFormed) (hroot' : d'.root.WellFormed)
    (hscript : config.NoScript place.getLast? content) (o : Options) :
    d.outputText config o = d'.outputText config o := by
  have hstands : d.standsFor config o = d'.standsFor config o := by
    funext path
    rw [standsFor, standsFor, h.isDir_eq h.not_directory, h.collect_eq hroot hroot' hscript]
  rw [outputText, outputText, expansion, expansion, hstands]
  simp only [h.toOption_extract_eq hscript]

end AddsAt

/-! ### The second run -/

/-- **What a run with an output file does to the disk**: nothing, or it puts the text of the run
where the path of that file leads. -/
theorem run_disk (d : Disk) (home : Option Path) {out : Path} (hout : o.output = some out) :
    (d.run home o).1 = d ∨
      ∃ config place, Config.load d home o.config = .ok config ∧ d.Expands o ∧
        d.target out = .ok place ∧
        (d.run home o).1 = d.put place (.file (Utf8.encode (d.outputText config o))) := by
  cases hload : Config.load d home o.config with
  | error e => exact .inl (by rw [run_of_load_eq_error hload])
  | ok config =>
    rcases expands_or_exists_find? d o with hexpands | ⟨hrec, path, hfind⟩
    · rw [run_eq_finish hload hexpands]
      cases htarget : d.target out with
      | error refusal => exact .inl (by rw [finish_of_target_eq_error hout htarget])
      | ok place =>
        exact .inr ⟨config, place, rfl, hexpands, rfl, by rw [finish_of_target_eq_ok hout htarget]⟩
    · exact .inl (by rw [run_of_find?_isDir hload hrec hfind])

/-- **Running again changes nothing.** Let the output file of a run not be there yet, have a name
that is not routed, and be none of the files in which the configuration is looked up. Then a second
run, which may well meet the file, leaves the whole disk as the first run has left it. -/
theorem run_run (hroot : d.root.WellFormed) {out : Path} (hout : o.output = some out)
    (hnew : d.pathExists out = false)
    (hlook : ∀ path ∈ Config.lookedUp d home o.config, ¬ d.SamePlace path out)
    (hname : ∀ config, Config.load d home o.config = .ok config → config.languageOf? out = none) :
    ((d.run home o).1.run home o).1 = (d.run home o).1 := by
  rcases run_disk d home hout with hsame | ⟨config, place, hload, hexpands, htarget, hrun⟩
  · rw [hsame, hsame]
  · obtain ⟨hlead, hdir, -⟩ := target_eq_ok_iff.mp htarget
    have hadds : d.AddsAt place (Utf8.encode (d.outputText config o)) (d.run home o).1 :=
      ⟨hrun ▸ writesAt_put htarget _, hlead.seen?_eq_none hnew⟩
    have hroot' : (d.run home o).1.root.WellFormed := hrun ▸ wellFormed_put hroot htarget _
    have hscript : config.NoScript place.getLast? (Utf8.encode (d.outputText config o)) :=
      hlead.fileName? hdir ▸ Config.noScript_render (hname config hload) _ _ _
    -- every stage of the second run finds what the first has found
    have hload' : Config.load (d.run home o).1 home o.config = .ok config := by
      rw [← hload]
      exact (hadds.load_eq fun path hpath hleads => hlook path hpath ⟨place, hleads, hlead⟩).symm
    have hexpands' := hadds.expands_iff.mp hexpands
    have htarget' := hadds.target_eq htarget
    have htext := hadds.outputText_eq hroot hroot' hscript o
    rw [run_eq_finish hload' hexpands', finish_of_target_eq_ok hout htarget', ← htext]
    exact put_eq_self hadds.seen?_self

/-- A disk with a directory `d`, in which a script `run` lies. -/
def oneCommand : Disk :=
  { root := .dir (Bytes.ofAscii "d")
      (.file (Bytes.ofAscii "run") (Bytes.ofAscii "#!/bin/sh\nf()\n") .nil) .nil }

/-- The options of a run that writes its tags into the directory it walks, and scans them too. -/
def tagsInside : Options :=
  { paths := [⟨Bytes.ofAscii "d"⟩, ⟨Bytes.ofAscii "d/tags"⟩], recursive := true
    output := some ⟨Bytes.ofAscii "d/tags"⟩ }

theorem run_run_tagsInside :
    oneCommand.root.WellFormed ∧ oneCommand.pathExists ⟨Bytes.ofAscii "d/tags"⟩ = false ∧
    (oneCommand.run none tagsInside).1.isFile ⟨Bytes.ofAscii "d/tags"⟩ = true ∧
    ((oneCommand.run none tagsInside).1.run none tagsInside).1 =
      (oneCommand.run none tagsInside).1 := by
  have hroot : oneCommand.root.WellFormed := by decide
  have hnew : oneCommand.pathExists ⟨Bytes.ofAscii "d/tags"⟩ = false := by decide +kernel
  have hload : Config.load oneCommand none tagsInside.config = .ok {} := rfl
  have hlook : ∀ path ∈ Config.lookedUp oneCommand none tagsInside.config,
      ¬ oneCommand.SamePlace path ⟨Bytes.ofAscii "d/tags"⟩ := by
    have honly : Config.lookedUp oneCommand none tagsInside.config =
        [⟨Bytes.ofAscii "/.shtags.toml"⟩] := by decide +kernel
    have hconfig : oneCommand.LeadsTo ⟨Bytes.ofAscii "/.shtags.toml"⟩
        [Bytes.ofAscii ".shtags.toml"] := ⟨rfl, rfl⟩
    have htags : oneCommand.LeadsTo ⟨Bytes.ofAscii "d/tags"⟩
        [Bytes.ofAscii "d", Bytes.ofAscii "tags"] := ⟨rfl, rfl⟩
    rw [honly, List.forall_mem_singleton]
    rintro ⟨place, hpath, hout⟩
    have hsame := (hconfig.unique hpath).trans (hout.unique htags)
    exact absurd hsame (by decide)
  refine ⟨hroot, hnew, by decide +kernel, run_run hroot rfl hnew hlook fun config hconfig => ?_⟩
  obtain rfl := Except.ok.inj (hload.symm.trans hconfig)
  decide +kernel

end Disk

end ScriptTags
