import ScriptTags.Disk.Batch
import ScriptTags.Proofs.Extraction
import ScriptTags.Proofs.Resolution
import ScriptTags.Proofs.Routing

/-!
# What a walk collects

A walk goes through listings, keeps a count of the levels that it has come down, and joins names to
paths as it goes. Its result has a description without any of this: a file belongs to a walk when
**names lead to it** that are not too many and not skipped (`Listing.Reaches`), and the walk
collects such a file exactly when its path can be followed and it is a script
(`Listing.mem_scripts_iff`, `Disk.mem_collect_iff`). The count that the walk keeps as it comes down
agrees with the levels that are left to it, since a path that can be followed has fewer pieces than
a word can count (`Listing.walk_eq`, `Disk.collectFrom_eq_collect`).

With the common notion of a script this gives the agreement of walks and scans
(`Disk.collect_scan_agree`): what is collected can be scanned, and what is left out cannot. The one
file that is left out although it may be a script is one whose path has become **too long to be
followed**, and to the scan such a file is not there.
-/

namespace ScriptTags

/-! ### Entry by entry -/

/-- The scripts that a walk finds at an entry with this path: the entry itself if it is a file, and
those below it if it is a directory. -/
def Node.scripts (config : Config) (path : Path) (levels : Nat) : Node → List Path
  | .file content =>
    if !path.isSkipped && !path.isTooLong && config.isScript path content then [path] else []
  | .dir inner =>
    match levels with
    | 0 => []
    | levels + 1 =>
      if path.isSkipped || path.isTooLong then [] else inner.scripts config path levels

/-- A walk goes through the entries of a listing one by one. -/
theorem Listing.scripts_eq_flatMap (config : Config) (dir : Path) (levels : Nat) (l : Listing) :
    l.scripts config dir levels =
      l.entries.flatMap fun entry => entry.2.scripts config (dir.join ⟨entry.1⟩) levels := by
  induction l with
  | nil => rw [scripts, entries, List.flatMap_nil]
  | file name content rest ih =>
    rw [scripts, entries, List.flatMap_cons, Node.scripts, ← ih]
    dsimp only
    split <;> rfl
  | dir name inner rest _ ih =>
    cases levels <;> rw [scripts, entries, List.flatMap_cons, Node.scripts, ← ih]

namespace Node

variable {config : Config} {path found : Path} {levels : Nat}

theorem mem_scripts_file {content : Bytes} :
    found ∈ (file content).scripts config path levels ↔
      found = path ∧ path.isSkipped = false ∧ path.isTooLong = false ∧
        config.isScript path content = true := by
  rw [scripts]
  split
  · next h =>
    simp only [Bool.and_eq_true, Bool.not_eq_true'] at h
    simp [h]
  · next h =>
    simp only [Bool.and_eq_true, Bool.not_eq_true'] at h
    simp only [List.not_mem_nil, false_iff]
    rintro ⟨-, hskip, hlong, hscript⟩
    exact h ⟨⟨hskip, hlong⟩, hscript⟩

theorem mem_scripts_dir {inner : Listing} :
    found ∈ (dir inner).scripts config path levels ↔
      path.isSkipped = false ∧ path.isTooLong = false ∧
        ∃ below, levels = below + 1 ∧ found ∈ inner.scripts config path below := by
  cases levels with
  | zero => simp [scripts]
  | succ below =>
    rw [scripts]
    cases path.isSkipped <;> cases path.isTooLong <;> simp

end Node

/-! ### What a walk reaches -/

/-- **The file at the end of `names` lies within a walk** that may enter so many levels of
directories below the listing: the names lead to it, and none of them is skipped. -/
structure Listing.Reaches (l : Listing) (levels : Nat) (names : List Bytes) (content : Bytes) :
    Prop where
  get?_eq : (Node.dir l).get? names = some (.file content)
  length_le : names.length ≤ levels + 1
  not_skipped : ∀ name ∈ names, (⟨name⟩ : Path).isSkipped = false

namespace Listing

variable {l inner : Listing} {levels : Nat} {name : Bytes} {names : List Bytes} {content : Bytes}

theorem reaches_file (hfind : l.find? name = some (.file content))
    (hskip : (⟨name⟩ : Path).isSkipped = false) : l.Reaches levels [name] content :=
  ⟨by rw [Node.get?, hfind]; rfl, by simp, by simpa using hskip⟩

theorem Reaches.cons (h : inner.Reaches levels names content)
    (hfind : l.find? name = some (.dir inner)) (hskip : (⟨name⟩ : Path).isSkipped = false) :
    l.Reaches (levels + 1) (name :: names) content :=
  ⟨by rw [Node.get?, hfind]; exact h.get?_eq, Nat.succ_le_succ h.length_le,
    List.forall_mem_cons.mpr ⟨hskip, h.not_skipped⟩⟩

/-- A file that is reached is an entry, or is reached from an entry that is a directory. -/
theorem Reaches.cases (h : l.Reaches levels names content) :
    ∃ name rest, names = name :: rest ∧ (⟨name⟩ : Path).isSkipped = false ∧
      (rest = [] ∧ l.find? name = some (.file content) ∨
        ∃ inner below, l.find? name = some (.dir inner) ∧ levels = below + 1 ∧
          inner.Reaches below rest content) := by
  obtain ⟨hget, hlength, hskip⟩ := h
  cases names with
  | nil => simp [Node.get?] at hget
  | cons name rest =>
    rw [List.forall_mem_cons] at hskip
    rw [Node.get?, Option.bind_eq_some_iff] at hget
    obtain ⟨node, hfind, hnode⟩ := hget
    refine ⟨name, rest, rfl, hskip.1, ?_⟩
    cases rest with
    | nil =>
      obtain rfl := Option.some.inj hnode
      exact .inl ⟨rfl, hfind⟩
    | cons name' rest =>
      cases node with
      | file _ => contradiction
      | dir inner =>
        cases levels with
        | zero => simp at hlength
        | succ below =>
          exact .inr ⟨inner, below, hfind, rfl, hnode, Nat.le_of_succ_le_succ hlength, hskip.2⟩

/-- **What a walk finds**: the files within it that are scripts and whose paths can be followed. -/
theorem mem_scripts_iff {config : Config} {dir path : Path} (hl : l.WellFormed) :
    path ∈ l.scripts config dir levels ↔
      ∃ names content, l.Reaches levels names content ∧ path = dir.joinAll names ∧
        path.isTooLong = false ∧ config.isScript path content = true := by
  -- a walk enters a directory with one level less, so the levels carry the induction; within a
  -- listing there is nothing to induct on, since the entries are walked apart
  induction levels using Nat.strongRecOn generalizing l dir with
  | ind levels ih =>
    simp only [scripts_eq_flatMap, List.mem_flatMap, Prod.exists, mem_entries_iff hl]
    constructor
    · rintro ⟨name, node, hfind, hpath⟩
      obtain ⟨hname, hnode⟩ := hl.of_find? hfind
      cases node with
      | file content =>
        obtain ⟨rfl, hskip, hshort, hscript⟩ := Node.mem_scripts_file.mp hpath
        rw [Path.isSkipped_join hname] at hskip
        exact ⟨[name], content, reaches_file hfind hskip, rfl, hshort, hscript⟩
      | dir inner =>
        obtain ⟨hskip, -, below, rfl, hbelow⟩ := Node.mem_scripts_dir.mp hpath
        rw [Path.isSkipped_join hname] at hskip
        obtain ⟨names, content, hreach, hfound⟩ := (ih below (by omega) hnode).mp hbelow
        exact ⟨name :: names, content, hreach.cons hfind hskip, hfound⟩
    · rintro ⟨names, content, hreach, rfl, hshort, hscript⟩
      have hnames := (hl.of_get? hreach.get?_eq).1
      obtain ⟨name, rest, rfl, hskip, hentry⟩ := hreach.cases
      rw [List.forall_mem_cons] at hnames
      rw [← Path.isSkipped_join hnames.1 dir] at hskip
      rcases hentry with ⟨rfl, hfind⟩ | ⟨inner, below, hfind, rfl, hinner⟩
      · exact ⟨name, _, hfind, Node.mem_scripts_file.mpr ⟨rfl, hskip, hshort, hscript⟩⟩
      · have hwell := (hl.of_find? hfind).2
        refine ⟨name, _, hfind, Node.mem_scripts_dir.mpr
          ⟨hskip, Path.isTooLong_of_joinAll hnames.2 hshort, below, rfl, ?_⟩⟩
        exact (ih below (by omega) hwell).mpr ⟨rest, content, hinner, rfl, hshort, hscript⟩

/-! ### The count of the levels -/

section Walk

variable {config : Config} {limit depth : UInt64} {dir : Path}

/-- **One directory of a walk.** The count goes up by one, and a path that can still be followed
leaves room for that. -/
theorem enter_eq (o : Overflow) (hname : IsEntryName name) (hdepth : depth ≤ limit)
    (hroom : depth.toNat + pathLimit < UInt64.size + dir.bytes.length)
    (hinner : ∀ next : UInt64, next.toNat = depth.toNat + 1 → next ≤ limit →
      inner.walk o config limit (dir.join ⟨name⟩) next =
        .ok (inner.scripts config (dir.join ⟨name⟩) (limit.toNat - next.toNat))) :
    (if (dir.join ⟨name⟩).isSkipped || (dir.join ⟨name⟩).isTooLong then pure []
      else do
        let next ← o.add depth 1
        if limit < next then pure [] else inner.walk o config limit (dir.join ⟨name⟩) next) =
      (.ok (Node.scripts config (dir.join ⟨name⟩) (limit.toNat - depth.toNat) (.dir inner)) :
        Except Panic (List Path)) := by
  cases hpass : (dir.join ⟨name⟩).isSkipped || (dir.join ⟨name⟩).isTooLong with
  | true => cases limit.toNat - depth.toNat <;> simp [Node.scripts, hpass, pure, Except.pure]
  | false =>
    have hlength : (dir.join ⟨name⟩).bytes.length ≤ pathLimit := by
      simpa [Path.isTooLong] using (Bool.or_eq_false_iff.mp hpass).2
    have hlonger := Path.length_lt_length_join hname dir
    have hword : depth.toNat + (1 : UInt64).toNat < UInt64.size := by
      change depth.toNat + 1 < _
      omega
    have hnext : (depth + 1).toNat = depth.toNat + 1 := Overflow.toNat_add_of_lt hword
    rw [UInt64.le_iff_toNat_le] at hdepth
    simp only [o.add_of_lt hword, bind, Except.bind]
    by_cases hlimit : limit < depth + 1
    · have hlevels : limit.toNat - depth.toNat = 0 := by
        rw [UInt64.lt_iff_toNat_lt, hnext] at hlimit
        omega
      simp [hlimit, hlevels, Node.scripts, pure, Except.pure]
    · have hle : depth + 1 ≤ limit := UInt64.not_lt.mp hlimit
      have hlevels : limit.toNat - depth.toNat = limit.toNat - (depth + 1).toNat + 1 := by
        rw [UInt64.le_iff_toNat_le, hnext] at hle
        omega
      rw [hlevels, hinner _ hnext hle]
      simp [hlimit, Node.scripts, hpass]

/-- **A walk** finds the scripts within the levels that its limit leaves it, whatever becomes of
sums that leave the word, if there is room in the word for the levels that a path of the greatest
length leads through. -/
theorem walk_eq (o : Overflow) (hl : l.WellFormed) (hdepth : depth ≤ limit)
    (hroom : depth.toNat + pathLimit < UInt64.size + dir.bytes.length) :
    l.walk o config limit dir depth =
      .ok (l.scripts config dir (limit.toNat - depth.toNat)) := by
  induction l generalizing dir depth with
  | nil => rfl
  | file name content rest ih =>
    obtain ⟨-, -, hrest⟩ := hl
    simp only [walk, scripts, ih hrest hdepth hroom]
    split <;> rfl
  | dir name inner rest ihInner ihRest =>
    obtain ⟨hname, -, hinner, hrest⟩ := hl
    have hbelow := enter_eq o hname hdepth hroom fun next hnext hnextLimit =>
      ihInner hinner hnextLimit (by
        have hlonger := Path.length_lt_length_join hname dir
        omega)
    simp only [walk, ihRest hrest hdepth hroom]
    rw [hbelow]
    cases limit.toNat - depth.toNat <;> rfl

end Walk

end Listing

/-! ### Walks on a disk -/

/-- A batch has no errors exactly when every file could be scanned. -/
theorem Disk.errors_scan_eq_nil_iff {d : Disk} {config : Config} {paths : List Path} :
    (d.scan config paths).errors = [] ↔
      ∀ path ∈ paths, ∃ file, d.extract config path = .ok file := by
  simp only [scan, Batch.ofOutcomes, List.filterMap_eq_nil_iff, List.forall_mem_map]
  refine forall_congr' fun path => imp_congr_right fun _ => ?_
  cases d.extract config path <;> simp

/-- A file is extracted when it can be routed, and else fails as routing does. -/
theorem extract_of_route_error {config : Config} {path : Path} {content : Bytes} {e : Error}
    (h : config.route path content = .error e) : extract config path content = .error e := by
  rw [extract, h]
  rfl

namespace Disk

variable {d : Disk} {config : Config} {dir path : Path} {limit : UInt64} {inner : Listing}
  {names : List Bytes} {content : Bytes}

theorem list_eq_ok_iff : d.list dir = .ok inner ↔ d.resolve dir = .ok (.dir inner) := by
  rw [list]
  cases d.resolve dir with
  | error refusal => simp [bind, Except.bind]
  | ok node =>
    cases node <;>
      simp [bind, Except.bind, pure, Except.pure, throw, throwThe, MonadExceptOf.throw]

/-- **What is collected**: the files within the walk that are scripts and whose paths can be
followed. -/
theorem mem_collect_iff (hroot : d.root.WellFormed) :
    path ∈ d.collect config dir limit ↔
      ∃ inner names content, d.list dir = .ok inner ∧ inner.Reaches limit.toNat names content ∧
        path = dir.joinAll names ∧ path.isTooLong = false ∧
        config.isScript path content = true := by
  rw [collect]
  cases hlist : d.list dir with
  | error refusal => simp
  | ok inner =>
    have hinner : inner.WellFormed := wellFormed_of_resolve hroot (list_eq_ok_iff.mp hlist)
    simp only [Path.sorted, List.mem_mergeSort, Listing.mem_scripts_iff hinner, Except.ok.injEq,
      exists_and_left, exists_eq_left']

/-- **A walk that has come some levels down** collects what one collects that starts there with the
levels that are left, in a program with overflow checks as in one without: the count of its levels
does not leave the word if there is room for those of one path. -/
theorem collectFrom_eq_collect (o : Overflow) {depth : UInt64} (hroot : d.root.WellFormed)
    (hdepth : depth ≤ limit) (hroom : depth.toNat + pathLimit < UInt64.size) :
    d.collectFrom o config dir limit depth = .ok (d.collect config dir (limit - depth)) := by
  rw [collectFrom, if_neg (UInt64.not_lt.mpr hdepth), collect]
  cases hlist : d.list dir with
  | error refusal => rfl
  | ok inner =>
    have hinner : inner.WellFormed := wellFormed_of_resolve hroot (list_eq_ok_iff.mp hlist)
    simp only [Listing.walk_eq o hinner hdepth (Nat.lt_add_right _ hroom),
      UInt64.toNat_sub_of_le _ _ hdepth]
    rfl

/-- A file within a walk is read at its path, unless the path is too long to be followed. -/
theorem resolve_of_reaches (hroot : d.root.WellFormed) (hlist : d.list dir = .ok inner)
    (hreach : inner.Reaches limit.toNat names content)
    (hshort : (dir.joinAll names).isTooLong = false) :
    d.resolve (dir.joinAll names) = .ok (.file content) := by
  have hdir := list_eq_ok_iff.mp hlist
  exact resolve_joinAll (wellFormed_of_resolve hroot hdir) hdir hreach.get?_eq hshort

theorem extract_of_resolve_file (h : d.resolve path = .ok (.file content)) :
    d.extract config path = ScriptTags.extract config path content := by
  rw [Disk.extract, h]

theorem extract_of_isTooLong (h : path.isTooLong = true) :
    d.extract config path = .error (.fileNotFound path.display) := by
  obtain ⟨refusal, hres⟩ := exists_resolve_error_of_isTooLong (d := d) h
  rw [Disk.extract, hres]

/-- A path that is too long is never collected. -/
theorem not_mem_collect_of_isTooLong (hroot : d.root.WellFormed) (h : path.isTooLong = true) :
    path ∉ d.collect config dir limit := by
  intro hmem
  obtain ⟨-, -, -, -, -, -, hshort, -⟩ := (mem_collect_iff hroot).mp hmem
  rw [h] at hshort
  contradiction

/-- What is collected can be scanned. -/
theorem exists_extract_of_mem_collect (hroot : d.root.WellFormed)
    (h : path ∈ d.collect config dir limit) : ∃ file, d.extract config path = .ok file := by
  obtain ⟨inner, names, content, hlist, hreach, rfl, hshort, hscript⟩ :=
    (mem_collect_iff hroot).mp h
  obtain ⟨language, hroute⟩ := Config.isScript_iff_route.mp hscript
  rw [extract_of_resolve_file (resolve_of_reaches hroot hlist hreach hshort)]
  exact ⟨_, extract_eq_ok_iff.mpr ⟨language, hroute, rfl⟩⟩

/-- What is left out is no script, if its path can be followed. -/
theorem exists_extract_error_of_not_mem_collect (hroot : d.root.WellFormed)
    (hlist : d.list dir = .ok inner) (hreach : inner.Reaches limit.toNat names content)
    (hshort : (dir.joinAll names).isTooLong = false)
    (h : dir.joinAll names ∉ d.collect config dir limit) :
    ∃ extension, d.extract config (dir.joinAll names) =
      .error (.unsupportedLanguage extension) := by
  rw [extract_of_resolve_file (resolve_of_reaches hroot hlist hreach hshort)]
  rcases Config.route_eq config (dir.joinAll names) content with
    ⟨hscript, -⟩ | ⟨-, extension, hroute⟩
  · exact absurd ((mem_collect_iff hroot).mpr
      ⟨inner, names, content, hlist, hreach, rfl, hshort, hscript⟩) h
  · exact ⟨extension, extract_of_route_error hroute⟩

/-- **Walks and scans agree.** The walk's test of a file is the scan's; so the files that a walk
collects are all scanned without errors, and a file within the walk that is left out cannot be
scanned: no language is known for it, or its path is too long to be followed and it is not found. -/
theorem collect_scan_agree (hroot : d.root.WellFormed) (config : Config) :
    (∀ (path : Path) (content : Bytes), config.isScript path content = true ↔
      ∃ language, config.route path content = .ok language) ∧
    ∀ (dir : Path) (limit : UInt64),
      (d.scan config (d.collect config dir limit)).errors = [] ∧
      ∀ (inner : Listing) (names : List Bytes) (content : Bytes), d.list dir = .ok inner →
        inner.Reaches limit.toNat names content →
        dir.joinAll names ∉ d.collect config dir limit →
        if (dir.joinAll names).isTooLong then
          d.extract config (dir.joinAll names) =
            .error (.fileNotFound (dir.joinAll names).display)
        else
          ∃ extension, d.extract config (dir.joinAll names) =
            .error (.unsupportedLanguage extension) := by
  refine ⟨fun path content => Config.isScript_iff_route, fun dir limit => ⟨?_, ?_⟩⟩
  · exact errors_scan_eq_nil_iff.mpr fun path => exists_extract_of_mem_collect hroot
  · intro inner names content hlist hreach hleft
    split
    · next hlong => exact extract_of_isTooLong hlong
    · next hshort =>
      exact exists_extract_error_of_not_mem_collect hroot hlist hreach (by simpa using hshort) hleft

/-- A disk with one directory `d`, in which a script `run` and a text `n.txt` lie. -/
def scriptAndText : Disk :=
  { root := .dir (Bytes.ofAscii "d")
      (.file (Bytes.ofAscii "run") (Bytes.ofAscii "#!/bin/sh\nf()\n")
        (.file (Bytes.ofAscii "n.txt") (Bytes.ofAscii "f()\n") .nil)) .nil }

theorem collect_scan_agree_scriptAndText :
    scriptAndText.root.WellFormed ∧
    (scriptAndText.scan {} (scriptAndText.collect {} ⟨Bytes.ofAscii "d"⟩ 0)).errors = [] ∧
    ∃ extension, scriptAndText.extract {} ⟨Bytes.ofAscii "d/n.txt"⟩ =
      .error (.unsupportedLanguage extension) := by
  have hroot : scriptAndText.root.WellFormed := by decide
  obtain ⟨hscan, hleft⟩ := (collect_scan_agree hroot {}).2 ⟨Bytes.ofAscii "d"⟩ 0
  have htext := hleft _ [Bytes.ofAscii "n.txt"] (Bytes.ofAscii "f()\n") rfl
    ⟨rfl, by decide, by decide⟩ (by decide +kernel)
  rw [if_neg (by decide)] at htext
  exact ⟨hroot, hscan, htext⟩

theorem eq_ok_of_toOption {ε α : Type} {x : Except ε α} {a : α}
    (h : x.toOption = some a) : x = .ok a := by
  cases x with
  | error e => contradiction
  | ok b => rw [Option.some.inj h]

private theorem not_unsupportedLanguage_of_isTooLong (h : path.isTooLong = true) :
    ¬ ∃ extension, d.extract config path = .error (.unsupportedLanguage extension) := by
  rw [extract_of_isTooLong h]
  simp

/-- The directory `d` after a detour of 2046 steps that stay where they are. -/
def detour : Path :=
  ⟨(List.replicate 2046 [Byte.dot, Byte.slash]).flatten ++ Bytes.ofAscii "d"⟩

/-- **A path that is too long hides a file.** By the detour, `n.txt` lies within the walk and is
left out; but what a scan of it reports is not that its language is unknown. -/
theorem collect_leaves_out_after_detour :
    scriptAndText.root.WellFormed ∧
    (∃ inner, scriptAndText.list detour = .ok inner ∧
      inner.Reaches 0 [Bytes.ofAscii "n.txt"] (Bytes.ofAscii "f()\n")) ∧
    detour.joinAll [Bytes.ofAscii "n.txt"] ∉ scriptAndText.collect {} detour 0 ∧
    ¬ ∃ extension, scriptAndText.extract {} (detour.joinAll [Bytes.ofAscii "n.txt"]) =
      .error (.unsupportedLanguage extension) := by
  have hroot : scriptAndText.root.WellFormed := by decide
  have hlong : (detour.joinAll [Bytes.ofAscii "n.txt"]).isTooLong = true := by decide +kernel
  have hdir : (scriptAndText.list detour).toOption =
      some (scriptAndText.root.inside (Bytes.ofAscii "d")) := by decide +kernel
  exact ⟨hroot, ⟨_, eq_ok_of_toOption hdir, rfl, by decide, by decide⟩,
    not_mem_collect_of_isTooLong hroot hlong, not_unsupportedLanguage_of_isTooLong hlong⟩

end Disk

end ScriptTags
