import Mathlib.Data.List.Sort
import ScriptTags.Proofs.Collecting
import ScriptTags.Proofs.Places
import ScriptTags.Proofs.Sorting

/-!
# The order of a walk

A walk meets the entries of a directory in the order in which the directory is read, and sorts in
the end. Nothing of the first order is left in its result. What is collected is **strictly
increasing** by the keys of the paths, component by component (`Disk.pairwise_collect`), because the
path of an entry tells all names that lead to it; and a strictly increasing list is known by its
members, which `Disk.mem_collect_iff` gives without any order.

Two disks are read in different orders when their listings are **reordered** at any level
(`Listing.Reordered`). On both the same is seen at every place, so that they have the same scripts
within reach.
-/

namespace ScriptTags

/-! ### Keys of joined paths -/

namespace Path

variable {p : Path} {name : Bytes} {names : List Bytes}

/-- A joined name is one component more. -/
theorem components_join (hname : IsEntryName name) (p : Path) :
    (p.join ⟨name⟩).components = p.components ++ [.normal name] := by
  have hlast : componentOf name = .normal name := if_neg hname.ne_dotDot
  by_cases hp : p.bytes = []
  · have hpieces : (⟨name⟩ : Path).pieces = [name] := List.splitOn_eq_singleton hname.slash_notMem
    have hempty : p.components = [] := by simp [components, names, pieces, isAbsolute, hp]
    rw [join_of_bytes_eq_nil hname hp, hempty]
    simp [components, names, hpieces, isAbsolute_of_slash_notMem hname.slash_notMem, hname.ne_nil,
      hname.ne_dot, hlast]
  · obtain ⟨pieces, hpieces, hjoin⟩ := exists_pieces_join hname hp
    -- the first piece decides on a leading `.`, and a name behind it does not change it
    have hne : pieces ≠ [] := by
      rintro rfl
      rcases hpieces with h | h
      · have hbytes : [Byte.slash].intercalate p.pieces = p.bytes :=
          List.intercalate_splitOn Byte.slash
        rw [h] at hbytes
        exact hp hbytes.symm
      · exact List.splitOn_ne_nil Byte.slash p.bytes h
    have hhead : (p.join ⟨name⟩).pieces.head? = p.pieces.head? := by
      obtain ⟨first, rest, rfl⟩ := List.exists_cons_of_ne_nil hne
      rcases hpieces with h | h <;> rw [hjoin, h] <;> rfl
    rw [components, components, names_join hname, isAbsolute_join hname hp, hhead, List.map_append,
      List.map_singleton, hlast, List.append_assoc]

/-- **The key of a joined path** tells the names one by one. -/
theorem key_joinAll (hnames : ∀ name ∈ names, IsEntryName name) (p : Path) :
    (p.joinAll names).key = p.key ++ names.map fun name => (Component.normal name).key := by
  induction names generalizing p with
  | nil => simp
  | cons name names ih =>
    rw [List.forall_mem_cons] at hnames
    rw [joinAll_cons, ih hnames.2, key, components_join hnames.1]
    simp [key]

theorem key_normal_injective : Function.Injective fun name => (Component.normal name).key := by
  intro name other h
  exact (List.cons.inj h).2

/-- Distinct names make distinct keys, whatever names follow. -/
theorem key_joinAll_ne {other : Bytes} {others : List Bytes}
    (hnames : ∀ n ∈ name :: names, IsEntryName n) (hothers : ∀ n ∈ other :: others, IsEntryName n)
    (hne : name ≠ other) (p : Path) :
    (p.joinAll (name :: names)).key ≠ (p.joinAll (other :: others)).key := by
  rw [key_joinAll hnames, key_joinAll hothers]
  intro h
  have hfirst := (List.cons.inj (List.append_cancel_left h)).1
  exact hne (key_normal_injective hfirst)

end Path

/-! ### Sorting -/

namespace Path

theorem compare_eq_lt_iff {p q : Path} : p.compare q = .lt ↔ p.key < q.key :=
  compare_list_eq_lt_iff (compare_list_eq_lt_iff fun _ _ => Std.compare_eq_lt) p.key q.key

theorem compare_eq_eq_iff {p q : Path} : p.compare q = .eq ↔ p.key = q.key :=
  Std.LawfulEqOrd.compare_eq_iff_eq

/-- Paths with distinct keys are sorted strictly. -/
theorem pairwise_sorted {paths : List Path} (h : paths.Pairwise fun p q => p.key ≠ q.key) :
    (sorted paths).Pairwise fun p q => p.key < q.key := by
  have hcmp : Std.TransCmp Path.compare := by
    unfold Path.compare
    infer_instance
  have hle : (sorted paths).Pairwise fun p q => (p.compare q).isLE = true :=
    pairwise_mergeSort_isLE paths
  have hne : (sorted paths).Pairwise fun p q => p.key ≠ q.key :=
    ((List.mergeSort_perm paths _).pairwise_iff fun h => h.symm).mpr h
  refine (hle.and hne).imp ?_
  rintro p q ⟨hle, hne⟩
  rcases Ordering.isLE_iff_eq_lt_or_eq_eq.mp hle with hlt | heq
  · exact compare_eq_lt_iff.mp hlt
  · exact absurd (compare_eq_eq_iff.mp heq) hne

/-- **A strictly increasing list is known by its members.** -/
theorem eq_of_increasing {paths others : List Path} (h : paths.Pairwise fun p q => p.key < q.key)
    (h' : others.Pairwise fun p q => p.key < q.key) (hmem : ∀ p, p ∈ paths ↔ p ∈ others) :
    paths = others := by
  have hasymm : Std.Asymm fun p q : Path => p.key < q.key := ⟨fun _ _ => List.lt_asymm⟩
  exact h.eq_of_mem_iff h' hmem

end Path

/-! ### What is collected increases -/

namespace Listing

variable {l : Listing} {config : Config} {dir path : Path} {levels : Nat} {name : Bytes}
  {node : Node}

/-- No two entries have one name. -/
theorem WellFormed.pairwise_entries (h : l.WellFormed) :
    l.entries.Pairwise fun entry other => entry.1 ≠ other.1 := by
  induction l using consInduction with
  | nil => exact List.Pairwise.nil
  | cons name node rest ih =>
    obtain ⟨-, hfresh, -, hrest⟩ := wellFormed_cons.mp h
    rw [entries_cons]
    refine List.pairwise_cons.mpr ⟨fun other hother heq => ?_, ih hrest⟩
    have hfound := (mem_entries_iff hrest).mp hother
    rw [← heq, hfresh] at hfound
    contradiction

/-- What a walk finds at an entry has a path on which the name of the entry comes first. -/
theorem exists_names_of_mem_scripts (hl : l.WellFormed) (hentry : (name, node) ∈ l.entries)
    (hpath : path ∈ node.scripts config (dir.join ⟨name⟩) levels) :
    ∃ names, (∀ n ∈ name :: names, IsEntryName n) ∧ path = dir.joinAll (name :: names) := by
  obtain ⟨hname, hnode⟩ := hl.of_find? ((mem_entries_iff hl).mp hentry)
  cases node with
  | file content =>
    obtain ⟨rfl, -⟩ := Node.mem_scripts_file.mp hpath
    exact ⟨[], by simpa using hname, rfl⟩
  | dir inner =>
    obtain ⟨-, -, below, rfl, hbelow⟩ := Node.mem_scripts_dir.mp hpath
    obtain ⟨names, content, hreach, rfl, -⟩ := (mem_scripts_iff hnode).mp hbelow
    have hnames := (WellFormed.of_get? hnode hreach.get?_eq).1
    exact ⟨names, List.forall_mem_cons.mpr ⟨hname, hnames⟩, rfl⟩

/-- **A walk finds nothing twice**, not even under two spellings. -/
theorem pairwise_scripts (hl : l.WellFormed) :
    (l.scripts config dir levels).Pairwise fun p q => p.key ≠ q.key := by
  induction levels using Nat.strongRecOn generalizing l dir with
  | ind levels ih =>
    rw [scripts_eq_flatMap, List.pairwise_flatMap]
    -- below one entry by induction on the levels, across two entries by their names
    constructor
    · rintro ⟨name, node⟩ hentry
      have hnode := (hl.of_find? ((mem_entries_iff hl).mp hentry)).2
      cases node with
      | file content =>
        rw [Node.scripts]
        split <;> simp
      | dir inner =>
        cases levels with
        | zero => exact List.Pairwise.nil
        | succ below =>
          rw [Node.scripts]
          split
          · exact List.Pairwise.nil
          · exact ih below (Nat.lt_succ_self below) hnode
    · refine hl.pairwise_entries.imp_of_mem ?_
      rintro ⟨name, node⟩ ⟨other, otherNode⟩ hentry hother hne p hp q hq
      obtain ⟨names, hnames, rfl⟩ := exists_names_of_mem_scripts hl hentry hp
      obtain ⟨others, hothers, rfl⟩ := exists_names_of_mem_scripts hl hother hq
      exact Path.key_joinAll_ne hnames hothers hne dir

end Listing

namespace Disk

variable {d d' : Disk} {config : Config} {dir : Path} {limit : UInt64}

/-- **What is collected is strictly increasing**, component by component. -/
theorem pairwise_collect (hroot : d.root.WellFormed) :
    (d.collect config dir limit).Pairwise fun p q => p.key < q.key := by
  rw [collect]
  cases hlist : d.list dir with
  | error refusal => exact List.Pairwise.nil
  | ok inner =>
    have hinner : inner.WellFormed := wellFormed_of_resolve hroot (list_eq_ok_iff.mp hlist)
    exact Path.pairwise_sorted (Listing.pairwise_scripts hinner)

theorem collect_eq_of_mem_iff (hroot : d.root.WellFormed) (hroot' : d'.root.WellFormed)
    (h : ∀ path, path ∈ d.collect config dir limit ↔ path ∈ d'.collect config dir limit) :
    d.collect config dir limit = d'.collect config dir limit :=
  Path.eq_of_increasing (pairwise_collect hroot) (pairwise_collect hroot') h

/-- **What is collected, by what is seen**: the files behind the place of the directory that are not
too far from it, with no skipped name on the way, if they are scripts and their paths can be
followed. -/
theorem mem_collect_iff_seen {path : Path} (hroot : d.root.WellFormed) :
    path ∈ d.collect config dir limit ↔
      ∃ place names content, d.LeadsTo dir place ∧ d.seen? place = some .directory ∧
        d.seen? (place ++ names) = some (.file content) ∧ names.length ≤ limit.toNat + 1 ∧
        (∀ name ∈ names, (⟨name⟩ : Path).isSkipped = false) ∧ path = dir.joinAll names ∧
        path.isTooLong = false ∧ config.isScript path content = true := by
  simp only [mem_collect_iff hroot, list_eq_ok_iff, resolve_eq_ok_iff_leadsTo]
  constructor
  · rintro ⟨inner, names, content, ⟨place, hlead, hplace⟩, ⟨hget, hlength, hskip⟩, hfound⟩
    have hseen : d.seen? (place ++ names) = some (.file content) := by
      rw [seen?, Listing.seen?_append hplace, Listing.seen?_eq_file_iff, hget]
    exact ⟨place, names, content, hlead, seen?_eq_directory_iff.mpr ⟨inner, hplace⟩, hseen, hlength,
      hskip, hfound⟩
  · rintro ⟨place, names, content, hlead, hdir, hseen, hlength, hskip, hfound⟩
    obtain ⟨inner, hplace⟩ := seen?_eq_directory_iff.mp hdir
    rw [seen?, Listing.seen?_append hplace, Listing.seen?_eq_file_iff] at hseen
    exact ⟨inner, names, content, ⟨place, hlead, hplace⟩, ⟨hseen, hlength, hskip⟩, hfound⟩

/-- Disks on which the same is seen everywhere are walked alike. -/
theorem collect_congr (hroot : d.root.WellFormed) (hroot' : d'.root.WellFormed)
    (hcwd : d.cwd = d'.cwd) (hseen : ∀ place, d.seen? place = d'.seen? place) :
    d.collect config dir limit = d'.collect config dir limit := by
  have hlead : ∀ place, d.LeadsTo dir place ↔ d'.LeadsTo dir place := fun place =>
    leadsTo_congr hcwd fun place => by rw [hseen]
  refine collect_eq_of_mem_iff hroot hroot' fun path => ?_
  simp only [mem_collect_iff_seen hroot, mem_collect_iff_seen hroot', hseen, hlead]

end Disk

/-! ### Other orders of reading -/

/-- **Listings that differ in order only**, at any level: two neighbours may change places, in this
listing or in a directory inside it, any number of times. -/
inductive Listing.Reordered : Listing → Listing → Prop
  | refl (l : Listing) : Reordered l l
  | trans {l l' l'' : Listing} : Reordered l l' → Reordered l' l'' → Reordered l l''
  | swap (name other : Bytes) (node node' : Node) (rest : Listing) :
    Reordered (cons name node (cons other node' rest)) (cons other node' (cons name node rest))
  | behind (name : Bytes) (node : Node) {rest rest' : Listing} :
    Reordered rest rest' → Reordered (cons name node rest) (cons name node rest')
  | inside (name : Bytes) {inner inner' : Listing} (rest : Listing) :
    Reordered inner inner' → Reordered (cons name (.dir inner) rest) (cons name (.dir inner') rest)

namespace Listing

variable {l l' : Listing}

theorem seen?_cons (name : Bytes) (node : Node) (rest : Listing) (n : Bytes) (names : List Bytes) :
    (cons name node rest).seen? (n :: names) =
      if name = n then (node.get? names).map Node.seen else rest.seen? (n :: names) := by
  rw [seen?, Node.get?, find?_cons]
  split <;> rfl

theorem find?_eq_none_iff {name : Bytes} : l.find? name = none ↔ l.seen? [name] = none := by
  rw [seen?, Node.get?]
  cases l.find? name <;> simp [Node.get?]

/-- One step of the induction below: the front and the rest of a listing may be exchanged for
others in which the same is seen. -/
theorem WellFormed.cons_congr {name : Bytes} {node node' : Node} {rest rest' : Listing}
    (h : (cons name node rest).WellFormed)
    (hnode : node'.WellFormed ∧
      ∀ names, (node.get? names).map Node.seen = (node'.get? names).map Node.seen)
    (hrest : rest'.WellFormed ∧ ∀ names, rest.seen? names = rest'.seen? names) :
    (cons name node' rest').WellFormed ∧
      ∀ names, (cons name node rest).seen? names = (cons name node' rest').seen? names := by
  obtain ⟨hname, hfresh, -, -⟩ := wellFormed_cons.mp h
  rw [find?_eq_none_iff, hrest.2, ← find?_eq_none_iff] at hfresh
  refine ⟨wellFormed_cons.mpr ⟨hname, hfresh, hnode.1, hrest.1⟩, fun names => ?_⟩
  cases names with
  | nil => rfl
  | cons n names => rw [seen?_cons, seen?_cons, hnode.2, hrest.2]

/-- Neighbours of different names may change places. -/
theorem WellFormed.cons_swap {name other : Bytes} {node node' : Node} {rest : Listing}
    (h : (cons name node (cons other node' rest)).WellFormed) :
    (cons other node' (cons name node rest)).WellFormed ∧
      ∀ names, (cons name node (cons other node' rest)).seen? names =
        (cons other node' (cons name node rest)).seen? names := by
  obtain ⟨hname, hfresh, hnode, hrest⟩ := wellFormed_cons.mp h
  obtain ⟨hother, hfresh', hnode', hrest⟩ := wellFormed_cons.mp hrest
  rw [find?_cons] at hfresh
  split at hfresh
  · contradiction
  · next hne =>
    refine ⟨wellFormed_cons.mpr ⟨hother, ?_, hnode', wellFormed_cons.mpr
      ⟨hname, hfresh, hnode, hrest⟩⟩, fun names => ?_⟩
    · rw [find?_cons, if_neg (Ne.symm hne), hfresh']
    · cases names with
      | nil => rfl
      | cons n names =>
        simp only [seen?_cons]
        by_cases hn : name = n
        · rw [if_pos hn, if_neg (hn ▸ hne), if_pos hn]
        · rw [if_neg hn, if_neg hn]

/-- **On reordered trees the same is seen everywhere.** -/
theorem Reordered.seen?_eq (h : l.Reordered l') (hl : l.WellFormed) :
    l'.WellFormed ∧ ∀ names, l.seen? names = l'.seen? names := by
  induction h with
  | refl l => exact ⟨hl, fun _ => rfl⟩
  | trans _ _ ih ih' =>
    obtain ⟨hmid, hseen⟩ := ih hl
    obtain ⟨hlast, hseen'⟩ := ih' hmid
    exact ⟨hlast, fun names => (hseen names).trans (hseen' names)⟩
  | swap name other node node' rest => exact hl.cons_swap
  | behind name node _ ih =>
    obtain ⟨-, -, hnode, hrest⟩ := wellFormed_cons.mp hl
    exact hl.cons_congr ⟨hnode, fun _ => rfl⟩ (ih hrest)
  | inside name rest _ ih =>
    obtain ⟨-, -, hinner, hrest⟩ := wellFormed_cons.mp hl
    exact hl.cons_congr (ih hinner) ⟨hrest, fun _ => rfl⟩

end Listing

namespace Disk

variable {d d' : Disk} {config : Config} {dir : Path} {limit : UInt64}

/-- A disk whose directories are **read in another order**. -/
structure Reordered (d d' : Disk) : Prop where
  cwd_eq : d.cwd = d'.cwd
  root : d.root.Reordered d'.root

/-- **A walk does not depend on the order in which directories are read.** What it collects is
strictly increasing, component by component, and consists of the files that names lead to from the
directory, one name more than the limit at most and none of them skipped, if they are scripts and
their paths can be followed. The directory itself is put to no test. -/
theorem collect_any_order (hroot : d.root.WellFormed) (config : Config) (dir : Path)
    (limit : UInt64) :
    (∀ d', d.Reordered d' → d'.collect config dir limit = d.collect config dir limit) ∧
    ((d.collect config dir limit).Pairwise fun p q => p.key < q.key) ∧
    ∀ path, path ∈ d.collect config dir limit ↔
      ∃ inner names content, d.list dir = .ok inner ∧
        (Node.dir inner).get? names = some (.file content) ∧ names.length ≤ limit.toNat + 1 ∧
        (∀ name ∈ names, (⟨name⟩ : Path).isSkipped = false) ∧ path = dir.joinAll names ∧
        path.isTooLong = false ∧ config.isScript path content = true := by
  refine ⟨fun d' h => ?_, pairwise_collect hroot, fun path => ?_⟩
  · obtain ⟨hroot', hseen⟩ := h.root.seen?_eq hroot
    exact collect_congr hroot' hroot h.cwd_eq.symm fun place => (hseen place).symm
  · rw [mem_collect_iff hroot]
    constructor
    · rintro ⟨inner, names, content, hlist, ⟨hget, hlength, hskip⟩, hfound⟩
      exact ⟨inner, names, content, hlist, hget, hlength, hskip, hfound⟩
    · rintro ⟨inner, names, content, hlist, hget, hlength, hskip, hfound⟩
      exact ⟨inner, names, content, hlist, ⟨hget, hlength, hskip⟩, hfound⟩

/-- A directory `d` with a script, a hidden script, and a directory that has a script too. -/
def nestedScripts : Disk :=
  { root := .dir (Bytes.ofAscii "d") (.file (Bytes.ofAscii "b.sh") []
      (.file (Bytes.ofAscii ".h.sh") [] (.dir (Bytes.ofAscii "b")
        (.file (Bytes.ofAscii "x.sh") [] .nil) .nil))) .nil }

/-- The same disk with its hidden script read last. -/
def nestedScriptsReread : Disk :=
  { root := .dir (Bytes.ofAscii "d") (.file (Bytes.ofAscii "b.sh") [] (.dir (Bytes.ofAscii "b")
      (.file (Bytes.ofAscii "x.sh") [] .nil) (.file (Bytes.ofAscii ".h.sh") [] .nil))) .nil }

theorem collect_any_order_nestedScripts :
    nestedScripts.root.WellFormed ∧ nestedScripts.Reordered nestedScriptsReread ∧
    nestedScriptsReread.collect {} ⟨Bytes.ofAscii "d"⟩ 1 =
      [⟨Bytes.ofAscii "d/b/x.sh"⟩, ⟨Bytes.ofAscii "d/b.sh"⟩] := by
  have hroot : nestedScripts.root.WellFormed := by decide
  have hreordered : nestedScripts.Reordered nestedScriptsReread :=
    ⟨rfl, .inside _ _ (.behind _ (.file []) (.swap _ _ (.file []) (.dir _) _))⟩
  have hfound : nestedScripts.collect {} ⟨Bytes.ofAscii "d"⟩ 1 =
      Path.sorted [⟨Bytes.ofAscii "d/b.sh"⟩, ⟨Bytes.ofAscii "d/b/x.sh"⟩] := rfl
  have hperm : (nestedScripts.collect {} ⟨Bytes.ofAscii "d"⟩ 1).Perm
      [⟨Bytes.ofAscii "d/b.sh"⟩, ⟨Bytes.ofAscii "d/b/x.sh"⟩] := hfound ▸ List.mergeSort_perm _ _
  obtain ⟨horder, hincreasing, -⟩ := collect_any_order hroot {} ⟨Bytes.ofAscii "d"⟩ 1
  refine ⟨hroot, hreordered, (horder _ hreordered).trans ?_⟩
  refine Path.eq_of_increasing hincreasing (by decide +kernel) fun path => ?_
  exact (hperm.trans (.swap _ _ _)).mem_iff

/-- A disk with a directory `d`, in which a script `a.sh` lies. -/
def oneScript : Disk :=
  { root := .dir (Bytes.ofAscii "d") (.file (Bytes.ofAscii "a.sh") [] .nil) .nil }

/-- **A path that is too long keeps a script out.** By the detour, `a.sh` is a script in the
directory of the walk, not skipped and within every limit, and is not collected. -/
theorem not_collect_after_detour :
    oneScript.root.WellFormed ∧
    ¬ (detour.joinAll [Bytes.ofAscii "a.sh"] ∈ oneScript.collect {} detour 0 ↔
      ∃ inner names content, oneScript.list detour = .ok inner ∧
        (Node.dir inner).get? names = some (.file content) ∧ names.length ≤ 0 + 1 ∧
        (∀ name ∈ names, (⟨name⟩ : Path).isSkipped = false) ∧
        detour.joinAll [Bytes.ofAscii "a.sh"] = detour.joinAll names ∧
        Config.isScript {} (detour.joinAll [Bytes.ofAscii "a.sh"]) content = true) := by
  have hroot : oneScript.root.WellFormed := by decide
  have hlong : (detour.joinAll [Bytes.ofAscii "a.sh"]).isTooLong = true := by decide +kernel
  have hlist : (oneScript.list detour).toOption =
      some (oneScript.root.inside (Bytes.ofAscii "d")) := by decide +kernel
  have hscript : Config.isScript {} (detour.joinAll [Bytes.ofAscii "a.sh"]) [] = true := by
    decide +kernel
  refine ⟨hroot, fun h => not_mem_collect_of_isTooLong hroot hlong (h.mpr ?_)⟩
  exact ⟨_, [Bytes.ofAscii "a.sh"], [], eq_ok_of_toOption hlist, rfl, by decide, by decide, rfl,
    hscript⟩

end Disk

end ScriptTags
