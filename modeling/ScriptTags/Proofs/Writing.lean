import ScriptTags.Proofs.Places

/-!
# What writing changes

Writing a file changes what is seen at **one place** and nothing else (`Disk.WritesAt`,
`Disk.writesAt_put`), although every listing on the way to that place is made anew. The tree stays
well-formed (`Listing.WellFormed.put`), and writing what is there already gives back the very same
tree, in the same order (`Listing.put_eq_self`).

Where the place was not a directory, the directories are the same before and after. So every path
leads where it has led (`Disk.WritesAt.leadsTo_iff`), the path of the new file included.
-/

namespace ScriptTags

namespace Listing

variable {l inner : Listing} {name : Bytes} {names parent : List Bytes} {node : Node}

/-! ### One listing -/

theorem set_cons (n : Bytes) (front : Node) (rest : Listing) (name : Bytes) (node : Node) :
    (cons n front rest).set name node =
      if n = name then cons name node rest else cons n front (rest.set name node) := by
  cases front <;> rfl

/-- Setting a name to what it has changes nothing. -/
theorem set_eq_self (h : l.find? name = some node) : l.set name node = l := by
  induction l using consInduction with
  | nil => contradiction
  | cons n front rest ih =>
    rw [find?_cons] at h
    rw [set_cons]
    split at h
    · next heq => rw [if_pos heq, heq, Option.some.inj h]
    · next hne => rw [if_neg hne, ih h]

/-- An entry of a name that entries may have keeps a listing well formed. -/
theorem WellFormed.set (h : l.WellFormed) (hname : IsEntryName name) (hnode : node.WellFormed) :
    (l.set name node).WellFormed := by
  induction l using consInduction with
  | nil => exact wellFormed_cons.mpr ⟨hname, rfl, hnode, h⟩
  | cons n front rest ih =>
    obtain ⟨hn, hfresh, hfront, hrest⟩ := wellFormed_cons.mp h
    rw [set_cons]
    split
    · next heq => exact wellFormed_cons.mpr ⟨hname, heq ▸ hfresh, hnode, hrest⟩
    · next hne =>
      rw [← find?_set_of_ne (Ne.symm hne) node rest] at hfresh
      exact wellFormed_cons.mpr ⟨hn, hfresh, hfront, ih hrest⟩

theorem WellFormed.inside (h : l.WellFormed) (name : Bytes) : (l.inside name).WellFormed := by
  rw [Listing.inside]
  split
  · next inner hfind => exact (h.of_find? hfind).2
  · trivial

theorem inside_of_find? (h : l.find? name = some (.dir inner)) : l.inside name = inner := by
  rw [inside, h]

/-! ### A tree -/

theorem put_cons (hnames : names ≠ []) (name : Bytes) (node : Node) (l : Listing) :
    l.put node (name :: names) = l.set name (.dir ((l.inside name).put node names)) := by
  cases names with
  | nil => contradiction
  | cons next names => rfl

/-- To put a node at a place, with directories on the way, keeps a listing well formed. -/
theorem WellFormed.put (h : l.WellFormed) (hnames : ∀ name ∈ names, IsEntryName name)
    (hnode : node.WellFormed) : (l.put node names).WellFormed := by
  induction names generalizing l with
  | nil => exact h
  | cons name names ih =>
    rw [List.forall_mem_cons] at hnames
    by_cases hlast : names = []
    · subst hlast
      exact h.set hnames.1 hnode
    · rw [put_cons hlast]
      exact h.set hnames.1 (ih (h.inside name) hnames.2)

/-- **Putting a node where it is** changes nothing, not even an order. -/
theorem put_eq_self (h : (Node.dir l).get? names = some node) : l.put node names = l := by
  induction names generalizing l with
  | nil => rfl
  | cons name names ih =>
    rw [Node.get?, Option.bind_eq_some_iff] at h
    obtain ⟨next, hfind, hnext⟩ := h
    by_cases hlast : names = []
    · subst hlast
      obtain rfl := Option.some.inj hnext
      exact set_eq_self hfind
    · obtain ⟨second, rest, rfl⟩ := List.exists_cons_of_ne_nil hlast
      cases next with
      | file content => contradiction
      | dir inner => rw [put_cons hlast, inside_of_find? hfind, ih hnext, set_eq_self hfind]

theorem seen?_of_find?_dir (h : l.find? name = some (.dir inner)) (names : List Bytes) :
    l.seen? (name :: names) = inner.seen? names := by
  rw [seen?, Node.get?, h]
  rfl

theorem seen?_of_find?_eq {l' : Listing} (h : l.find? name = l'.find? name) (names : List Bytes) :
    l.seen? (name :: names) = l'.seen? (name :: names) := by
  rw [seen?, seen?, Node.get?, Node.get?, h]

/-- In one listing, a file is set where no directory is. -/
theorem seen?_set_file (h : l.seen? [name] ≠ some .directory) (content : Bytes)
    (names : List Bytes) :
    (l.set name (.file content)).seen? names =
      if names = [name] then some (.file content) else l.seen? names := by
  cases names with
  | nil => rfl
  | cons n names =>
    by_cases hn : name = n
    · subst hn
      cases names with
      | nil =>
        rw [if_pos rfl, seen?, Node.get?, find?_set_self]
        rfl
      | cons next rest =>
        -- nothing is seen behind a file, and nothing was seen where no directory was
        have hnone : l.seen? ([name] ++ next :: rest) = none := by
          by_contra hsome
          exact h (seen?_eq_directory_of_append (List.cons_ne_nil next rest) hsome)
        rw [if_neg (by simp), seen?, Node.get?, find?_set_self]
        exact hnone.symm
    · rw [if_neg (by simp [Ne.symm hn]), seen?_of_find?_eq (find?_set_of_ne hn _ l)]

/-- The first name on the way to a directory is that of a directory. -/
theorem exists_find?_dir (h : l.seen? (name :: names) = some .directory) :
    ∃ inner, l.find? name = some (.dir inner) := by
  obtain ⟨last, hget⟩ := seen?_eq_directory_iff.mp h
  rw [Node.get?, Option.bind_eq_some_iff] at hget
  obtain ⟨next, hfind, hnext⟩ := hget
  cases next with
  | file content => cases names <;> simp [Node.get?] at hnext
  | dir inner => exact ⟨inner, hfind⟩

/-- **A file that is put in a directory changes one place.** -/
theorem seen?_put_file (hparent : l.seen? parent = some .directory)
    (hplace : l.seen? (parent ++ [name]) ≠ some .directory) (content : Bytes) (names : List Bytes) :
    (l.put (.file content) (parent ++ [name])).seen? names =
      if names = parent ++ [name] then some (.file content) else l.seen? names := by
  induction parent generalizing l names with
  | nil => exact seen?_set_file hplace content names
  | cons first parent ih =>
    -- the listing is made anew, but differs only behind `first`, where the induction speaks
    obtain ⟨inner, hfind⟩ := exists_find?_dir hparent
    rw [List.cons_append, seen?_of_find?_dir hfind] at hplace
    rw [seen?_of_find?_dir hfind] at hparent
    rw [List.cons_append, put_cons (by simp), inside_of_find? hfind]
    cases names with
    | nil => rfl
    | cons n names =>
      by_cases hn : first = n
      · subst hn
        rw [seen?_of_find?_dir (find?_set_self _ _ _), ih hparent hplace, seen?_of_find?_dir hfind]
        simp
      · rw [if_neg (by simp [Ne.symm hn]), seen?_of_find?_eq (find?_set_of_ne hn _ l)]

end Listing

/-! ### A disk -/

namespace Disk

variable {d d' : Disk} {p q : Path} {place other : List Bytes} {content : Bytes}

/-- **The disk `d'` is `d` with one file written**: the file is at its place, and everywhere else
the same is seen as before. -/
structure WritesAt (d : Disk) (place : List Bytes) (content : Bytes) (d' : Disk) : Prop where
  cwd_eq : d'.cwd = d.cwd
  seen?_self : d'.seen? place = some (.file content)
  seen?_of_ne : ∀ other, other ≠ place → d'.seen? other = d.seen? other

/-- Writing is what writing at the place of a path should be. -/
theorem writesAt_put (h : d.target p = .ok place) (content : Bytes) :
    d.WritesAt place content (d.put place (.file content)) := by
  obtain ⟨hlead, hplace, -⟩ := target_eq_ok_iff.mp h
  obtain ⟨parent, name, -, rfl, -, -, -, hparent⟩ := hlead.exists_name hplace
  have hseen := Listing.seen?_put_file hparent hplace content
  exact ⟨rfl, (hseen _).trans (if_pos rfl), fun other hne => (hseen other).trans (if_neg hne)⟩

/-- A file is written exactly where its path has a target. -/
theorem write_eq_ok_iff :
    d.write p content = .ok d' ↔
      ∃ place, d.target p = .ok place ∧ d' = d.put place (.file content) := by
  rw [write]
  cases d.target p with
  | error refusal => simp [bind, Except.bind]
  | ok place => simp [bind, Except.bind, pure, Except.pure, eq_comm]

theorem wellFormed_put (hroot : d.root.WellFormed) (h : d.target p = .ok place) (content : Bytes) :
    (d.put place (.file content)).root.WellFormed := by
  obtain ⟨hlead, hplace, -⟩ := target_eq_ok_iff.mp h
  obtain ⟨parent, name, -, rfl, hname, -, -, hparent⟩ := hlead.exists_name hplace
  obtain ⟨inner, hinner⟩ := seen?_eq_directory_iff.mp hparent
  have hnames : ∀ n ∈ parent ++ [name], IsEntryName n := by
    intro n hn
    rcases List.mem_append.mp hn with hmem | hmem
    · exact (hroot.of_get? hinner).1 n hmem
    · exact List.mem_singleton.mp hmem ▸ hname
  exact hroot.put hnames trivial

/-- A file that is written as it is leaves the disk as it is. -/
theorem put_eq_self (h : d.seen? place = some (.file content)) :
    d.put place (.file content) = d := by
  rw [put, Listing.put_eq_self (seen?_eq_file_iff.mp h)]

namespace WritesAt

variable (h : d.WritesAt place content d') (hplace : d.seen? place ≠ some .directory)

include h hplace

/-- Writing a file makes no directory and removes none. -/
theorem seen?_eq_directory_iff :
    d.seen? other = some .directory ↔ d'.seen? other = some .directory := by
  by_cases hother : other = place
  · subst hother
    exact iff_of_false hplace (by simp [h.seen?_self])
  · rw [h.seen?_of_ne other hother]

/-- **Every path leads where it has led.** -/
theorem leadsTo_iff : d.LeadsTo q other ↔ d'.LeadsTo q other :=
  leadsTo_congr h.cwd_eq.symm fun _ => h.seen?_eq_directory_iff hplace

theorem isDir_eq (q : Path) : d.isDir q = d'.isDir q := by
  rw [Bool.eq_iff_iff, isDir_iff, isDir_iff]
  simp only [h.leadsTo_iff hplace, h.seen?_eq_directory_iff hplace]

/-- A path that does not lead to the place leads to the same file as before. -/
theorem resolve_eq_file_iff {found : Bytes} (hq : ¬ d.LeadsTo q place) :
    d.resolve q = .ok (.file found) ↔ d'.resolve q = .ok (.file found) := by
  rw [Disk.resolve_eq_file_iff, Disk.resolve_eq_file_iff]
  refine exists_congr fun other => ?_
  rw [← h.leadsTo_iff hplace]
  refine and_congr_right fun hlead => ?_
  have hne : other ≠ place := fun heq => hq (heq ▸ hlead)
  rw [h.seen?_of_ne other hne]

/-- The file is read at its path. -/
theorem read_eq (hp : d.LeadsTo p place) : d'.read p = .ok content := by
  have hres : d'.resolve p = .ok (.file content) :=
    Disk.resolve_eq_file_iff.mpr ⟨place, (h.leadsTo_iff hplace).mp hp, h.seen?_self⟩
  rw [read, hres]
  rfl

end WritesAt

end Disk

end ScriptTags
