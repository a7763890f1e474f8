import ScriptTags.Proofs.Joining

/-!
# Following joined paths

A listing is a list of entries (`Listing.entries`), and in the trees that a file system can hold the
names of the entries are proper and distinct, at every level (`Listing.WellFormed`). There looking
up a name and being an entry are the same (`Listing.mem_entries_iff`).

On such a disk, names that lead through the tree lead the same way when they are **joined to a
path**: if `dir` leads to a directory, then `dir.joinAll names` leads to the node that the names
lead to inside it (`Disk.resolve_joinAll`), unless the path has become too long to be followed, and
then it leads nowhere.
-/

namespace ScriptTags

/-! ### Well-formed trees -/

namespace Listing

/-- The **entries** of a listing, in order. -/
def entries : Listing → List (Bytes × Node)
  | nil => []
  | file name content rest => (name, .file content) :: rest.entries
  | dir name inner rest => (name, .dir inner) :: rest.entries

/-- A **well-formed** listing: at every level, the entries have proper names, no two the same. -/
def WellFormed : Listing → Prop
  | nil => True
  | file name _ rest => IsEntryName name ∧ rest.find? name = none ∧ rest.WellFormed
  | dir name inner rest =>
    IsEntryName name ∧ rest.find? name = none ∧ inner.WellFormed ∧ rest.WellFormed

instance decidableWellFormed : (l : Listing) → Decidable l.WellFormed
  | nil => .isTrue trivial
  | file name _ rest =>
    have := decidableWellFormed rest
    inferInstanceAs (Decidable (IsEntryName name ∧ rest.find? name = none ∧ rest.WellFormed))
  | dir name inner rest =>
    have := decidableWellFormed inner
    have := decidableWellFormed rest
    inferInstanceAs (Decidable
      (IsEntryName name ∧ rest.find? name = none ∧ inner.WellFormed ∧ rest.WellFormed))

end Listing

/-- A well-formed node: a file, or a directory with a well-formed listing. -/
def Node.WellFormed : Node → Prop
  | file _ => True
  | dir inner => inner.WellFormed

namespace Listing

/-! Files and directories differ in nothing that is said about names, so listings are taken apart by
`cons` with a node in front. -/

/-- Induction on a listing by the node in front. -/
@[elab_as_elim]
theorem consInduction {motive : Listing → Prop} (nil : motive nil)
    (cons : ∀ name node rest, motive rest → motive (cons name node rest)) (l : Listing) :
    motive l := by
  induction l with
  | nil => exact nil
  | file name content rest ih => exact cons name (.file content) rest ih
  | dir name inner rest _ ih => exact cons name (.dir inner) rest ih

variable {l rest : Listing} {name other : Bytes} {node : Node}

theorem find?_cons (name : Bytes) (node : Node) (rest : Listing) (other : Bytes) :
    (cons name node rest).find? other = if name = other then some node else rest.find? other := by
  cases node <;> rfl

theorem entries_cons (name : Bytes) (node : Node) (rest : Listing) :
    (cons name node rest).entries = (name, node) :: rest.entries := by
  cases node <;> rfl

/-- A listing is well formed if its front entry has a proper name that no other has, and all else
is. -/
theorem wellFormed_cons :
    (cons name node rest).WellFormed ↔
      IsEntryName name ∧ rest.find? name = none ∧ node.WellFormed ∧ rest.WellFormed := by
  cases node <;> simp [cons, WellFormed, Node.WellFormed]

/-- What is found in a well-formed listing has a proper name and is well-formed. -/
theorem WellFormed.of_find? (h : l.WellFormed) (hfind : l.find? name = some node) :
    IsEntryName name ∧ node.WellFormed := by
  induction l using consInduction with
  | nil => contradiction
  | cons n front rest ih =>
    obtain ⟨hn, -, hfront, hrest⟩ := wellFormed_cons.mp h
    rw [find?_cons] at hfind
    split at hfind
    · next heq =>
      obtain rfl := Option.some.inj hfind
      exact ⟨heq ▸ hn, hfront⟩
    · exact ih hrest hfind

/-- **Looking up a name.** In a well-formed listing, the entries are what is found under a name. -/
theorem mem_entries_iff (h : l.WellFormed) :
    (name, node) ∈ l.entries ↔ l.find? name = some node := by
  induction l using consInduction with
  | nil => exact iff_of_false List.not_mem_nil (by simp [find?])
  | cons n front rest ih =>
    obtain ⟨-, hfresh, -, hrest⟩ := wellFormed_cons.mp h
    rw [entries_cons, List.mem_cons, ih hrest, find?_cons]
    by_cases heq : n = name
    · subst heq
      simp [hfresh, eq_comm]
    · simp [heq, Ne.symm heq]

end Listing

namespace Node

variable {node found : Node} {names : List Bytes}

/-- Names are followed one after the other. -/
theorem get?_append (node : Node) (names more : List Bytes) :
    node.get? (names ++ more) = (node.get? names).bind fun found => found.get? more := by
  induction names generalizing node with
  | nil => rfl
  | cons name names ih =>
    cases node with
    | file content => rfl
    | dir inner =>
      rw [List.cons_append, get?, get?]
      cases inner.find? name with
      | none => rfl
      | some next => exact ih next

/-- Names that lead somewhere in a well-formed tree are proper, and lead to a well-formed node. -/
theorem WellFormed.of_get? (h : node.WellFormed) (hget : node.get? names = some found) :
    (∀ name ∈ names, IsEntryName name) ∧ found.WellFormed := by
  induction names generalizing node with
  | nil =>
    obtain rfl := Option.some.inj hget
    exact ⟨by simp, h⟩
  | cons name names ih =>
    cases node with
    | file content => contradiction
    | dir inner =>
      rw [get?, Option.bind_eq_some_iff] at hget
      obtain ⟨next, hfind, hnext⟩ := hget
      obtain ⟨hname, hwell⟩ := Listing.WellFormed.of_find? h hfind
      obtain ⟨hnames, hfound⟩ := ih hwell hnext
      exact ⟨List.forall_mem_cons.mpr ⟨hname, hnames⟩, hfound⟩

end Node

/-- Names that lead somewhere in a well-formed listing are proper, and so is what they lead to. -/
theorem Listing.WellFormed.of_get? {l : Listing} {names : List Bytes} {found : Node}
    (h : l.WellFormed) (hget : (Node.dir l).get? names = some found) :
    (∀ name ∈ names, IsEntryName name) ∧ found.WellFormed :=
  Node.WellFormed.of_get? (show (Node.dir l).WellFormed from h) hget

/-! ### Following a path -/

namespace Disk

variable {d : Disk} {p dir : Path} {node : Node} {inner : Listing} {place : List Bytes}
  {name : Bytes} {names : List Bytes}

theorem check_eq_ok_iff :
    check p = .ok () ↔ p.bytes ≠ [] ∧ 0 ∉ p.bytes ∧ p.isTooLong = false := by
  rw [check]
  by_cases hnil : p.bytes = []
  · simp [hnil]
  · by_cases hnul : 0 ∈ p.bytes
    · simp [hnil, hnul]
    · cases hlong : p.isTooLong <;> simp [hnil, hnul]

/-- A path leads to a node when it is neither empty nor too long, has no NUL byte, and its pieces
can be followed to that node. -/
theorem resolve_eq_ok_iff :
    d.resolve p = .ok node ↔
      check p = .ok () ∧ ∃ place, p.pieces.foldlM d.enter (d.start p) = .ok place ∧
        d.node? place = some node := by
  rw [resolve]
  cases hcheck : check p with
  | error refusal => simp [bind, Except.bind]
  | ok u =>
    cases hfold : p.pieces.foldlM d.enter (d.start p) with
    | error refusal => simp [bind, Except.bind]
    | ok place =>
      cases hnode : d.node? place with
      | none => simp [bind, Except.bind, hnode, throw, throwThe, MonadExceptOf.throw]
      | some found => simp [bind, Except.bind, hnode, pure, Except.pure]

/-- From a directory, a proper name leads on to its entry. -/
theorem enter_entry (hplace : d.node? place = some (.dir inner)) (hname : IsEntryName name) :
    d.enter place name = .ok (place ++ [name]) := by
  rw [enter, hplace]
  simp [hname.ne_nil, hname.ne_dot, hname.ne_dotDot]

/-- An empty piece stays where it is. -/
theorem eq_of_enter_nil {next : List Bytes} (h : d.enter place [] = .ok next) : next = place := by
  rw [enter] at h
  split at h
  · contradiction
  · contradiction
  · exact (Except.ok.inj h).symm

theorem node?_concat (hplace : d.node? place = some (.dir inner)) (name : Bytes) :
    d.node? (place ++ [name]) = inner.find? name := by
  rw [node?] at hplace ⊢
  rw [Node.get?_append, hplace, Option.bind_some, Node.get?]
  cases inner.find? name <;> rfl

theorem foldlM_enter_concat {pieces : List Bytes} {piece : Bytes} {last : List Bytes} :
    (pieces ++ [piece]).foldlM d.enter place = .ok last ↔
      ∃ next, pieces.foldlM d.enter place = .ok next ∧ d.enter next piece = .ok last := by
  rw [List.foldlM_append]
  cases pieces.foldlM d.enter place with
  | error refusal => simp [bind, Except.bind]
  | ok next =>
    cases h : d.enter next piece <;> simp [bind, Except.bind, pure, Except.pure, h]

/-- **Joining a name.** The joined path leads to the entry of that name. -/
theorem resolve_join (hdir : d.resolve dir = .ok (.dir inner)) (hname : IsEntryName name)
    (hfind : inner.find? name = some node) (hshort : (dir.join ⟨name⟩).isTooLong = false) :
    d.resolve (dir.join ⟨name⟩) = .ok node := by
  obtain ⟨hcheck, place, hfold, hplace⟩ := resolve_eq_ok_iff.mp hdir
  obtain ⟨hne, hnul, -⟩ := check_eq_ok_iff.mp hcheck
  obtain ⟨pieces, hpieces, hjoin⟩ := Path.exists_pieces_join hname hne
  -- with or without an empty piece at its end, the directory's path leads to the same place
  have hbefore : pieces.foldlM d.enter (d.start dir) = .ok place := by
    rcases hpieces with h | h
    · rw [h, foldlM_enter_concat] at hfold
      obtain ⟨next, hnext, hlast⟩ := hfold
      rw [hnext, eq_of_enter_nil hlast]
    · rwa [h] at hfold
  have hstart : d.start (dir.join ⟨name⟩) = d.start dir := by
    rw [start, start, Path.isAbsolute_join hname hne]
  refine resolve_eq_ok_iff.mpr ⟨check_eq_ok_iff.mpr ⟨?_, ?_, hshort⟩, place ++ [name], ?_, ?_⟩
  · exact List.ne_nil_of_length_pos (Nat.zero_lt_of_lt (Path.length_lt_length_join hname dir))
  · rw [Path.join_eq_of_entry hname]
    have hslash : (0 : Byte) ≠ Byte.slash := by decide
    split <;> simp [hnul, hname.nul_notMem, hslash]
  · rw [hjoin, hstart]
    exact foldlM_enter_concat.mpr ⟨place, hbefore, enter_entry hplace hname⟩
  · rw [node?_concat hplace, hfind]

/-- **Joining names.** The joined path leads to the node that the names lead to. -/
theorem resolve_joinAll (hinner : inner.WellFormed) (hdir : d.resolve dir = .ok (.dir inner))
    (hget : (Node.dir inner).get? names = some node)
    (hshort : (dir.joinAll names).isTooLong = false) :
    d.resolve (dir.joinAll names) = .ok node := by
  induction names generalizing dir inner with
  | nil => rw [Path.joinAll_nil, hdir, Option.some.inj hget]
  | cons name names ih =>
    have hnames := (hinner.of_get? hget).1
    rw [List.forall_mem_cons] at hnames
    rw [Node.get?, Option.bind_eq_some_iff] at hget
    obtain ⟨next, hfind, hnext⟩ := hget
    have hjoin := resolve_join hdir hnames.1 hfind (Path.isTooLong_of_joinAll hnames.2 hshort)
    have hwell := (hinner.of_find? hfind).2
    cases next with
    | dir inner' => exact ih hwell hjoin hnext hshort
    | file content =>
      -- names lead to nothing below a file, so this name was the last
      cases names with
      | nil =>
        obtain rfl := Option.some.inj hnext
        exact hjoin
      | cons name' names => contradiction

/-- A path that is too long leads nowhere. -/
theorem exists_resolve_error_of_isTooLong (h : p.isTooLong = true) :
    ∃ refusal, d.resolve p = .error refusal := by
  cases hres : d.resolve p with
  | error refusal => exact ⟨refusal, rfl⟩
  | ok node =>
    have hshort := (check_eq_ok_iff.mp (resolve_eq_ok_iff.mp hres).1).2.2
    rw [h] at hshort
    contradiction

/-- The directories of a well-formed disk are well-formed. -/
theorem wellFormed_of_resolve (hroot : d.root.WellFormed) (h : d.resolve p = .ok node) :
    node.WellFormed := by
  obtain ⟨-, place, -, hplace⟩ := resolve_eq_ok_iff.mp h
  exact (hroot.of_get? hplace).2

end Disk

end ScriptTags
