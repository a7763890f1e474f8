import Mathlib.Data.List.Induction
import ScriptTags.Proofs.Pieces
import ScriptTags.Proofs.Resolution

/-!
# Where paths lead

A path leads to a **place**, a list of names from the root, and what is at a place is a file or a
directory (`Seen`). Whether a path leads somewhere depends on the directories alone: two disks with
the same directories and the same working directory lead every path to the same place
(`Disk.leadsTo_congr`), however their listings are ordered and whatever files they hold.

A path that does not lead to a directory ends in a proper name, which is its file name and the last
name of the place (`Disk.LeadsTo.exists_name`). So the place that a file is written to is simply the
place that its path leads to, unless there is a directory (`Disk.target_eq_ok_iff`).
-/

namespace ScriptTags

/-- What is **seen** at a place: a file with its content, or a directory, whatever it holds. -/
inductive Seen where
  | file (content : Bytes)
  | directory
  deriving DecidableEq, Repr

/-- What is seen of a node. -/
def Node.seen : Node → Seen
  | file content => .file content
  | dir _ => .directory

@[simp]
theorem Node.seen_file (content : Bytes) : (file content).seen = .file content :=
  rfl

@[simp]
theorem Node.seen_dir (inner : Listing) : (dir inner).seen = .directory :=
  rfl

/-- A file is seen with its content. -/
theorem Node.seen_eq_file_iff {node : Node} {content : Bytes} :
    node.seen = .file content ↔ node = .file content := by
  cases node <;> simp

/-- A directory is seen without what is in it. -/
theorem Node.seen_eq_directory_iff {node : Node} :
    node.seen = .directory ↔ ∃ inner, node = .dir inner := by
  cases node <;> simp

namespace Listing

variable {l : Listing} {names more : List Bytes} {content : Bytes}

/-- What is seen in a directory with this listing at the end of `names`. -/
def seen? (l : Listing) (names : List Bytes) : Option Seen :=
  ((Node.dir l).get? names).map Node.seen

theorem seen?_eq_file_iff :
    l.seen? names = some (.file content) ↔ (Node.dir l).get? names = some (.file content) := by
  simp [seen?, Node.seen_eq_file_iff]

theorem seen?_eq_directory_iff :
    l.seen? names = some .directory ↔ ∃ inner, (Node.dir l).get? names = some (.dir inner) := by
  simp only [seen?, Option.map_eq_some_iff, Node.seen_eq_directory_iff]
  constructor
  · rintro ⟨node, hget, inner, rfl⟩
    exact ⟨inner, hget⟩
  · rintro ⟨inner, hget⟩
    exact ⟨_, hget, inner, rfl⟩

/-- What is seen behind a directory is seen in its listing. -/
theorem seen?_append {inner : Listing} (h : (Node.dir l).get? names = some (.dir inner))
    (more : List Bytes) : l.seen? (names ++ more) = inner.seen? more := by
  rw [seen?, Node.get?_append, h]
  rfl

/-- Something is seen behind a place only if that place is a directory. -/
theorem seen?_eq_directory_of_append (hmore : more ≠ [])
    (h : l.seen? (names ++ more) ≠ none) : l.seen? names = some .directory := by
  rw [seen?, Node.get?_append] at h
  rw [seen?]
  obtain ⟨name, rest, rfl⟩ := List.exists_cons_of_ne_nil hmore
  cases hget : (Node.dir l).get? names with
  | none => simp [hget] at h
  | some node =>
    cases node with
    | file content => simp [hget, Node.get?] at h
    | dir inner => rfl

end Listing

namespace Disk

variable {d d' : Disk} {p q : Path} {place next last : List Bytes} {piece : Bytes}
  {pieces : List Bytes} {content : Bytes}

/-- What is **seen** at a place. -/
def seen? (d : Disk) (place : List Bytes) : Option Seen :=
  d.root.seen? place

theorem seen?_eq_file_iff :
    d.seen? place = some (.file content) ↔ d.node? place = some (.file content) :=
  Listing.seen?_eq_file_iff

theorem seen?_eq_directory_iff :
    d.seen? place = some .directory ↔ ∃ inner, d.node? place = some (.dir inner) :=
  Listing.seen?_eq_directory_iff

theorem seen?_eq_none_iff : d.seen? place = none ↔ d.node? place = none := by
  simp [seen?, Listing.seen?, node?]

/-- Above a directory there are directories only. -/
theorem seen?_dropLast (h : d.seen? place = some .directory) :
    d.seen? place.dropLast = some .directory := by
  rcases List.eq_nil_or_concat place with rfl | ⟨before, name, rfl⟩
  · exact h
  · rw [List.concat_eq_append, List.dropLast_concat]
    rw [List.concat_eq_append] at h
    exact Listing.seen?_eq_directory_of_append (List.cons_ne_nil name []) (by rw [← seen?, h]; simp)

/-! ### Following pieces -/

/-- The place that a piece leads to from a directory. -/
def follow (place : List Bytes) (piece : Bytes) : List Bytes :=
  if piece = [] ∨ piece = [Byte.dot] then place
  else if piece = [Byte.dot, Byte.dot] then place.dropLast
  else place ++ [piece]

/-- **A piece is followed from a directory**, and from nothing else. -/
theorem enter_eq_ok_iff :
    d.enter place piece = .ok next ↔
      d.seen? place = some .directory ∧ next = follow place piece := by
  rw [enter, seen?_eq_directory_iff, follow]
  cases d.node? place with
  | none => simp
  | some node =>
    cases node with
    | file content => simp
    | dir inner =>
      simp only [Option.some.injEq, Node.dir.injEq, exists_eq', true_and]
      split
      · simp [eq_comm]
      · split <;> simp [eq_comm]

/-- Where a path leads depends on the directories alone. -/
theorem foldlM_enter_congr
    (hdirs : ∀ place, d.seen? place = some .directory ↔ d'.seen? place = some .directory) :
    pieces.foldlM d.enter place = .ok last ↔ pieces.foldlM d'.enter place = .ok last := by
  induction pieces using List.reverseRecOn generalizing last with
  | nil => rfl
  | append_singleton pieces piece ih =>
    simp only [foldlM_enter_concat, enter_eq_ok_iff, ih, hdirs]

/-- **A path leads to a place** when its pieces can be followed there. -/
def LeadsTo (d : Disk) (p : Path) (place : List Bytes) : Prop :=
  check p = .ok () ∧ p.pieces.foldlM d.enter (d.start p) = .ok place

/-- A path leads to one place. -/
theorem LeadsTo.unique (h : d.LeadsTo p place) (h' : d.LeadsTo p last) : place = last :=
  Except.ok.inj (h.2.symm.trans h'.2)

/-- Where paths lead is a matter of the directories alone. -/
theorem leadsTo_congr (hcwd : d.cwd = d'.cwd)
    (hdirs : ∀ place, d.seen? place = some .directory ↔ d'.seen? place = some .directory) :
    d.LeadsTo p place ↔ d'.LeadsTo p place := by
  have hstart : d.start p = d'.start p := by rw [start, start, hcwd]
  rw [LeadsTo, LeadsTo, hstart, foldlM_enter_congr hdirs]

/-- A path is resolved to what stands at the place it leads to. -/
theorem resolve_eq_ok_iff_leadsTo {node : Node} :
    d.resolve p = .ok node ↔ ∃ place, d.LeadsTo p place ∧ d.node? place = some node := by
  simp only [resolve_eq_ok_iff, LeadsTo, and_assoc, exists_and_left]

/-- A path is resolved to a file exactly when one is seen where it leads. -/
theorem resolve_eq_file_iff :
    d.resolve p = .ok (.file content) ↔
      ∃ place, d.LeadsTo p place ∧ d.seen? place = some (.file content) := by
  simp only [resolve_eq_ok_iff_leadsTo, seen?_eq_file_iff]

/-- A path leads to a file exactly when the file is seen at the place it leads to. -/
theorem LeadsTo.resolve_eq_file_iff (h : d.LeadsTo p place) :
    d.resolve p = .ok (.file content) ↔ d.seen? place = some (.file content) := by
  rw [Disk.resolve_eq_file_iff]
  constructor
  · rintro ⟨other, hother, hseen⟩
    rwa [h.unique hother]
  · exact fun hseen => ⟨place, h, hseen⟩

/-- A path is a directory exactly when one is seen where it leads. -/
theorem isDir_iff :
    d.isDir p = true ↔ ∃ place, d.LeadsTo p place ∧ d.seen? place = some .directory := by
  have hdir : d.isDir p = true ↔ ∃ inner, d.resolve p = .ok (.dir inner) := by
    rw [isDir]
    cases d.resolve p with
    | error refusal => simp
    | ok node => cases node <;> simp
  simp only [hdir, resolve_eq_ok_iff_leadsTo, seen?_eq_directory_iff]
  constructor
  · rintro ⟨inner, place, hlead, hnode⟩
    exact ⟨place, hlead, inner, hnode⟩
  · rintro ⟨place, hlead, inner, hnode⟩
    exact ⟨inner, place, hlead, hnode⟩

end Disk

/-! ### Names at the end of a path -/

namespace Path

variable {p : Path} {name : Bytes} {pieces : List Bytes}

/-- A last piece that is a proper name is the file name. -/
theorem fileName?_of_pieces_eq (hname : IsEntryName name) (h : p.pieces = pieces ++ [name]) :
    p.fileName? = some name := by
  have hlast : p.names.getLast? = some name := by
    simp [names, h, hname.ne_nil, hname.ne_dot]
  rw [fileName?, hlast]
  simp [hname.ne_dotDot]

theorem intercalate_concat (sep : Bytes) (hpieces : pieces ≠ []) (piece : Bytes) :
    sep.intercalate (pieces ++ [piece]) = sep.intercalate pieces ++ sep ++ piece := by
  induction pieces with
  | nil => contradiction
  | cons front rest ih =>
    by_cases hrest : rest = []
    · simp [hrest]
    · rw [List.cons_append, List.intercalate_cons_of_ne_nil (by simp), ih hrest,
        List.intercalate_cons_of_ne_nil hrest]
      simp

/-- A path ends in a separator exactly when its last piece is empty. -/
theorem getLast?_eq_slash_iff (hp : p.bytes ≠ []) (h : p.pieces = pieces ++ [name]) :
    p.bytes.getLast? = some Byte.slash ↔ name = [] := by
  constructor
  · intro hslash
    obtain ⟨bytes, hbytes⟩ := List.getLast?_eq_some_iff.mp hslash
    rw [Path.pieces, hbytes, List.splitOn_append_cons_self, List.splitOn_nil] at h
    exact (List.singleton_inj.mp (List.append_inj_right' h rfl)).symm
  · rintro rfl
    have hbytes : p.bytes = [Byte.slash].intercalate (pieces ++ [[]]) := by
      rw [← h, Path.pieces, List.intercalate_splitOn]
    by_cases hpieces : pieces = []
    · exact absurd (by simpa [hpieces] using hbytes) hp
    · rw [hbytes, intercalate_concat _ hpieces]
      simp

end Path

namespace Disk

variable {d d' : Disk} {p : Path} {place : List Bytes}

/-- **A path that does not lead to a directory ends in a proper name.** Its other pieces lead to the
directory that this name belongs to. -/
theorem LeadsTo.exists_name (h : d.LeadsTo p place) (hplace : d.seen? place ≠ some .directory) :
    ∃ parent name pieces, place = parent ++ [name] ∧ IsEntryName name ∧
      p.pieces = pieces ++ [name] ∧ pieces.foldlM d.enter (d.start p) = .ok parent ∧
      d.seen? parent = some .directory := by
  obtain ⟨hcheck, hfold⟩ := h
  obtain ⟨-, hnul, -⟩ := check_eq_ok_iff.mp hcheck
  rcases List.eq_nil_or_concat p.pieces with hnil | ⟨pieces, name, hpieces⟩
  · exact absurd hnil (List.splitOn_ne_nil Byte.slash p.bytes)
  · rw [List.concat_eq_append] at hpieces
    rw [hpieces, foldlM_enter_concat] at hfold
    obtain ⟨parent, hparent, henter⟩ := hfold
    obtain ⟨hdir, rfl⟩ := enter_eq_ok_iff.mp henter
    have hmem : name ∈ p.pieces := by simp [hpieces]
    obtain ⟨hslash, hsub⟩ := of_mem_splitOn hmem
    -- a piece that is no name stays in the directory or goes up to another one
    rw [follow] at hplace ⊢
    split at hplace
    · exact absurd hdir hplace
    · next hstay =>
      rw [not_or] at hstay
      rw [if_neg (not_or.mpr hstay)]
      split at hplace
      · exact absurd (seen?_dropLast hdir) hplace
      · next hup =>
        rw [if_neg hup]
        exact ⟨parent, name, pieces, rfl,
          ⟨hstay.1, hstay.2, hup, hslash, fun hmem => hnul (hsub hmem)⟩, hpieces, hparent, hdir⟩

/-- A path that leads to anything but a directory ends with its name. -/
theorem LeadsTo.fileName? (h : d.LeadsTo p place) (hplace : d.seen? place ≠ some .directory) :
    p.fileName? = place.getLast? := by
  obtain ⟨parent, name, pieces, rfl, hname, hpieces, -, -⟩ := h.exists_name hplace
  rw [Path.fileName?_of_pieces_eq hname hpieces, List.getLast?_concat]

/-- A path that ends in a separator can only name a directory. -/
theorem target_ne_ok_of_slash (h : p.bytes.getLast? = some Byte.slash) :
    d.target p ≠ .ok place := by
  rw [target]
  cases check p with
  | error refusal => simp [bind, Except.bind]
  | ok u =>
    simp only [bind, Except.bind, h, or_true, if_true]
    split
    · simp [throw, throwThe, MonadExceptOf.throw]
    · split <;> simp [throw, throwThe, MonadExceptOf.throw]

/-- An empty last piece, which a solidus at the end leaves, asks for a directory. -/
theorem foldlM_enter_concat_nil {pieces parent : List Bytes} :
    (pieces ++ [[]]).foldlM d.enter place = .ok parent ↔
      pieces.foldlM d.enter place = .ok parent ∧ d.seen? parent = some .directory := by
  simp only [foldlM_enter_concat, enter_eq_ok_iff, follow, true_or, if_true]
  constructor
  · rintro ⟨next, hfold, hdir, rfl⟩
    exact ⟨hfold, hdir⟩
  · rintro ⟨hfold, hdir⟩
    exact ⟨parent, hfold, hdir, rfl⟩

/-- A path whose last piece is not empty is written to under that name, in the directory that the
other pieces lead to. -/
theorem target_eq_ok_iff_of_pieces_eq {pieces : List Bytes} {name : Bytes}
    (hcheck : check p = .ok ()) (hpieces : p.pieces = pieces ++ [name]) (hname : name ≠ []) :
    d.target p = .ok place ↔
      ∃ parent, pieces.foldlM d.enter (d.start p) = .ok parent ∧ d.seen? parent = some .directory ∧
        name ≠ [Byte.dot] ∧ name ≠ [Byte.dot, Byte.dot] ∧ place = parent ++ [name] ∧
        d.seen? (parent ++ [name]) ≠ some .directory ∧
        (d.seen? (parent ++ [name]) = none → name.length ≤ nameLimit) := by
  have hslash : ¬ p.bytes.getLast? = some Byte.slash := fun h =>
    hname ((Path.getLast?_eq_slash_iff (check_eq_ok_iff.mp hcheck).1 hpieces).mp h)
  have hdrop : (p.pieces.reverse.dropWhile (· == [])).reverse = pieces ++ [name] := by
    simp [hpieces, hname]
  rw [target, hcheck]
  simp only [hdrop, hslash, List.getLast?_concat, List.dropLast_concat, bind, Except.bind, or_false]
  -- the empty piece at the end is followed only from a directory
  cases hfold : (pieces ++ [[]]).foldlM d.enter (d.start p) with
  | error refusal =>
    simp only [reduceCtorEq, false_iff]
    rintro ⟨parent, hparent, hdir, -⟩
    rw [foldlM_enter_concat_nil.mpr ⟨hparent, hdir⟩] at hfold
    contradiction
  | ok parent =>
    obtain ⟨hparent, hdir⟩ := foldlM_enter_concat_nil.mp hfold
    simp only [hparent, Except.ok.injEq, exists_eq_left', hdir, true_and]
    split
    · next hdots =>
      simp only [throw, throwThe, MonadExceptOf.throw, reduceCtorEq, false_iff]
      rintro ⟨hdot, hdotDot, -⟩
      exact hdots.elim hdot hdotDot
    · next hdots =>
      rw [not_or] at hdots
      have hseen : d.seen? (parent ++ [name]) = (d.node? (parent ++ [name])).map Node.seen := rfl
      simp only [hdots, ne_eq, not_false_eq_true, true_and, hseen]
      cases d.node? (parent ++ [name]) with
      | none =>
        by_cases hlong : nameLimit < name.length
        · simp [hlong, throw, throwThe, MonadExceptOf.throw]
        · simp [hlong, Nat.not_lt.mp hlong, pure, Except.pure, eq_comm]
      | some node =>
        cases node <;>
          simp [pure, Except.pure, throw, throwThe, MonadExceptOf.throw, eq_comm]

/-- **The place that a file is written to** is the place that its path leads to, if there is no
directory; and a file that is not there yet needs a name of a length that can be made. -/
theorem target_eq_ok_iff :
    d.target p = .ok place ↔
      d.LeadsTo p place ∧ d.seen? place ≠ some .directory ∧
        (d.seen? place = none → ∀ name ∈ place.getLast?, name.length ≤ nameLimit) := by
  constructor
  · intro h
    cases hcheck : check p with
    | error refusal => simp [target, hcheck, bind, Except.bind] at h
    | ok u =>
      rcases List.eq_nil_or_concat p.pieces with hnil | ⟨pieces, name, hpieces⟩
      · exact absurd hnil (List.splitOn_ne_nil Byte.slash p.bytes)
      · rw [List.concat_eq_append] at hpieces
        have hname : name ≠ [] := fun hempty => target_ne_ok_of_slash
          ((Path.getLast?_eq_slash_iff (check_eq_ok_iff.mp hcheck).1 hpieces).mpr hempty) h
        obtain ⟨parent, hfold, hdir, hdot, hdotDot, rfl, hplace, hlength⟩ :=
          (target_eq_ok_iff_of_pieces_eq hcheck hpieces hname).mp h
        refine ⟨⟨hcheck, ?_⟩, hplace, by simpa using hlength⟩
        rw [hpieces]
        refine foldlM_enter_concat.mpr ⟨parent, hfold, enter_eq_ok_iff.mpr ⟨hdir, ?_⟩⟩
        rw [follow, if_neg (not_or.mpr ⟨hname, hdot⟩), if_neg hdotDot]
  · rintro ⟨hlead, hplace, hlength⟩
    obtain ⟨parent, name, pieces, rfl, hname, hpieces, hfold, hdir⟩ := hlead.exists_name hplace
    exact (target_eq_ok_iff_of_pieces_eq hlead.1 hpieces hname.ne_nil).mpr
      ⟨parent, hfold, hdir, hname.ne_dot, hname.ne_dotDot, rfl, hplace, by simpa using hlength⟩

end Disk

end ScriptTags
