import ScriptTags.Proofs.Collecting
import ScriptTags.Proofs.Encoding

/-!
# Hidden entries

An entry is **hidden** when the first byte of its name is a full stop. A walk looks for the full
stop in the text of the name, and a name need not be text. For a name that is, the text starts with
a full stop exactly when the bytes do, so the entry is left out (`Path.isSkipped_iff`); for a name
that is not, nothing is looked at, and the entry is walked like any other.

The main statement draws the line there (`Disk.collect_hidden_iff`). A hidden name on a collected
path is never text, and a walk collects nothing hidden exactly when no script within its reach has a
hidden name on its way that is not text. The disk `hiddenNames` has both kinds of names.
-/

namespace ScriptTags

/-- A name is **hidden** when its first byte is a full stop. -/
def IsHidden (name : Bytes) : Prop :=
  name.head? = some Byte.dot

instance : DecidablePred IsHidden := fun name =>
  inferInstanceAs (Decidable (name.head? = some Byte.dot))

/-! ### Names that are text -/

/-- A list of optional values gives all of them only if none is missing. -/
theorem eq_map_some_of_mapM_id {α : Type} {found : List (Option α)} {values : List α}
    (h : found.mapM id = some values) : found = values.map some := by
  induction found generalizing values with
  | nil =>
    obtain rfl : [] = values := Option.some.inj h
    rfl
  | cons first found ih =>
    rw [List.mapM_cons] at h
    obtain ⟨value, hvalue, hrest⟩ := Option.bind_eq_some_iff.mp h
    obtain ⟨others, hothers, hcons⟩ := Option.bind_eq_some_iff.mp hrest
    obtain rfl : first = some value := hvalue
    obtain rfl : value :: others = values := Option.some.inj hcons
    rw [ih hothers, List.map_cons]

/-- Where strict decoding gives a text, nothing is replaced, and lossy decoding gives the same. -/
theorem Utf8.decodeLossy_of_decode? {bytes : Bytes} {text : String}
    (h : decode? bytes = some text) : decodeLossy bytes = text := by
  rw [decode?, Option.map_eq_some_iff] at h
  obtain ⟨chars, hchars, rfl⟩ := h
  rw [decodeLossy, eq_map_some_of_mapM_id hchars, List.map_map]
  exact congrArg String.ofList (List.map_id chars)

/-- The text of a name starts with a full stop exactly when the name is hidden. -/
theorem head?_eq_dot_iff_isHidden {name : Bytes} {text : String}
    (h : Utf8.decode? name = some text) : text.toList.head? = some '.' ↔ IsHidden name := by
  rw [← Utf8.decodeLossy_of_decode? h]
  exact Utf8.head?_decodeLossy_eq_some_iff (b := Byte.dot) (by decide)

namespace Path

variable {name : Bytes}

/-- **What a walk skips**: the names that are text, if they are hidden or those of tool
directories. -/
theorem isSkipped_iff (hname : IsEntryName name) :
    (⟨name⟩ : Path).isSkipped = true ↔
      ∃ text, Utf8.decode? name = some text ∧ (IsHidden name ∨ text ∈ toolDirectories) := by
  rw [isSkipped, fileName?_entry hname, Option.bind_some]
  cases hdecode : Utf8.decode? name with
  | none => simp
  | some text =>
    have hhead := head?_eq_dot_iff_isHidden hdecode
    simp [skipsName, hhead]

/-- The **names of a path below a directory**: those behind the names of the directory. -/
def below (path dir : Path) : List Bytes :=
  path.names.drop dir.names.length

theorem below_joinAll {names : List Bytes} (hnames : ∀ name ∈ names, IsEntryName name)
    (dir : Path) : (dir.joinAll names).below dir = names := by
  rw [below, names_joinAll hnames, List.drop_left]

end Path

/-! ### Hidden names in a walk -/

namespace Listing

variable {l : Listing} {levels : Nat} {names : List Bytes} {name content : Bytes}

/-- **A hidden name within a walk is not text.** -/
theorem Reaches.decode?_eq_none (h : l.Reaches levels names content) (hl : l.WellFormed)
    (hmem : name ∈ names) (hhidden : IsHidden name) : Utf8.decode? name = none := by
  have hname : IsEntryName name := (hl.of_get? h.get?_eq).1 name hmem
  have hskip := h.not_skipped name hmem
  cases hdecode : Utf8.decode? name with
  | none => rfl
  | some text =>
    have hskipped := (Path.isSkipped_iff hname).mpr ⟨text, hdecode, .inl hhidden⟩
    rw [hskip] at hskipped
    contradiction

end Listing

namespace Disk

variable {d : Disk} {config : Config} {dir path : Path} {limit : UInt64}

/-- What is collected lies behind names that the walk has entered, and these are its names below the
directory of the walk. -/
theorem exists_reaches_of_mem_collect (hroot : d.root.WellFormed)
    (h : path ∈ d.collect config dir limit) :
    ∃ inner content, inner.WellFormed ∧ d.list dir = .ok inner ∧
      inner.Reaches limit.toNat (path.below dir) content ∧
      path = dir.joinAll (path.below dir) ∧ path.isTooLong = false ∧
      config.isScript path content = true := by
  obtain ⟨inner, names, content, hlist, hreach, rfl, hshort, hscript⟩ :=
    (mem_collect_iff hroot).mp h
  have hinner : inner.WellFormed := wellFormed_of_resolve hroot (list_eq_ok_iff.mp hlist)
  have hbelow := Path.below_joinAll (hinner.of_get? hreach.get?_eq).1 dir
  exact ⟨inner, content, hinner, hlist, by rwa [hbelow], by rw [hbelow], hshort, hscript⟩

/-- **Hidden entries that are text are never collected**, and those that are not text are no
different from others: a walk collects nothing with a hidden name on its way exactly when no script
within its reach has a hidden name there that is not text. -/
theorem collect_hidden_iff (hroot : d.root.WellFormed) (config : Config) (dir : Path)
    (limit : UInt64) :
    (∀ path ∈ d.collect config dir limit, ∀ name ∈ path.below dir,
      IsHidden name → Utf8.decode? name = none) ∧
    ((∀ path ∈ d.collect config dir limit, ∀ name ∈ path.below dir, ¬ IsHidden name) ↔
      ∀ inner names content, d.list dir = .ok inner →
        inner.Reaches limit.toNat names content → (dir.joinAll names).isTooLong = false →
        config.isScript (dir.joinAll names) content = true →
        ∀ name ∈ names, ¬ (IsHidden name ∧ Utf8.decode? name = none)) := by
  have hnotText : ∀ path ∈ d.collect config dir limit, ∀ name ∈ path.below dir,
      IsHidden name → Utf8.decode? name = none := by
    intro path hpath name hname hhidden
    obtain ⟨inner, content, hinner, -, hreach, -⟩ := exists_reaches_of_mem_collect hroot hpath
    exact hreach.decode?_eq_none hinner hname hhidden
  refine ⟨hnotText, fun h inner names content hlist hreach hshort hscript name hname hhidden => ?_,
    fun h path hpath name hname hhidden => ?_⟩
  · have hmem : dir.joinAll names ∈ d.collect config dir limit :=
      (mem_collect_iff hroot).mpr ⟨inner, names, content, hlist, hreach, rfl, hshort, hscript⟩
    have hinner : inner.WellFormed := wellFormed_of_resolve hroot (list_eq_ok_iff.mp hlist)
    have hbelow := Path.below_joinAll (hinner.of_get? hreach.get?_eq).1 dir
    exact h _ hmem name (by rwa [hbelow]) hhidden.1
  · obtain ⟨inner, content, -, hlist, hreach, hjoin, hshort, hscript⟩ :=
      exists_reaches_of_mem_collect hroot hpath
    rw [hjoin] at hshort hscript
    exact h inner _ content hlist hreach hshort hscript name hname
      ⟨hhidden, hnotText path hpath name hname hhidden⟩

/-- A disk with a directory `d`, in which two scripts lie that are hidden: one by a name that is
text, and one in a directory whose name is not. -/
def hiddenNames : Disk :=
  { root := .dir (Bytes.ofAscii "d") (.file (Bytes.ofAscii ".a.sh") []
      (.dir [Byte.dot, 0xFF] (.file (Bytes.ofAscii "b.sh") [] .nil) .nil)) .nil }

theorem collect_hidden_iff_hiddenNames :
    hiddenNames.root.WellFormed ∧
    (⟨Bytes.ofAscii "d/.a.sh"⟩ : Path).below ⟨Bytes.ofAscii "d"⟩ = [Bytes.ofAscii ".a.sh"] ∧
    ⟨Bytes.ofAscii "d/.a.sh"⟩ ∉ hiddenNames.collect {} ⟨Bytes.ofAscii "d"⟩ 1 := by
  have hroot : hiddenNames.root.WellFormed := by decide
  have hbelow : (⟨Bytes.ofAscii "d/.a.sh"⟩ : Path).below ⟨Bytes.ofAscii "d"⟩ =
      [Bytes.ofAscii ".a.sh"] := by decide
  refine ⟨hroot, hbelow, fun hmem => ?_⟩
  have hnone := (collect_hidden_iff hroot {} ⟨Bytes.ofAscii "d"⟩ 1).1 _ hmem
    (Bytes.ofAscii ".a.sh") (hbelow ▸ List.mem_singleton_self _) (by decide)
  exact absurd hnone (by decide)

/-- **A hidden entry that is collected.** The directory is hidden and its name is not text, and the
walk goes through it to the script. -/
theorem not_forall_collect_not_isHidden :
    hiddenNames.root.WellFormed ∧
    ¬ ∀ path ∈ hiddenNames.collect {} ⟨Bytes.ofAscii "d"⟩ 1,
      ∀ name ∈ path.below ⟨Bytes.ofAscii "d"⟩, ¬ IsHidden name := by
  have hroot : hiddenNames.root.WellFormed := by decide
  have hscript : Path.joinAll ⟨Bytes.ofAscii "d"⟩ [[Byte.dot, 0xFF], Bytes.ofAscii "b.sh"] ∈
      hiddenNames.collect {} ⟨Bytes.ofAscii "d"⟩ 1 :=
    (mem_collect_iff hroot).mpr ⟨_, _, [], rfl, ⟨rfl, by decide, by decide⟩, rfl, by decide,
      by decide⟩
  refine ⟨hroot, fun h => h _ hscript [Byte.dot, 0xFF] (by decide) (by decide)⟩

end Disk

end ScriptTags
