import ScriptTags.Disk.Collect

/-!
# Joining names to a path

A walk reaches an entry by joining its name to the path of its directory. This module says what the
views of such a path are, for the names that an entry can have (`IsEntryName`): a joined name is
**one piece more**, in place of the empty piece if the path ends in a separator
(`Path.exists_pieces_join`); it is the last component and the file name; and it alone decides
whether the path is skipped. Names are joined one after another by `Path.joinAll`, which never makes
a path shorter.

Joining any relative path puts its names behind those of the directory
(`Path.names_join_of_relative`), so a path with a file name keeps it
(`Path.fileName?_join_of_ne_none`).
-/

namespace ScriptTags

/-- A byte string that can be the **name of an entry** in a directory. -/
structure IsEntryName (name : Bytes) : Prop where
  ne_nil : name ≠ []
  ne_dot : name ≠ [Byte.dot]
  ne_dotDot : name ≠ [Byte.dot, Byte.dot]
  slash_notMem : Byte.slash ∉ name
  nul_notMem : 0 ∉ name

instance (name : Bytes) : Decidable (IsEntryName name) :=
  decidable_of_iff (name ≠ [] ∧ name ≠ [Byte.dot] ∧ name ≠ [Byte.dot, Byte.dot] ∧
      Byte.slash ∉ name ∧ 0 ∉ name)
    ⟨fun ⟨h₁, h₂, h₃, h₄, h₅⟩ => ⟨h₁, h₂, h₃, h₄, h₅⟩,
      fun ⟨h₁, h₂, h₃, h₄, h₅⟩ => ⟨h₁, h₂, h₃, h₄, h₅⟩⟩

namespace Path

variable {p : Path} {name : Bytes}

/-- The path that **names** lead to from `p`, joined one after another. -/
def joinAll (p : Path) (names : List Bytes) : Path :=
  names.foldl (fun p name => p.join ⟨name⟩) p

@[simp]
theorem joinAll_nil (p : Path) : p.joinAll [] = p :=
  rfl

@[simp]
theorem joinAll_cons (p : Path) (name : Bytes) (names : List Bytes) :
    p.joinAll (name :: names) = (p.join ⟨name⟩).joinAll names :=
  rfl

theorem isAbsolute_of_slash_notMem (h : Byte.slash ∉ name) :
    (⟨name⟩ : Path).isAbsolute = false := by
  cases name with
  | nil => rfl
  | cons b name =>
    have hb : b ≠ Byte.slash := fun hb => h (hb ▸ List.mem_cons_self)
    simpa [isAbsolute] using hb

/-- A separator is set between a path and a name unless the path has one there. -/
theorem join_eq_of_entry (hname : IsEntryName name) (p : Path) :
    p.join ⟨name⟩ =
      if p.bytes = [] ∨ p.bytes.getLast? = some Byte.slash then ⟨p.bytes ++ name⟩
      else ⟨p.bytes ++ Byte.slash :: name⟩ := by
  simp [join, isAbsolute_of_slash_notMem hname.slash_notMem]

theorem join_of_bytes_eq_nil (hname : IsEntryName name) (hp : p.bytes = []) :
    p.join ⟨name⟩ = ⟨name⟩ := by
  rw [join_eq_of_entry hname, if_pos (.inl hp), hp, List.nil_append]

theorem isAbsolute_join (hname : IsEntryName name) (hp : p.bytes ≠ []) :
    (p.join ⟨name⟩).isAbsolute = p.isAbsolute := by
  obtain ⟨b, bytes, hb⟩ := List.exists_cons_of_ne_nil hp
  rw [join_eq_of_entry hname]
  split <;> simp [isAbsolute, hb]

/-- Every name makes a path longer. -/
theorem length_lt_length_join (hname : IsEntryName name) (p : Path) :
    p.bytes.length < (p.join ⟨name⟩).bytes.length := by
  have hpos : 0 < name.length := List.length_pos_iff.mpr hname.ne_nil
  rw [join_eq_of_entry hname]
  split <;> simp [hpos]

/-- **One piece more.** The name is the last piece, after all pieces of the path but an empty one at
its end. -/
theorem exists_pieces_join (hname : IsEntryName name) (hp : p.bytes ≠ []) :
    ∃ pieces, (p.pieces = pieces ++ [[]] ∨ p.pieces = pieces) ∧
      (p.join ⟨name⟩).pieces = pieces ++ [name] := by
  have hlast := List.splitOn_eq_singleton hname.slash_notMem
  rw [join_eq_of_entry hname]
  by_cases hslash : p.bytes.getLast? = some Byte.slash
  · obtain ⟨bytes, hbytes⟩ := List.getLast?_eq_some_iff.mp hslash
    refine ⟨bytes.splitOn Byte.slash, .inl ?_, ?_⟩
    · rw [pieces, hbytes, List.splitOn_append_cons_self]
      rfl
    · rw [if_pos (.inr hslash), pieces, hbytes, List.append_assoc, List.singleton_append,
        List.splitOn_append_cons_self, hlast]
  · refine ⟨p.pieces, .inr rfl, ?_⟩
    rw [if_neg (not_or.mpr ⟨hp, hslash⟩), pieces, List.splitOn_append_cons_self, hlast]
    rfl

/-- A separator sets the names before it off from those after it. -/
theorem names_append_slash (before after : Bytes) :
    (⟨before ++ Byte.slash :: after⟩ : Path).names =
      (⟨before⟩ : Path).names ++ (⟨after⟩ : Path).names := by
  rw [names, pieces, List.splitOn_append_cons_self, List.filter_append]
  rfl

/-- **The names of a joined path** are those of its two parts, one after the other. -/
theorem names_join_of_relative {q : Path} (hq : q.isAbsolute = false) (p : Path) :
    (p.join q).names = p.names ++ q.names := by
  have hempty : (⟨[]⟩ : Path).names = [] := rfl
  rw [join, if_neg (by simp [hq])]
  by_cases hp : p.bytes = []
  · rw [if_pos (.inl hp), hp, List.nil_append, show p = ⟨[]⟩ from congrArg mk hp, hempty,
      List.nil_append]
  by_cases hslash : p.bytes.getLast? = some Byte.slash
  · obtain ⟨bytes, hbytes⟩ := List.getLast?_eq_some_iff.mp hslash
    have hnames : p.names = (⟨bytes⟩ : Path).names := by
      rw [show p = ⟨bytes ++ Byte.slash :: []⟩ from congrArg mk hbytes, names_append_slash, hempty,
        List.append_nil]
    rw [if_pos (.inr hslash), hbytes, List.append_assoc, List.singleton_append, names_append_slash,
      hnames]
  · rw [if_neg (not_or.mpr ⟨hp, hslash⟩), names_append_slash]

/-- **A path that has a file name keeps it** in whatever directory it is put. -/
theorem fileName?_join_of_ne_none {q : Path} (hq : q.fileName? ≠ none) (p : Path) :
    (p.join q).fileName? = q.fileName? := by
  cases habs : q.isAbsolute with
  | true => rw [join, if_pos habs]
  | false =>
    obtain ⟨last, hlast⟩ : ∃ last, q.names.getLast? = some last := by
      cases hlast : q.names.getLast? with
      | none => exact absurd (by rw [fileName?, hlast]) hq
      | some last => exact ⟨last, rfl⟩
    rw [fileName?, fileName?, names_join_of_relative habs, List.getLast?_append, hlast,
      Option.some_or]

/-- A name by itself is its only name. -/
theorem names_entry (hname : IsEntryName name) : (⟨name⟩ : Path).names = [name] := by
  rw [names, pieces, List.splitOn_eq_singleton hname.slash_notMem]
  simp [hname.ne_nil, hname.ne_dot]

theorem fileName?_entry (hname : IsEntryName name) : (⟨name⟩ : Path).fileName? = some name := by
  simp [fileName?, names_entry hname, hname.ne_dotDot]

/-- A joined name is the last of the names. -/
theorem names_join (hname : IsEntryName name) (p : Path) :
    (p.join ⟨name⟩).names = p.names ++ [name] := by
  rw [names_join_of_relative (isAbsolute_of_slash_notMem hname.slash_notMem), names_entry hname]

/-- Names are joined one after another. -/
theorem names_joinAll {names : List Bytes} (hnames : ∀ name ∈ names, IsEntryName name) (p : Path) :
    (p.joinAll names).names = p.names ++ names := by
  induction names generalizing p with
  | nil => rw [joinAll_nil, List.append_nil]
  | cons name names ih =>
    rw [List.forall_mem_cons] at hnames
    rw [joinAll_cons, ih hnames.2, names_join hnames.1, List.append_assoc, List.singleton_append]

theorem fileName?_join (hname : IsEntryName name) (p : Path) :
    (p.join ⟨name⟩).fileName? = some name := by
  have hself := fileName?_entry hname
  rw [fileName?_join_of_ne_none (by simp [hself]), hself]

/-- The file name of a joined path is the last of the names. -/
theorem fileName?_joinAll {names : List Bytes} (hnames : ∀ name ∈ names, IsEntryName name)
    (hne : names ≠ []) (p : Path) : (p.joinAll names).fileName? = names.getLast? := by
  rcases List.eq_nil_or_concat names with rfl | ⟨before, last, rfl⟩
  · contradiction
  · have hlast : IsEntryName last := hnames last (by simp)
    have hjoin : p.joinAll (before ++ [last]) = (p.joinAll before).join ⟨last⟩ := by simp [joinAll]
    rw [List.concat_eq_append, hjoin, fileName?_join hlast, List.getLast?_concat]

/-- Whether a walk skips an entry depends on its name alone. -/
theorem isSkipped_join (hname : IsEntryName name) (p : Path) :
    (p.join ⟨name⟩).isSkipped = (⟨name⟩ : Path).isSkipped := by
  rw [isSkipped, isSkipped, fileName?_join hname, fileName?_entry hname]

/-- A path does not become shorter by names. -/
theorem length_le_length_joinAll {names : List Bytes} (hnames : ∀ name ∈ names, IsEntryName name)
    (p : Path) : p.bytes.length ≤ (p.joinAll names).bytes.length := by
  induction names generalizing p with
  | nil => exact Nat.le_refl _
  | cons name names ih =>
    rw [List.forall_mem_cons] at hnames
    calc p.bytes.length
        ≤ (p.join ⟨name⟩).bytes.length := Nat.le_of_lt (length_lt_length_join hnames.1 p)
      _ ≤ ((p.join ⟨name⟩).joinAll names).bytes.length := ih hnames.2 (p.join ⟨name⟩)

theorem isTooLong_of_joinAll {names : List Bytes} (hnames : ∀ name ∈ names, IsEntryName name)
    (h : (p.joinAll names).isTooLong = false) : p.isTooLong = false := by
  have hle := length_le_length_joinAll hnames p
  simp only [isTooLong, decide_eq_false_iff_not] at h ⊢
  omega

end Path

end ScriptTags
