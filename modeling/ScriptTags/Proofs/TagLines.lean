import ScriptTags.Proofs.Pieces
import ScriptTags.Proofs.SearchCommands
import ScriptTags.Proofs.TagOrder

/-!
# One line for every tag

A reader of tag files cuts the text at its line feeds and each line at its tabs (`Ctags.IsTagFile`):
four pseudo-tags, then one line for every tag, its name in the first field and its file in the
second. Names have no separators and patterns have no line feeds, whatever is scanned. **Files** are
written as they are given, and nothing in a tag file escapes them. So a tag file is one in this
sense exactly when no path of a script with tags has a tab or a line feed: a path that has one
shifts a field or breaks a line (`Ctags.IsTagFile.notMem_file`), and without them every line is
whole (`Ctags.isTagFile_text`).
-/

namespace ScriptTags.Ctags

/-- **What a reader takes a tag file for.** Every line is ended by a line feed; the first four are
pseudo-tags, and the others belong to the entries one by one, in some order, with the name in the
first field and the file in the second. -/
def IsTagFile (text : String) (es : List Entry) : Prop :=
  ∃ pseudo body : List (List Char), ∃ order : List Entry,
    text.toList.splitOn '\n' = pseudo ++ body ++ [[]] ∧
    pseudo.length = 4 ∧ (∀ line ∈ pseudo, "!_TAG_".toList <+: line) ∧
    order.Perm es ∧
    body.map (fun line => (line.splitOn '\t').take 2) =
      order.map fun e => [e.tag.name.toList, e.file.toList]

variable {text : String} {es : List Entry} {e : Entry} {files : List TagFile} {sorted : Bool}

/-! ### Files that break lines -/

/-- A field of a line has neither a tab nor a line feed. -/
theorem IsTagFile.notMem_file (h : IsTagFile text es) (he : e ∈ es) :
    '\t' ∉ e.file.toList ∧ '\n' ∉ e.file.toList := by
  obtain ⟨pseudo, body, order, hsplit, -, -, hperm, hfields⟩ := h
  have hmem : [e.tag.name.toList, e.file.toList] ∈
      body.map fun line => (line.splitOn '\t').take 2 := by
    rw [hfields]
    exact List.mem_map_of_mem (hperm.mem_iff.mpr he)
  obtain ⟨line, hline, htake⟩ := List.mem_map.mp hmem
  have hfield : e.file.toList ∈ line.splitOn '\t' := by
    refine List.mem_of_mem_take (i := 2) ?_
    rw [htake]
    simp
  have hpiece : line ∈ text.toList.splitOn '\n' := by
    rw [hsplit]
    simp [hline]
  obtain ⟨htab, hsub⟩ := of_mem_splitOn hfield
  exact ⟨htab, fun hlf => (of_mem_splitOn hpiece).1 (hsub hlf)⟩

/-! ### Files that do not -/

theorem lf_notMem_escape {pattern : List Char} (h : '\n' ∉ pattern) : '\n' ∉ escape pattern := by
  intro hmem
  obtain ⟨c, hc, hlf⟩ := List.mem_flatMap.mp hmem
  rw [escapeChar] at hlf
  split at hlf
  · next hspecial =>
    have hlf : '\n' = c := by simpa using hlf
    rw [← hlf] at hspecial
    exact absurd hspecial (by decide)
  · exact h (List.mem_singleton.mp hlf ▸ hc)

theorem lf_notMem_line (hname : IsFunctionName e.tag.name) (hfile : '\n' ∉ e.file.toList)
    (hpattern : '\n' ∉ e.tag.pattern.toList) : '\n' ∉ e.line := by
  have hname' : '\n' ∉ e.tag.name.toList := hname.notMem (by decide)
  have hpattern' := lf_notMem_escape hpattern
  have hletter : '\n' ≠ e.tag.kind.letter := by cases e.tag.kind; decide
  rw [line_eq]
  simp [hname', hfile, hpattern', hletter]

/-- The first two fields of a line. -/
theorem take_splitOn_line (hname : IsFunctionName e.tag.name) (hfile : '\t' ∉ e.file.toList) :
    (e.line.splitOn '\t').take 2 = [e.tag.name.toList, e.file.toList] := by
  have hname' : '\t' ∉ e.tag.name.toList := hname.notMem (by decide)
  obtain ⟨rest, hline⟩ : ∃ rest,
      e.line = e.tag.name.toList ++ '\t' :: (e.file.toList ++ '\t' :: rest) :=
    ⟨search e.tag.pattern ++ ";\"\t".toList ++ [e.tag.kind.letter], by simp [Entry.line]⟩
  rw [hline, List.splitOn_append_cons_self_of_not_mem hname',
    List.splitOn_append_cons_self_of_not_mem hfile]
  rfl

theorem length_header (sorted : Bool) : (header sorted).length = 4 :=
  rfl

theorem forall_mem_header (sorted : Bool) :
    ∀ line ∈ header sorted, "!_TAG_".toList <+: line ∧ '\n' ∉ line := by
  cases sorted <;> simp [header, programName, programVersion]

/-- Entries whose texts keep their lines and fields apart make a tag file. -/
theorem isTagFile_text (hnames : ∀ e ∈ entries files, IsFunctionName e.tag.name)
    (hpatterns : ∀ e ∈ entries files, '\n' ∉ e.tag.pattern.toList)
    (hfiles : ∀ e ∈ entries files, '\t' ∉ e.file.toList ∧ '\n' ∉ e.file.toList) (sorted : Bool) :
    IsTagFile (Ctags.text files sorted) (entries files) := by
  obtain ⟨order, hperm, hlines⟩ : ∃ order : List Entry, order.Perm (entries files) ∧
      lines files sorted = header sorted ++ order.map Entry.line := by
    cases sorted
    · exact ⟨entries files, .refl _, rfl⟩
    · exact ⟨sortEntries (entries files), sortEntries_perm _, rfl⟩
  have hlf : ∀ line ∈ lines files sorted, '\n' ∉ line := by
    intro line hline
    rw [hlines, List.mem_append, List.mem_map] at hline
    rcases hline with hhead | ⟨e, he, rfl⟩
    · exact (forall_mem_header sorted line hhead).2
    · rw [hperm.mem_iff] at he
      exact lf_notMem_line (hnames e he) (hfiles e he).2 (hpatterns e he)
  refine ⟨header sorted, order.map Entry.line, order, ?_, length_header sorted,
    fun line hline => (forall_mem_header sorted line hline).1, hperm, ?_⟩
  · rw [Ctags.text, String.toList_ofList, splitOn_flatMap_ended hlf, hlines]
  · rw [List.map_map]
    refine List.map_congr_left fun e he => ?_
    rw [hperm.mem_iff] at he
    exact take_splitOn_line (hnames e he) (hfiles e he).1

/-- The names and the patterns of extracted tags keep lines and fields apart. -/
theorem texts_of_mem_entries
    (hfiles : ∀ f ∈ files, ∃ config path content, extract config path content = .ok f)
    (he : e ∈ entries files) :
    IsFunctionName e.tag.name ∧ '\n' ∉ e.tag.pattern.toList := by
  obtain ⟨f, hf, -, htag⟩ := mem_entries_iff.mp he
  obtain ⟨config, path, content, h⟩ := hfiles f hf
  exact texts_of_extract h htag

/-- **A tag file has one line for every tag**, with the name and the file in their fields, exactly
when no path of a script with tags has a tab or a line feed. Nothing else that is scanned can add a
line or shift a field: no content, no configuration, and no path without these two. -/
theorem isTagFile_text_iff
    (hfiles : ∀ f ∈ files, ∃ config path content, extract config path content = .ok f)
    (sorted : Bool) :
    IsTagFile (Ctags.text files sorted) (entries files) ↔
      ∀ f ∈ files, f.tags ≠ [] → ∀ config path content, extract config path content = .ok f →
        0x09 ∉ path.bytes ∧ 0x0A ∉ path.bytes := by
  constructor
  · intro h f hf htags config path content hextract
    obtain ⟨tag, rest, htag⟩ := List.exists_cons_of_ne_nil htags
    have he : (⟨f.file, tag⟩ : Entry) ∈ entries files :=
      mem_entries_iff.mpr ⟨f, hf, rfl, by simp [htag]⟩
    obtain ⟨htab, hlf⟩ := h.notMem_file he
    exact ⟨fun hmem => htab ((mem_file_of_extract_iff hextract (by decide)).mpr hmem),
      fun hmem => hlf ((mem_file_of_extract_iff hextract (by decide)).mpr hmem)⟩
  · intro h
    refine isTagFile_text (fun e he => (texts_of_mem_entries hfiles he).1)
      (fun e he => (texts_of_mem_entries hfiles he).2) (fun e he => ?_) sorted
    obtain ⟨f, hf, hfile, htag⟩ := mem_entries_iff.mp he
    obtain ⟨config, path, content, hextract⟩ := hfiles f hf
    obtain ⟨htab, hlf⟩ := h f hf (List.ne_nil_of_mem htag) config path content hextract
    rw [hfile]
    exact ⟨fun hmem => htab ((mem_file_of_extract_iff (b := 0x09) hextract (by decide)).mp hmem),
      fun hmem => hlf ((mem_file_of_extract_iff (b := 0x0A) hextract (by decide)).mp hmem)⟩

/-- A tab in the pattern is in the third field, and a space in the path is no separator. -/
theorem isTagFile_text_iff_spaced :
    let spaced : TagFile := ⟨"a b.sh", "sh", [⟨"f", .function, 2, "f()\t# /\\"⟩]⟩
    extract {} (Path.ofString "a b.sh") (Bytes.ofAscii "\nf()\t# /\\\r\n") = .ok spaced ∧
    ∀ sorted, IsTagFile (Ctags.text [spaced] sorted) (entries [spaced]) := by
  intro spaced
  have hextract : extract {} (Path.ofString "a b.sh") (Bytes.ofAscii "\nf()\t# /\\\r\n") =
      .ok spaced := by rfl
  have hfiles : ∀ f ∈ [spaced], ∃ config path content, extract config path content = .ok f := by
    intro f hf
    obtain rfl := List.mem_singleton.mp hf
    exact ⟨_, _, _, hextract⟩
  refine ⟨hextract, fun sorted => (isTagFile_text_iff hfiles sorted).mpr ?_⟩
  intro f hf _ config path content h
  obtain rfl := List.mem_singleton.mp hf
  rw [← mem_file_of_extract_iff h (by decide), ← mem_file_of_extract_iff h (by decide)]
  decide

/-- A path with a line feed and a tab in it **forges** a line: the tag file has a line for a
function `main` in a file `b.sh`, and the scripts have neither. -/
theorem not_isTagFile_forged :
    let forged : TagFile := ⟨"a\nmain\tb.sh", "sh", [⟨"f", .function, 1, "f()"⟩]⟩
    extract {} (Path.ofString "a\nmain\tb.sh") (Bytes.ofAscii "f()\n") = .ok forged ∧
    ∀ sorted, ¬ IsTagFile (Ctags.text [forged] sorted) (entries [forged]) ∧
      "main\tb.sh\t/^f()$/;\"\tf".toList ∈ (Ctags.text [forged] sorted).toList.splitOn '\n' := by
  intro forged
  refine ⟨by rfl, fun sorted => ⟨fun h => ?_, ?_⟩⟩
  · have hentry : (⟨"a\nmain\tb.sh", ⟨"f", .function, 1, "f()"⟩⟩ : Entry) ∈ entries [forged] := by
      decide
    exact absurd (h.notMem_file hentry) (by decide)
  · -- the line feed of the path ends one line of the text, and the forged line starts behind it
    have hline : (⟨"a\nmain\tb.sh", ⟨"f", .function, 1, "f()"⟩⟩ : Entry).line =
        "f\ta".toList ++ '\n' :: "main\tb.sh\t/^f()$/;\"\tf".toList := by decide
    have horder : (if sorted then sortEntries (entries [forged]) else entries [forged]) =
        [⟨"a\nmain\tb.sh", ⟨"f", .function, 1, "f()"⟩⟩] := by
      cases sorted
      · rfl
      · exact List.mergeSort_singleton _
    rw [toList_text, horder, List.flatMap_singleton, hline, List.append_assoc, List.cons_append,
      ← List.append_assoc, List.splitOn_append_cons_self, List.splitOn_append_cons_self]
    refine List.mem_append_right _ (List.mem_append_left _ ?_)
    rw [List.splitOn_eq_singleton (by decide)]
    exact List.mem_singleton_self _

end ScriptTags.Ctags
