import ScriptTags.Extract
import ScriptTags.Proofs.PhysicalLines
import ScriptTags.Proofs.Scanning

/-!
# The tags of a script, by its content

Extraction joins three things that number lines in their own way: the cut at line feeds, the
scanner, which counts as it reads, and the fact that the cut drops an empty last line. The main
statement, `extract_tags`, forgets all three. It reads a tag off the place in the content at which
its line stands (`Script.IsLineAt`), and says that the tags are exactly those of the defining lines,
in the order of the lines.
-/

namespace ScriptTags

/-- A script whose language is known is scanned line by line. -/
theorem extract_eq_ok_iff {config : Config} {path : Path} {content : Bytes} {file : TagFile} :
    extract config path content = .ok file ↔
      ∃ language, config.route path content = .ok language ∧
        file =
          { file := path.display
            language := language.name
            tags := Line.tags config.rules path.baseName 1 (Script.lines content) } := by
  rw [extract]
  cases config.route path content with
  | error e => simp [bind, Except.bind]
  | ok language =>
    cases language
    rw [findTags_eq_tags]
    constructor
    · exact fun h => ⟨.sh, rfl, (Except.ok.inj h).symm⟩
    · rintro ⟨language, hlanguage, rfl⟩
      obtain rfl := Except.ok.inj hlanguage
      rfl

/-- An empty line has no tag, so an empty line at the end changes no tags. -/
theorem tags_lines (rules : Rules) (base : String) (content : Bytes) :
    Line.tags rules base 1 (Script.lines content) =
      Line.tags rules base 1 ((content.splitOn Byte.lf).map (Bytes.dropFinal Byte.cr)) := by
  obtain ⟨last, hlast, hsplit⟩ := Script.exists_lines_append content
  rw [hsplit, Line.tags_append]
  rcases hlast with rfl | rfl
  · simp
  · have hnone : Line.tags rules base (1 + (Script.lines content).length) [[]] = [] := rfl
    rw [hnone, List.append_nil]

theorem mem_tags_lines_iff {rules : Rules} {base : String} {content : Bytes} {tag : Tag} :
    tag ∈ Line.tags rules base 1 (Script.lines content) ↔
      ∃ line, Script.IsLineAt content tag.line line ∧
        Line.tag? rules base tag.line (line.dropFinal Byte.cr) = some tag := by
  rw [tags_lines, Line.mem_tags_iff]
  constructor
  · rintro ⟨i, line, hget, htag⟩
    rw [List.getElem?_map, Option.map_eq_some_iff] at hget
    obtain ⟨piece, hpiece, rfl⟩ := hget
    have hline : tag.line = i + 1 := by rw [Line.line_of_tag?_eq_some htag, Nat.add_comm]
    rw [Nat.add_comm, ← hline] at htag
    exact ⟨piece, hline ▸ Script.isLineAt_iff_getElem?.mpr hpiece, htag⟩
  · rintro ⟨piece, hpiece, htag⟩
    obtain ⟨i, hi⟩ := Nat.exists_eq_add_one_of_ne_zero (Nat.ne_of_gt hpiece.pos)
    rw [hi] at hpiece
    refine ⟨i, piece.dropFinal Byte.cr, ?_, ?_⟩
    · rw [List.getElem?_map, Script.isLineAt_iff_getElem?.mp hpiece, Option.map_some]
    · rwa [Nat.add_comm, ← hi]

/-- **The tags of a script are those of its lines.** They stand in the order of their lines, and a
tag is among them exactly when its line, without one carriage return at the end, is a definition of
its name that no rule vetoes in a file of this base name; the line is also what it shows. The text
of a name has the bytes of the name, and there is no other text that has them. -/
theorem extract_tags {config : Config} {path : Path} {content : Bytes} {file : TagFile}
    (h : extract config path content = .ok file) :
    (file.tags.Pairwise fun t u => t.line < u.line) ∧
    (∀ tag : Tag, tag ∈ file.tags ↔
      ∃ line found, Script.IsLineAt content tag.line line ∧
        Line.classify (line.dropFinal Byte.cr) = .definition found ∧
        tag.name = String.ofList (Bytes.toChars found.name) ∧
        (⟨path.baseName, tag.name⟩ : Rule) ∉ config.rules ∧
        tag.pattern = Utf8.decodeLossy (line.dropFinal Byte.cr)) ∧
    ∀ line found, Line.classify line = .definition found →
      ∀ name, name = String.ofList (Bytes.toChars found.name) ↔ Utf8.encode name = found.name := by
  obtain ⟨language, -, rfl⟩ := extract_eq_ok_iff.mp h
  refine ⟨Line.pairwise_tags config.rules path.baseName 1 (Script.lines content), fun tag => ?_,
    fun line found hfound name => Line.eq_text_iff hfound⟩
  rw [mem_tags_lines_iff]
  constructor
  · rintro ⟨line, hline, htag⟩
    obtain ⟨found, hfound, hname, hrule, -, hpattern⟩ := Line.tag?_eq_some_iff.mp htag
    exact ⟨line, found, hline, hfound, hname, hrule, hpattern⟩
  · rintro ⟨line, found, hline, hfound, hname, hrule, hpattern⟩
    exact ⟨line, hline, Line.tag?_eq_some_iff.mpr ⟨found, hfound, hname, hrule, rfl, hpattern⟩⟩

/-- In a `configure` script with carriage returns, the second line is a tag, and the last line,
which nothing ends, is vetoed. -/
theorem extract_tags_configure :
    extract {} (Path.ofString "configure")
        (Bytes.ofAscii "#!/bin/sh\r\nfunction f\r\n\r\nmain ()") =
      .ok ⟨"configure", "sh", [⟨"f", .function, 2, "function f"⟩]⟩ ∧
    ∃ line found,
      Script.IsLineAt (Bytes.ofAscii "#!/bin/sh\r\nfunction f\r\n\r\nmain ()") 2 line ∧
      Line.classify (line.dropFinal Byte.cr) = .definition found ∧
      "f" = String.ofList (Bytes.toChars found.name) ∧
      (⟨"configure", "f"⟩ : Rule) ∉ Rules.builtin ∧
      "function f" = Utf8.decodeLossy (line.dropFinal Byte.cr) := by
  have h : extract {} (Path.ofString "configure")
      (Bytes.ofAscii "#!/bin/sh\r\nfunction f\r\n\r\nmain ()") =
        .ok ⟨"configure", "sh", [⟨"f", .function, 2, "function f"⟩]⟩ := by rfl
  exact ⟨h, ((extract_tags h).2.1 ⟨"f", .function, 2, "function f"⟩).mp List.mem_cons_self⟩

end ScriptTags
