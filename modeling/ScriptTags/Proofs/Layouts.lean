import ScriptTags.Proofs.PhysicalLines

/-!
# Lines and the content they are written down in

A list of lines is written down as a **layout**: each line with an end of its own, a line feed or a
carriage return and a line feed, and perhaps a last line that nothing ends. Many layouts have the
same lines. Reading (`Script.lines`) and writing (`Layout.content`) undo each other as follows:

* what a layout writes down is read back, if its lines can be told from their ends
  (`lines_content`);
* what is read can be written down again to the last byte, with one exception
  (`exists_layout_iff`): a carriage return at the **very end** of the content, which no line feed
  follows, is dropped as if one did.

Both go line by line. `Script.lines` is defined on the content as a whole, with its two ends treated
specially, so its equations for one line in front of the rest come first.
-/

namespace ScriptTags

theorem Bytes.dropFinal_append_cons (b c : Byte) (bytes : Bytes) {rest : Bytes}
    (hrest : rest ≠ []) : (bytes ++ c :: rest).dropFinal b = bytes ++ c :: rest.dropFinal b := by
  obtain ⟨front, final, rfl⟩ := (List.eq_nil_or_concat rest).resolve_left hrest
  by_cases hfinal : final = b
  · have hassoc : bytes ++ c :: (front ++ [b]) = bytes ++ c :: front ++ [b] := by simp
    rw [hfinal, List.concat_eq_append, hassoc, dropFinal_concat, dropFinal_concat]
  · have hfront : (front.concat final).getLast? ≠ some b := by simpa using hfinal
    have hall : (bytes ++ c :: front.concat final).getLast? ≠ some b := by
      simpa [List.getLast?_append, List.getLast?_cons] using hfinal
    rw [dropFinal_of_ne hall, dropFinal_of_ne hfront]

/-- Only what does not end in a byte is left as it is when that byte is dropped. -/
theorem Bytes.getLast?_ne_of_dropFinal_eq {b : Byte} {bytes : Bytes}
    (h : bytes.dropFinal b = bytes) : bytes.getLast? ≠ some b := by
  intro hlast
  obtain ⟨front, rfl⟩ := List.getLast?_eq_some_iff.mp hlast
  rw [dropFinal_concat] at h
  simp at h

namespace Script

/-! ### One line at a time -/

variable {line last before : Bytes}

/-- A line that nothing ends. -/
theorem lines_unended (hne : last ≠ []) (hlf : Byte.lf ∉ last) :
    lines last = [last.dropFinal Byte.cr] := by
  have hlast : last.getLast? ≠ some Byte.lf := fun h => hlf (List.mem_of_getLast? h)
  rw [lines, if_neg hne, Bytes.dropFinal_of_ne hlast, List.splitOn_eq_singleton hlf]
  rfl

/-- A line before a line feed, and what follows it. -/
theorem lines_line_append (hlf : Byte.lf ∉ line) (rest : Bytes) :
    lines (line ++ Byte.lf :: rest) = line.dropFinal Byte.cr :: lines rest := by
  have hne : line ++ Byte.lf :: rest ≠ [] := by simp
  rw [lines, if_neg hne]
  by_cases hrest : rest = []
  · -- the final line feed is dropped before the cut, so that it opens no empty line
    subst hrest
    rw [Bytes.dropFinal_concat, List.splitOn_eq_singleton hlf]
    rfl
  · rw [Bytes.dropFinal_append_cons Byte.lf Byte.lf line hrest,
      List.splitOn_append_cons_self_of_not_mem hlf, List.map_cons, lines, if_neg hrest]

/-- A last line that nothing ends comes after all others. -/
theorem lines_append_unended (hbefore : before = [] ∨ before.getLast? = some Byte.lf)
    (hne : last ≠ []) (hlf : Byte.lf ∉ last) :
    lines (before ++ last) = lines before ++ [last.dropFinal Byte.cr] := by
  induction before using lineInduction with
  | last line hline =>
    have hnil : line = [] := hbefore.resolve_right fun h => hline (List.mem_of_getLast? h)
    rw [hnil, List.nil_append, lines_unended hne hlf]
    rfl
  | ended line rest hline ih =>
    have hrest : rest = [] ∨ rest.getLast? = some Byte.lf := by
      refine (Decidable.em (rest = [])).imp_right fun hcons => ?_
      have hlast := hbefore.resolve_left (by simp)
      obtain ⟨front, final, rfl⟩ := (List.eq_nil_or_concat rest).resolve_left hcons
      simpa [List.getLast?_append, List.getLast?_cons] using hlast
    rw [List.append_assoc, List.cons_append, lines_line_append hline, lines_line_append hline,
      ih hrest, List.cons_append]

/-- No line feed is left in a line. -/
theorem lf_notMem_of_mem_lines {content : Bytes} (hmem : line ∈ lines content) :
    Byte.lf ∉ line := by
  induction content using lineInduction with
  | last last hlast =>
    have hne : last ≠ [] := by
      rintro rfl
      exact List.not_mem_nil hmem
    rw [lines_unended hne hlast, List.mem_singleton] at hmem
    rw [hmem]
    exact fun h => hlast (Bytes.dropFinal_subset Byte.cr last h)
  | ended first rest hfirst ih =>
    rw [lines_line_append hfirst, List.mem_cons] at hmem
    rcases hmem with rfl | hrest
    · exact fun h => hfirst (Bytes.dropFinal_subset Byte.cr first h)
    · exact ih hrest

/-! ### Layouts -/

/-- What **ends** a line. -/
inductive LineEnd where
  | lf
  | crlf
  deriving DecidableEq, Repr

/-- The bytes of a line end. -/
def LineEnd.bytes : LineEnd → Bytes
  | lf => [Byte.lf]
  | crlf => [Byte.cr, Byte.lf]

/-- A **layout** of lines, each with an end of its own. Only the last line may have none. -/
inductive Layout where
  | empty
  | unended (last : Bytes)
  | ended (line : Bytes) (lineEnd : LineEnd) (rest : Layout)
  deriving DecidableEq, Repr

namespace Layout

/-- The lines of a layout, in order and without their ends. -/
def lines : Layout → List Bytes
  | empty => []
  | unended last => [last]
  | ended line _ rest => line :: rest.lines

/-- The **content** that a layout writes down: every line with its end. -/
def content : Layout → Bytes
  | empty => []
  | unended last => last
  | ended line lineEnd rest => line ++ lineEnd.bytes ++ rest.content

/-- The last line, if nothing ends it. -/
def unended? : Layout → Option Bytes
  | empty => none
  | unended last => some last
  | ended _ _ rest => rest.unended?

end Layout

/-- Whichever way a line ends, the lines after it are read from what follows the end; and the line
is read as it is, if it can be told from its end. -/
theorem exists_lines_end_append (hlf : Byte.lf ∉ line) (lineEnd : LineEnd) (rest : Bytes) :
    ∃ first, lines (line ++ lineEnd.bytes ++ rest) = first :: lines rest ∧
      (line.getLast? ≠ some Byte.cr → first = line) := by
  cases lineEnd with
  | lf =>
    refine ⟨line.dropFinal Byte.cr, ?_, Bytes.dropFinal_of_ne⟩
    rw [LineEnd.bytes, List.append_assoc, List.singleton_append, lines_line_append hlf]
  | crlf =>
    refine ⟨line, ?_, fun _ => rfl⟩
    have hcr : line ++ LineEnd.crlf.bytes ++ rest = line ++ [Byte.cr] ++ Byte.lf :: rest := by
      simp [LineEnd.bytes]
    rw [hcr, lines_line_append (lf_notMem_append_cr hlf), Bytes.dropFinal_concat]

/-- What a line end leaves off at is no carriage return. -/
theorem getLast?_of_end_append {lineEnd : LineEnd} {rest : Bytes}
    (h : (line ++ lineEnd.bytes ++ rest).getLast? = some Byte.cr) :
    rest.getLast? = some Byte.cr := by
  have hend : lineEnd.bytes.getLast? = some Byte.lf := by cases lineEnd <;> rfl
  rw [List.getLast?_append, List.getLast?_append, hend, Option.some_or] at h
  cases hrest : rest.getLast? with
  | none =>
    rw [hrest] at h
    exact absurd h (by decide)
  | some final => rwa [hrest] at h

/-! ### Reading what is written -/

/-- **Reading undoes writing.** Lines that have no line feed and do not end in a carriage return are
read back from every layout of theirs, empty lines included, unless an empty line is the last and
nothing ends it. -/
theorem lines_content (layout : Layout)
    (hlines : ∀ line ∈ layout.lines, Byte.lf ∉ line ∧ line.getLast? ≠ some Byte.cr)
    (hunended : layout.unended? ≠ some []) : lines layout.content = layout.lines := by
  induction layout with
  | empty => rfl
  | unended last =>
    obtain ⟨hlf, hcr⟩ := hlines last List.mem_cons_self
    have hne : last ≠ [] := fun hnil => hunended (congrArg some hnil)
    rw [Layout.content, lines_unended hne hlf, Bytes.dropFinal_of_ne hcr, Layout.lines]
  | ended line lineEnd rest ih =>
    rw [Layout.lines, List.forall_mem_cons] at hlines
    obtain ⟨⟨hlf, hcr⟩, hrest⟩ := hlines
    obtain ⟨first, hfirst, hline⟩ := exists_lines_end_append hlf lineEnd rest.content
    rw [Layout.content, Layout.lines, hfirst, hline hcr, ih hrest hunended]

/-- Lines with both ends and without one: two of them empty, one with a carriage return inside. -/
def mixedEnds : Layout :=
  .ended [] .crlf (.ended (Bytes.ofAscii "a\rb") .lf (.ended [] .lf (.unended (Bytes.ofAscii "c"))))

theorem lines_content_mixedEnds :
    (∀ line ∈ mixedEnds.lines, Byte.lf ∉ line ∧ line.getLast? ≠ some Byte.cr) ∧
    mixedEnds.unended? ≠ some [] ∧ mixedEnds.content = Bytes.ofAscii "\r\na\rb\n\nc" ∧
    lines (Bytes.ofAscii "\r\na\rb\n\nc") =
      [[], Bytes.ofAscii "a\rb", [], Bytes.ofAscii "c"] := by
  have hlines : ∀ line ∈ mixedEnds.lines, Byte.lf ∉ line ∧ line.getLast? ≠ some Byte.cr := by
    decide
  have hunended : mixedEnds.unended? ≠ some [] := by decide
  exact ⟨hlines, hunended, rfl, lines_content mixedEnds hlines hunended⟩

/-! ### Writing what is read -/

/-- The lines of a content have a layout that writes it down, but for a carriage return at its very
end. -/
theorem exists_layout (content : Bytes) :
    ∃ layout : Layout, layout.lines = lines content ∧
      layout.content = content.dropFinal Byte.cr := by
  induction content using lineInduction with
  | last last hlast =>
    by_cases hne : last = []
    · exact ⟨.empty, by rw [hne]; rfl, by rw [hne]; rfl⟩
    · exact ⟨.unended (last.dropFinal Byte.cr), (lines_unended hne hlast).symm, rfl⟩
  | ended line rest hline ih =>
    obtain ⟨layout, hlines, hcontent⟩ := ih
    -- a carriage return before the line feed belongs to the end of the line
    obtain ⟨lineEnd, hend⟩ : ∃ lineEnd : LineEnd,
        line.dropFinal Byte.cr ++ lineEnd.bytes = line ++ [Byte.lf] := by
      by_cases hcr : line.getLast? = some Byte.cr
      · obtain ⟨front, rfl⟩ := List.getLast?_eq_some_iff.mp hcr
        exact ⟨.crlf, by simp [LineEnd.bytes]⟩
      · exact ⟨.lf, by rw [Bytes.dropFinal_of_ne hcr]; rfl⟩
    refine ⟨.ended (line.dropFinal Byte.cr) lineEnd layout, ?_, ?_⟩
    · rw [Layout.lines, hlines, lines_line_append hline]
    · rw [Layout.content, hend, hcontent, List.append_assoc, List.singleton_append]
      by_cases hrest : rest = []
      · have hlast : (line ++ [Byte.lf]).getLast? ≠ some Byte.cr := by
          rw [List.getLast?_concat]
          decide
        rw [hrest, Bytes.dropFinal_of_ne hlast]
        rfl
      · rw [Bytes.dropFinal_append_cons Byte.cr Byte.lf line hrest]

/-- A layout that writes down a content with the lines of that content leaves off at no carriage
return. -/
theorem getLast?_content_ne {layout : Layout} (h : layout.lines = lines layout.content) :
    layout.content.getLast? ≠ some Byte.cr := by
  induction layout with
  | empty => simp [Layout.content]
  | unended last =>
    rw [Layout.lines, Layout.content] at h
    by_cases hne : last = []
    · simp [hne, Layout.content]
    · have hlf : Byte.lf ∉ last := lf_notMem_of_mem_lines (h ▸ List.mem_cons_self)
      rw [lines_unended hne hlf] at h
      exact Bytes.getLast?_ne_of_dropFinal_eq (List.cons.inj h).1.symm
  | ended line lineEnd rest ih =>
    rw [Layout.lines, Layout.content] at h
    have hlf : Byte.lf ∉ line := lf_notMem_of_mem_lines (h ▸ List.mem_cons_self)
    obtain ⟨first, hfirst, -⟩ := exists_lines_end_append hlf lineEnd rest.content
    rw [hfirst] at h
    exact fun hlast => ih (List.cons.inj h).2 (getLast?_of_end_append hlast)

/-- **Reading keeps all but the line ends, and drops one byte more at most.** No line has a line
feed in it. The lines have a layout that writes down the content without a carriage return at its
very end, and so one that writes down the content itself exactly when there is no such carriage
return: then a last line that nothing ends is read as it is, and otherwise without that carriage
return. -/
theorem exists_layout_iff (content : Bytes) :
    (∀ line ∈ lines content, Byte.lf ∉ line) ∧
    (∃ layout : Layout, layout.lines = lines content ∧
      layout.content = content.dropFinal Byte.cr) ∧
    ((∃ layout : Layout, layout.lines = lines content ∧ layout.content = content) ↔
      content.getLast? ≠ some Byte.cr) ∧
    ∀ before last, content = before ++ last →
      (before = [] ∨ before.getLast? = some Byte.lf) → last ≠ [] → Byte.lf ∉ last →
      lines content = lines before ++ [last.dropFinal Byte.cr] := by
  refine ⟨fun line => lf_notMem_of_mem_lines, exists_layout content, ⟨?_, fun hlast => ?_⟩, ?_⟩
  · rintro ⟨layout, hlines, rfl⟩
    exact getLast?_content_ne hlines
  · obtain ⟨layout, hlines, hcontent⟩ := exists_layout content
    exact ⟨layout, hlines, by rw [hcontent, Bytes.dropFinal_of_ne hlast]⟩
  · rintro before last rfl hbefore hne hlf
    exact lines_append_unended hbefore hne hlf

/-- Of three carriage returns, that at the very end is dropped. -/
theorem exists_layout_iff_strayReturns :
    lines (Bytes.ofAscii "a\n\rb\r\r") =
      lines (Bytes.ofAscii "a\n") ++ [Bytes.ofAscii "\rb\r"] :=
  (exists_layout_iff _).2.2.2 (Bytes.ofAscii "a\n") (Bytes.ofAscii "\rb\r\r") rfl (.inr rfl)
    (by decide) (by decide)

/-- **A byte that no line end accounts for.** The content has one line, which nothing ends, and it
is not read as it is; no layout of what is read writes the content down. -/
theorem not_exists_layout_finalReturn :
    lines (Bytes.ofAscii "a\r") = [Bytes.ofAscii "a"] ∧
    ¬ ∃ layout : Layout, layout.lines = lines (Bytes.ofAscii "a\r") ∧
      layout.content = Bytes.ofAscii "a\r" := by
  refine ⟨rfl, ?_⟩
  rintro ⟨layout, hlines, hcontent⟩
  rw [← hcontent] at hlines
  exact getLast?_content_ne hlines (by rw [hcontent]; rfl)

end Script

end ScriptTags
