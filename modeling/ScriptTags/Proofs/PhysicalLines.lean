import ScriptTags.Script.Lines

/-!
# Where a physical line stands

`Script.lines` cuts a script at its line feeds and treats the ends of the script specially: a final
line feed opens no further line, and empty content has no lines. Here a line is described by its
place instead (`Script.IsLineAt`): what stands before it is empty or ends in a line feed, what
stands after it is empty or starts with one, and its **number** counts the line feeds before it.

Every place in the content holds exactly one line in this sense (`isLineAt_iff_getElem?`), also the
empty place after a final line feed. This empty line is the only one that `Script.lines` leaves out
(`exists_lines_append`). Proofs about the content that go from one line feed to the next are by
`lineInduction`.
-/

namespace ScriptTags.Script

/-- The line with this **number**, counted from one, as it stands in the content: between two line
feeds or the ends, and with the carriage return before its end, if it has one. -/
def IsLineAt (content : Bytes) (number : Nat) (line : Bytes) : Prop :=
  ∃ before after, content = before ++ line ++ after ∧
    (before = [] ∨ before.getLast? = some Byte.lf) ∧ before.count Byte.lf + 1 = number ∧
    Byte.lf ∉ line ∧ (after = [] ∨ after.head? = some Byte.lf)

/-- Induction on content, line by line: the last line, which nothing ends, and a line before a line
feed. -/
@[elab_as_elim]
theorem lineInduction {motive : Bytes → Prop} (last : ∀ line, Byte.lf ∉ line → motive line)
    (ended : ∀ line rest, Byte.lf ∉ line → motive rest → motive (line ++ Byte.lf :: rest))
    (content : Bytes) : motive content := by
  induction hlength : content.length using Nat.strongRecOn generalizing content with
  | ind length ih =>
    by_cases hlf : Byte.lf ∈ content
    · obtain ⟨line, rest, rfl, hline⟩ := List.eq_append_cons_of_mem hlf
      have hshorter : rest.length < length := by
        rw [← hlength, List.length_append, List.length_cons]
        omega
      exact ended line rest hline (ih rest.length hshorter rest rfl)
    · exact last content hlf

/-- A carriage return at the end of a line brings no line feed into it. -/
theorem lf_notMem_append_cr {line : Bytes} (h : Byte.lf ∉ line) : Byte.lf ∉ line ++ [Byte.cr] := by
  have hne : Byte.lf ≠ Byte.cr := by decide
  simpa [hne] using h

/-- There is one piece more than there are line feeds. -/
theorem length_splitOn (bytes : Bytes) :
    (bytes.splitOn Byte.lf).length = bytes.count Byte.lf + 1 := by
  induction bytes with
  | nil => rfl
  | cons b bytes ih =>
    rw [List.splitOn_cons_eq_if_modifyHead, List.count_cons]
    split <;> simp [ih]

/-- A piece and what a line feed or the end sets off from it. -/
theorem splitOn_line_append {line after : Bytes} (hline : Byte.lf ∉ line)
    (hafter : after = [] ∨ after.head? = some Byte.lf) :
    ∃ pieces, (line ++ after).splitOn Byte.lf = line :: pieces := by
  rcases hafter with rfl | hlf
  · exact ⟨[], by rw [List.append_nil, List.splitOn_eq_singleton hline]⟩
  · obtain ⟨rest, rfl⟩ := List.head?_eq_some_iff.mp hlf
    exact ⟨_, List.splitOn_append_cons_self_of_not_mem hline rest⟩

theorem getElem?_splitOn_of_isLineAt {content line : Bytes} {i : Nat}
    (h : IsLineAt content (i + 1) line) : (content.splitOn Byte.lf)[i]? = some line := by
  obtain ⟨before, after, rfl, hbefore, hcount, hline, hafter⟩ := h
  obtain ⟨pieces, hpieces⟩ := splitOn_line_append hline hafter
  rcases hbefore with rfl | hlast
  · obtain rfl : i = 0 := by simpa using hcount.symm
    rw [List.nil_append, hpieces, List.getElem?_cons_zero]
  · obtain ⟨earlier, rfl⟩ := List.getLast?_eq_some_iff.mp hlast
    have hi : i = (earlier.splitOn Byte.lf).length := by
      rw [length_splitOn]
      simpa using hcount.symm
    rw [List.append_assoc, List.append_assoc, List.singleton_append,
      List.splitOn_append_cons_self, hpieces, hi, List.getElem?_append_right (Nat.le_refl _),
      Nat.sub_self, List.getElem?_cons_zero]

theorem isLineAt_of_getElem?_splitOn {content line : Bytes} {i : Nat}
    (h : (content.splitOn Byte.lf)[i]? = some line) : IsLineAt content (i + 1) line := by
  -- the first line feed, if there is one, sets off the first piece from the others
  induction i generalizing content with
  | zero =>
    by_cases hlf : Byte.lf ∈ content
    · obtain ⟨first, rest, rfl, hfirst⟩ := List.eq_append_cons_of_mem hlf
      rw [List.splitOn_append_cons_self_of_not_mem hfirst] at h
      obtain rfl : first = line := by simpa using h
      exact ⟨[], Byte.lf :: rest, rfl, .inl rfl, rfl, hfirst, .inr rfl⟩
    · rw [List.splitOn_eq_singleton hlf] at h
      obtain rfl : content = line := by simpa using h
      exact ⟨[], [], by simp, .inl rfl, rfl, hlf, .inl rfl⟩
  | succ i ih =>
    by_cases hlf : Byte.lf ∈ content
    · obtain ⟨first, rest, rfl, hfirst⟩ := List.eq_append_cons_of_mem hlf
      rw [List.splitOn_append_cons_self_of_not_mem hfirst, List.getElem?_cons_succ] at h
      obtain ⟨before, after, rfl, hbefore, hcount, hline, hafter⟩ := ih h
      refine ⟨first ++ Byte.lf :: before, after, by simp, .inr ?_, ?_, hline, hafter⟩
      · rcases hbefore with rfl | hlast
        · simp
        · simp [List.getLast?_append, List.getLast?_cons, hlast]
      · rw [List.count_append, List.count_eq_zero.mpr hfirst, List.count_cons_self]
        omega
    · rw [List.splitOn_eq_singleton hlf] at h
      simp at h

/-- **Lines by place and by index.** Cutting the content at its line feeds lists its lines by their
numbers. -/
theorem isLineAt_iff_getElem? {content line : Bytes} {i : Nat} :
    IsLineAt content (i + 1) line ↔ (content.splitOn Byte.lf)[i]? = some line :=
  ⟨getElem?_splitOn_of_isLineAt, isLineAt_of_getElem?_splitOn⟩

/-- A line number is positive. -/
theorem IsLineAt.pos {content line : Bytes} {number : Nat} (h : IsLineAt content number line) :
    0 < number := by
  obtain ⟨before, after, -, -, hcount, -, -⟩ := h
  omega

/-- The physical lines are the pieces between the line feeds, each without a carriage return at its
end, up to an empty one at the end of the content. -/
theorem exists_lines_append (content : Bytes) :
    ∃ last, (last = [] ∨ last = [[]]) ∧
      (content.splitOn Byte.lf).map (Bytes.dropFinal Byte.cr) = lines content ++ last := by
  by_cases hempty : content = []
  · subst hempty
    exact ⟨[[]], .inr rfl, rfl⟩
  · rw [lines, if_neg hempty]
    by_cases hlast : content.getLast? = some Byte.lf
    · obtain ⟨body, rfl⟩ := List.getLast?_eq_some_iff.mp hlast
      -- cutting with the final line feed in place gives one empty piece more than without it
      refine ⟨[[]], .inr rfl, ?_⟩
      rw [Bytes.dropFinal_concat, List.splitOn_append_cons_self, List.map_append]
      rfl
    · refine ⟨[], .inl rfl, ?_⟩
      rw [Bytes.dropFinal_of_ne hlast, List.append_nil]

end ScriptTags.Script
