import ScriptTags.Proofs.Extraction
import ScriptTags.Proofs.Routing

/-!
# Line endings do not matter

A script may end its lines in a line feed or in a carriage return and a line feed. `Script.crlf`
turns the first form into the second. The two readers of a script meet the added carriage returns
at different places: the cut into physical lines drops them, while the reader of the first line
keeps the one before the line feed, to which it is one more **blank** at the end.

Content is taken apart at its line feeds (`Script.lineInduction`), one line and what follows it. A
line of the given content must not end in a carriage return of its own, or that one would be dropped
with the line feed and survive when another is put behind it.
-/

namespace ScriptTags

namespace Script

/-- The content with a carriage return put before **every line feed**. -/
def crlf (content : Bytes) : Bytes :=
  content.flatMap fun b => if b = Byte.lf then [Byte.cr, Byte.lf] else [b]

variable {line rest content : Bytes}

theorem crlf_of_lf_notMem (h : Byte.lf ∉ line) : crlf line = line := by
  induction line with
  | nil => rfl
  | cons b line ih =>
    rw [List.mem_cons, not_or] at h
    rw [crlf, List.flatMap_cons, if_neg (Ne.symm h.1), ← crlf, ih h.2, List.singleton_append]

theorem crlf_line_append (h : Byte.lf ∉ line) (rest : Bytes) :
    crlf (line ++ Byte.lf :: rest) = line ++ [Byte.cr] ++ Byte.lf :: crlf rest := by
  have hline := crlf_of_lf_notMem h
  rw [crlf] at hline
  rw [crlf, List.flatMap_append, hline, List.flatMap_cons, if_pos rfl, ← crlf]
  simp

/-- A line before a line feed does not end in a carriage return, if the content has none before a
line feed. -/
theorem dropFinal_cr_of_ended (h : ¬ [Byte.cr, Byte.lf] <:+: line ++ Byte.lf :: rest) :
    line.dropFinal Byte.cr = line := by
  refine Bytes.dropFinal_of_ne fun hlast => h ?_
  obtain ⟨before, rfl⟩ := List.getLast?_eq_some_iff.mp hlast
  exact ⟨before, rest, by simp⟩

/-! ### Two readers -/

/-- **The lines stay the same**, once each is freed of a carriage return at its end. -/
theorem splitOn_crlf (h : ¬ [Byte.cr, Byte.lf] <:+: content) :
    ((crlf content).splitOn Byte.lf).map (Bytes.dropFinal Byte.cr) =
      (content.splitOn Byte.lf).map (Bytes.dropFinal Byte.cr) := by
  induction content using lineInduction with
  | last line hline => rw [crlf_of_lf_notMem hline]
  | ended line rest hline ih =>
    have hsuffix : rest <:+ line ++ Byte.lf :: rest :=
      (List.suffix_cons Byte.lf rest).trans (List.suffix_append line _)
    have hrest : ¬ [Byte.cr, Byte.lf] <:+: rest := fun hboth => h (hboth.trans hsuffix.isInfix)
    have hadded := lf_notMem_append_cr hline
    -- the line has no carriage return of its own to lose, so only the added one is dropped
    rw [crlf_line_append hline, List.splitOn_append_cons_self_of_not_mem hadded,
      List.splitOn_append_cons_self_of_not_mem hline, List.map_cons, List.map_cons, ih hrest,
      Bytes.dropFinal_concat, dropFinal_cr_of_ended h]

/-- A first line without a line feed in it goes up to the line feed behind it. -/
theorem firstLine_line_append (h : Byte.lf ∉ line) (rest : Bytes) :
    firstLine (line ++ Byte.lf :: rest) = line := by
  have hrun : Bytes.IsRun (· != Byte.lf) line := fun b hb =>
    bne_iff_ne.mpr fun heq => h (heq ▸ hb)
  exact Bytes.takeWhile_run_append hrun (Bytes.stops_cons.mpr (by simp))

/-- The first line has at most a carriage return more. -/
theorem firstLine_crlf (content : Bytes) :
    firstLine (crlf content) = firstLine content ∨
      firstLine (crlf content) = firstLine content ++ [Byte.cr] := by
  by_cases hlf : Byte.lf ∈ content
  · obtain ⟨line, rest, rfl, hline⟩ := List.eq_append_cons_of_mem hlf
    rw [crlf_line_append hline, firstLine_line_append (lf_notMem_append_cr hline),
      firstLine_line_append hline]
    exact .inr rfl
  · rw [crlf_of_lf_notMem hlf]
    exact .inl rfl

end Script

/-- A carriage return at the end of the first line names no other interpreter. -/
theorem Language.ofShebang?_firstLine_crlf (content : Bytes) :
    ofShebang? (Script.firstLine (Script.crlf content)) =
      ofShebang? (Script.firstLine content) := by
  rcases Script.firstLine_crlf content with h | h
  · rw [h]
  · rw [h, ofShebang?_append_blank (by decide)]

theorem Config.route_crlf (config : Config) (path : Path) (content : Bytes) :
    config.route path (Script.crlf content) = config.route path content := by
  simp only [route, Language.detect, Language.ofShebang?_firstLine_crlf]

/-- **Line endings do not matter.** A carriage return before every line feed changes nothing about
what is extracted, neither the tags nor the error, unless some line feed had one already. -/
theorem extract_crlf (config : Config) (path : Path) {content : Bytes}
    (h : ¬ [Byte.cr, Byte.lf] <:+: content) :
    extract config path (Script.crlf content) = extract config path content := by
  have htags : findTags config.rules path (Script.lines (Script.crlf content)) =
      findTags config.rules path (Script.lines content) := by
    rw [findTags_eq_tags, findTags_eq_tags, tags_lines, tags_lines, Script.splitOn_crlf h]
  rw [extract, extract, Config.route_crlf, htags]

/-- A script with a sequence that a line feed cuts off, an empty line, and a carriage return at the
end of its last line. -/
def cutOffScript : Bytes :=
  Bytes.ofAscii "#!/bin/sh" ++ [0xE2, 0x82, Byte.lf, Byte.lf] ++ Bytes.ofAscii "f()" ++ [Byte.cr]

theorem extract_crlf_cutOffScript :
    ¬ [Byte.cr, Byte.lf] <:+: cutOffScript ∧
    (Script.crlf cutOffScript).count Byte.cr = 3 ∧
    extract {} (Path.ofString "a.sh") (Script.crlf cutOffScript) =
      .ok ⟨"a.sh", "sh", [⟨"f", .function, 3, "f()"⟩]⟩ := by
  have h : ¬ [Byte.cr, Byte.lf] <:+: cutOffScript := by decide +kernel
  refine ⟨h, by decide, ?_⟩
  rw [extract_crlf {} (Path.ofString "a.sh") h]
  rfl

end ScriptTags
