import Mathlib.Data.List.Basic
import ScriptTags.Output.Ctags
import ScriptTags.Proofs.TagText

/-!
# Reading search commands back

The pattern of a tag stands between two solidi, and may hold solidi and reverse solidi in runs of
any length. An editor finds the **closing solidus** from left to right: a reverse solidus escapes
what follows it, unless it is escaped itself (`Ctags.escapesNext`), and the first solidus that is
not escaped closes the command. This reader is written down here (`Ctags.cutAtSolidus`), together
with what it means for a solidus to be the first one (`Ctags.IsSearchText`), and so is the reader of
a whole line whose file is known (`Ctags.readLine?`).

An escaped pattern leaves the reader in the state in which it found it: every reverse solidus that
the writer puts in is followed by the character it escapes. So nothing of a pattern is taken for the
closing solidus (`Ctags.isSearchText_escape_append`), and dropping what escapes gives the pattern
back (`Ctags.unescape_escape`).
-/

namespace ScriptTags.Ctags

/-! ### A reader of search commands -/

/-- Whether the character after `c` is **escaped**, by whether `c` is. -/
def escapesNext (escaped : Bool) (c : Char) : Bool :=
  !escaped && c == '\\'

/-- What stands **before the first solidus that is not escaped**: each solidus in it is escaped, and
one that follows it is not. The reader starts at an escaped character or not. -/
def IsSearchText (escaped : Bool) (inside : List Char) : Prop :=
  inside.foldl escapesNext escaped = false ∧
    ∀ before after, inside = before ++ '/' :: after → before.foldl escapesNext escaped = true

/-- **Cuts** a text at the first solidus that is not escaped. -/
def cutAtSolidus (escaped : Bool) : List Char → Option (List Char × List Char)
  | [] => none
  | c :: rest =>
    if c = '/' ∧ escaped = false then some ([], rest)
    else (cutAtSolidus (escapesNext escaped c) rest).map fun cut => (c :: cut.1, cut.2)

/-- A text without the reverse solidi that **escape** something. -/
def unescape (escaped : Bool) : List Char → List Char
  | [] => []
  | c :: rest =>
    if escapesNext escaped c then unescape true rest else c :: unescape false rest

/-- The pattern of an escaped form. -/
def unescapePattern (escaped : String) : String :=
  String.ofList (unescape false escaped.toList)

/-- **Reads** a line of a tag file, when its file is known: the name, the pattern, and the letter of
the kind. -/
def readLine? (file : String) (line : List Char) : Option (String × String × Char) := do
  let name := line.takeWhile (· != '\t')
  let command ← line.dropPrefix? (name ++ '\t' :: file.toList ++ "\t/^".toList)
  let (inside, rest) ← cutAtSolidus false command
  match inside.getLast?, rest with
  | some '$', [';', '"', '\t', letter] =>
    return (String.ofList name, String.ofList (unescape false inside.dropLast), letter)
  | _, _ => none

variable {escaped : Bool} {c : Char} {inside rest text : List Char}

/-! ### The first solidus that is not escaped -/

theorem isSearchText_nil : IsSearchText escaped [] ↔ escaped = false := by
  simp [IsSearchText]

theorem isSearchText_cons :
    IsSearchText escaped (c :: inside) ↔
      (c = '/' → escaped = true) ∧ IsSearchText (escapesNext escaped c) inside := by
  constructor
  · rintro ⟨hlast, hbefore⟩
    refine ⟨?_, hlast, ?_⟩
    · rintro rfl
      exact hbefore [] inside rfl
    · rintro before after rfl
      exact hbefore (c :: before) after rfl
  · rintro ⟨hfirst, hlast, hbefore⟩
    refine ⟨hlast, fun before after heq => ?_⟩
    cases before with
    | nil => exact hfirst (List.cons.inj heq).1
    | cons c' before =>
      obtain ⟨rfl, htail⟩ := List.cons.inj heq
      exact hbefore before after htail

/-- **The reader cuts at the first solidus that is not escaped**, if there is one. -/
theorem cutAtSolidus_eq_some_iff :
    cutAtSolidus escaped text = some (inside, rest) ↔
      text = inside ++ '/' :: rest ∧ IsSearchText escaped inside := by
  induction text generalizing escaped inside with
  | nil => simp [cutAtSolidus]
  | cons c text ih =>
    rw [cutAtSolidus]
    cases inside with
    | nil =>
      rw [isSearchText_nil]
      split
      · next hstop => simp [hstop, eq_comm]
      · next hgo =>
        refine iff_of_false (by simp) ?_
        rintro ⟨htext, hescaped⟩
        exact hgo ⟨(List.cons.inj htext).1, hescaped⟩
    | cons c' inside =>
      rw [isSearchText_cons, List.cons_append, List.cons.injEq]
      split
      · next hstop =>
        refine iff_of_false (by simp) ?_
        rintro ⟨⟨rfl, -⟩, hfirst, -⟩
        rw [hfirst hstop.1] at hstop
        exact absurd hstop.2 (by simp)
      · next hgo =>
        have hfirst : c = '/' → escaped = true := fun hc =>
          (Bool.eq_false_or_eq_true escaped).resolve_right fun hescaped => hgo ⟨hc, hescaped⟩
        rw [Option.map_eq_some_iff]
        constructor
        · rintro ⟨⟨inside', rest'⟩, hcut, heq⟩
          rw [Prod.mk.injEq, List.cons.injEq] at heq
          obtain ⟨⟨rfl, rfl⟩, rfl⟩ := heq
          obtain ⟨rfl, hsearch⟩ := ih.mp hcut
          exact ⟨⟨rfl, rfl⟩, hfirst, hsearch⟩
        · rintro ⟨⟨rfl, rfl⟩, -, hsearch⟩
          exact ⟨(inside, rest), ih.mpr ⟨rfl, hsearch⟩, rfl⟩

/-! ### Escaped patterns -/

theorem escape_cons (c : Char) (pattern : List Char) :
    escape (c :: pattern) = escapeChar c ++ escape pattern :=
  List.flatMap_cons

/-- **Nothing of a pattern closes the command.** The reader comes out of an escaped pattern as it
went in, and meets no solidus on the way that is not escaped. -/
theorem isSearchText_escape_append (pattern inside : List Char) :
    IsSearchText false (escape pattern ++ inside) ↔ IsSearchText false inside := by
  induction pattern with
  | nil => rfl
  | cons c pattern ih =>
    rw [escape_cons, List.append_assoc, ← ih, escapeChar]
    split
    · simp [isSearchText_cons, escapesNext]
    · next hplain =>
      obtain ⟨hreverse, hsolidus⟩ := not_or.mp hplain
      have hnext : escapesNext false c = false := by simpa [escapesNext] using hreverse
      simp [isSearchText_cons, hnext, hsolidus]

/-- **Unescaping undoes escaping.** -/
theorem unescape_escape (pattern : List Char) : unescape false (escape pattern) = pattern := by
  induction pattern with
  | nil => rfl
  | cons c pattern ih =>
    rw [escape_cons, escapeChar]
    split
    · simp [unescape, escapesNext, ih]
    · next hplain =>
      rw [not_or] at hplain
      simp [unescape, escapesNext, hplain, ih]

theorem leftInverse_unescapePattern : Function.LeftInverse unescapePattern escapePattern := by
  intro pattern
  simp [unescapePattern, escapePattern, unescape_escape]

/-! ### Lines -/

/-- The search command of a pattern, after the solidus and the `^` that open it. -/
theorem cutAtSolidus_search (pattern rest : List Char) :
    cutAtSolidus false (escape pattern ++ '$' :: '/' :: rest) =
      some (escape pattern ++ ['$'], rest) := by
  rw [cutAtSolidus_eq_some_iff, isSearchText_escape_append]
  refine ⟨by simp, ?_⟩
  simp [isSearchText_cons, isSearchText_nil, escapesNext]

theorem line_eq (e : Entry) :
    e.line = (e.tag.name.toList ++ '\t' :: e.file.toList ++ "\t/^".toList) ++
      (escape e.tag.pattern.toList ++ '$' :: '/' :: (";\"\t".toList ++ [e.tag.kind.letter])) := by
  simp [Entry.line, search]

/-- What stands before the first tab of a line is its name. -/
theorem takeWhile_line {e : Entry} (hname : IsFunctionName e.tag.name) :
    e.line.takeWhile (· != '\t') = e.tag.name.toList := by
  have htab : '\t' ∉ e.tag.name.toList := hname.notMem (by decide)
  have hrun : ∀ c ∈ e.tag.name.toList, (c != '\t') = true := fun c hc =>
    bne_iff_ne.mpr fun heq => htab (heq ▸ hc)
  rw [line_eq, List.append_assoc, List.append_assoc, List.takeWhile_append_of_pos hrun]
  simp

/-- **A line reads back to its entry.** -/
theorem readLine?_line {e : Entry} (hname : IsFunctionName e.tag.name) :
    readLine? e.file e.line = some (e.tag.name, e.tag.pattern, e.tag.kind.letter) := by
  have hcommand : e.line.dropPrefix?
      (e.tag.name.toList ++ '\t' :: e.file.toList ++ "\t/^".toList) =
        some (escape e.tag.pattern.toList ++
          '$' :: '/' :: (";\"\t".toList ++ [e.tag.kind.letter])) := by
    rw [line_eq]
    exact List.dropPrefix?_append_of_beq _ (beq_self_eq_true _)
  simp only [readLine?, takeWhile_line hname, hcommand, Option.bind_eq_bind, Option.bind_some,
    cutAtSolidus_search]
  simp [unescape_escape]

/-- **A line decodes back to its tag**, given the file. Its name ends at the first tab. Behind the
file, the first solidus that is not escaped is the one that closes the search command, with the `$`
before it and the letter of the kind behind it; and what stands between, freed of its escapes, is
the pattern. Escaping is undone by `unescapePattern`, so that no two patterns have one escaped
form. -/
theorem line_decodes (file : String) (tag : Tag) (hname : IsFunctionName tag.name) :
    let line := (⟨file, tag⟩ : Entry).line
    line.takeWhile (· != '\t') = tag.name.toList ∧
    (∃ command inside : List Char,
      line = tag.name.toList ++ '\t' :: file.toList ++ "\t/^".toList ++ command ∧
      command = inside ++ '$' :: '/' :: (";\"\t".toList ++ [tag.kind.letter]) ∧
      IsSearchText false (inside ++ ['$']) ∧
      cutAtSolidus false command = some (inside ++ ['$'], ";\"\t".toList ++ [tag.kind.letter]) ∧
      unescape false inside = tag.pattern.toList) ∧
    readLine? file line = some (tag.name, tag.pattern, tag.kind.letter) ∧
    Function.LeftInverse unescapePattern escapePattern ∧
    Function.Injective escapePattern := by
  intro line
  have hcut := cutAtSolidus_search tag.pattern.toList (";\"\t".toList ++ [tag.kind.letter])
  refine ⟨takeWhile_line hname, ⟨_, escape tag.pattern.toList, line_eq ⟨file, tag⟩, rfl, ?_, hcut,
    unescape_escape tag.pattern.toList⟩, readLine?_line hname, leftInverse_unescapePattern,
    leftInverse_unescapePattern.injective⟩
  exact (cutAtSolidus_eq_some_iff.mp hcut).2

/-- A pattern with a solidus behind two reverse solidi, and a reverse solidus at its end. -/
theorem line_decodes_reverseSolidi :
    IsFunctionName "f-1" ∧
    (⟨"a\tb.sh", ⟨"f-1", .function, 1, "f-1() \\\\/$\t\\"⟩⟩ : Entry).line =
      "f-1\ta\tb.sh\t/^f-1() \\\\\\\\\\/$\t\\\\$/;\"\tf".toList ∧
    readLine? "a\tb.sh" "f-1\ta\tb.sh\t/^f-1() \\\\\\\\\\/$\t\\\\$/;\"\tf".toList =
      some ("f-1", "f-1() \\\\/$\t\\", 'f') := by
  have hname : IsFunctionName "f-1" := by decide
  have hline : (⟨"a\tb.sh", ⟨"f-1", .function, 1, "f-1() \\\\/$\t\\"⟩⟩ : Entry).line =
      "f-1\ta\tb.sh\t/^f-1() \\\\\\\\\\/$\t\\\\$/;\"\tf".toList := by decide
  refine ⟨hname, hline, ?_⟩
  rw [← hline]
  exact (line_decodes "a\tb.sh" ⟨"f-1", .function, 1, "f-1() \\\\/$\t\\"⟩ hname).2.2.1

end ScriptTags.Ctags
