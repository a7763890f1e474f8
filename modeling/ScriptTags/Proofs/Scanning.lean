import ScriptTags.Proofs.Encoding
import ScriptTags.Proofs.LineGrammar
import ScriptTags.Script.Scanner

/-!
# What a scan appends

A scanner carries a name buffer from line to line and from script to script, and each line extends
that buffer instead of replacing it. What the scans append is nevertheless a function of the lines
alone: `Line.tags` numbers the lines and takes the tag of each (`Line.tag?`), with no state at all.

The link is one equation for a line (`Scan.step_of_candidate_nil`), one for the lines of a script
(`Scan.foldl_step`), and one for a sequence of scripts (`Scanner.scanAll_fresh`). The invariant that
carries all three is that the buffer is **empty between lines**; with it, the state after a scan is
known completely, the counts included.

A name enters the buffer as characters, one to a byte. That these spell the name is a fact about
names and not about the buffer: name bytes are ASCII, so the bytes of the text are the name again
(`Line.encode_text`), and no other text has them (`Line.eq_text_iff`).
-/

namespace ScriptTags

/-- The name of a definition as text. -/
def Definition.text (found : Definition) : String :=
  String.ofList (Bytes.toChars found.name)

/-! ### The tags of lines -/

namespace Line

/-- Whether a line is a definition. -/
def isDefinition (line : Bytes) : Bool :=
  match classify line with
  | .definition _ => true
  | _ => false

/-- Whether a line is a definition whose name a rule vetoes in files with this base name. -/
def isVetoed (rules : Rules) (base : String) (line : Bytes) : Bool :=
  match classify line with
  | .definition found => decide ((⟨base, found.text⟩ : Rule) ∈ rules)
  | _ => false

/-- The **tag** of the line with this number, if it is a definition that no rule vetoes. -/
def tag? (rules : Rules) (base : String) (number : Nat) (line : Bytes) : Option Tag :=
  match classify line with
  | .definition found =>
    if (⟨base, found.text⟩ : Rule) ∈ rules then none
    else some { name := found.text, line := number, pattern := Utf8.decodeLossy line }
  | _ => none

/-- The **tags** of lines that are numbered from `first` on, in order. -/
def tags (rules : Rules) (base : String) (first : Nat) (lines : List Bytes) : List Tag :=
  (lines.zipIdx first).filterMap fun numbered => tag? rules base numbered.2 numbered.1

variable {rules : Rules} {base : String} {first number : Nat} {line : Bytes} {lines : List Bytes}
  {tag : Tag} {found : Definition}

/-- The name of a definition as text has the bytes of the name. -/
theorem encode_text (h : classify line = .definition found) :
    Utf8.encode found.text = found.name :=
  Utf8.encode_toChars fun b hb =>
    Byte.isAscii_iff.mpr (Byte.lt_of_isIdent ((isName_of_classify h).2 b hb))

/-- The name of a definition as text is the one text with the bytes of the name. -/
theorem eq_text_iff (h : classify line = .definition found) {name : String} :
    name = found.text ↔ Utf8.encode name = found.name := by
  rw [← encode_text h, Utf8.encode_injective.eq_iff]

/-- When a line has a tag, and which. -/
theorem tag?_eq_some_iff :
    tag? rules base number line = some tag ↔
      ∃ found, classify line = .definition found ∧ tag.name = found.text ∧
        (⟨base, tag.name⟩ : Rule) ∉ rules ∧ tag.line = number ∧
        tag.pattern = Utf8.decodeLossy line := by
  obtain ⟨name, ⟨⟩, place, pattern⟩ := tag
  rw [tag?]
  cases classify line with
  | definition found =>
    simp only [LineOutcome.definition.injEq, exists_eq_left', Option.ite_none_left_eq_some,
      Option.some.injEq, Tag.mk.injEq, true_and]
    constructor
    · rintro ⟨hrule, rfl, rfl, rfl⟩
      exact ⟨rfl, hrule, rfl, rfl⟩
    · rintro ⟨rfl, hrule, rfl, rfl⟩
      exact ⟨hrule, rfl, rfl, rfl⟩
  | noMatch => simp
  | abandoned reason => simp

theorem line_of_tag?_eq_some (h : tag? rules base number line = some tag) : tag.line = number := by
  obtain ⟨found, -, -, -, hline, -⟩ := tag?_eq_some_iff.mp h
  exact hline

/-- A definition has a tag or is vetoed, and nothing else has or is. -/
theorem length_tag?_add_isVetoed (rules : Rules) (base : String) (number : Nat) (line : Bytes) :
    (tag? rules base number line).toList.length + (if isVetoed rules base line then 1 else 0) =
      if isDefinition line then 1 else 0 := by
  rw [tag?, isVetoed, isDefinition]
  cases classify line with
  | definition found =>
    by_cases hmem : (⟨base, found.text⟩ : Rule) ∈ rules <;> simp [hmem]
  | noMatch => rfl
  | abandoned reason => rfl

@[simp]
theorem tags_nil (rules : Rules) (base : String) (first : Nat) : tags rules base first [] = [] :=
  rfl

theorem tags_cons (rules : Rules) (base : String) (first : Nat) (line : Bytes)
    (lines : List Bytes) :
    tags rules base first (line :: lines) =
      (tag? rules base first line).toList ++ tags rules base (first + 1) lines := by
  rw [tags, List.zipIdx_cons, List.filterMap_cons]
  cases tag? rules base first line <;> rfl

theorem tags_append (rules : Rules) (base : String) (first : Nat) (lines more : List Bytes) :
    tags rules base first (lines ++ more) =
      tags rules base first lines ++ tags rules base (first + lines.length) more := by
  rw [tags, List.zipIdx_append, List.filterMap_append]
  rfl

theorem mem_tags_iff :
    tag ∈ tags rules base first lines ↔
      ∃ i line, lines[i]? = some line ∧ tag? rules base (first + i) line = some tag := by
  simp only [tags, List.mem_filterMap, Prod.exists]
  constructor
  · rintro ⟨line, number, hmem, htag⟩
    obtain ⟨i, rfl⟩ := Nat.exists_eq_add_of_le (List.le_snd_of_mem_zipIdx hmem)
    exact ⟨i, line, List.mk_add_mem_zipIdx_iff_getElem?.mp hmem, htag⟩
  · rintro ⟨i, line, hget, htag⟩
    exact ⟨line, first + i, List.mk_add_mem_zipIdx_iff_getElem?.mpr hget, htag⟩

/-- Tags stand in the order of their lines, one on a line. -/
theorem pairwise_tags (rules : Rules) (base : String) (first : Nat) (lines : List Bytes) :
    (tags rules base first lines).Pairwise fun t u => t.line < u.line := by
  induction lines generalizing first with
  | nil => exact .nil
  | cons line lines ih =>
    rw [tags_cons, List.pairwise_append]
    refine ⟨?_, ih (first + 1), fun t ht u hu => ?_⟩
    · cases tag? rules base first line <;> simp
    · -- the later lines are numbered from `first + 1` on
      have htline := line_of_tag?_eq_some (Option.mem_toList.mp ht)
      obtain ⟨i, line', -, hu⟩ := mem_tags_iff.mp hu
      have huline := line_of_tag?_eq_some hu
      omega

/-- Every definition has a tag or is vetoed. -/
theorem length_tags_add_countP (rules : Rules) (base : String) (first : Nat) (lines : List Bytes) :
    (tags rules base first lines).length + lines.countP (isVetoed rules base) =
      lines.countP isDefinition := by
  induction lines generalizing first with
  | nil => rfl
  | cons line lines ih =>
    have hline := length_tag?_add_isVetoed rules base first line
    rw [tags_cons, List.length_append, List.countP_cons, List.countP_cons, ← ih (first + 1)]
    omega

end Line

private theorem appendList_append {α : Type} (xs : Array α) (l m : List α) :
    xs ++ l ++ m = xs ++ (l ++ m) :=
  Array.ext' (by simp)

/-! ### One line -/

namespace Scan

variable {rules : Rules} {base : String} {s : Scan}

/-- **One line.** From an empty buffer, a line appends its tag, is counted, and leaves the buffer
empty. -/
theorem step_of_candidate_nil (hs : s.candidate = []) (line : Bytes) :
    step rules base s line =
      { candidate := []
        stats :=
          { lines := s.stats.lines + 1
            tags := s.stats.tags + (Line.tag? rules base (s.stats.lines + 1) line).toList.length
            suppressed := s.stats.suppressed + if Line.isVetoed rules base line then 1 else 0 }
        sink := s.sink ++ (Line.tag? rules base (s.stats.lines + 1) line).toList } := by
  rw [step, Line.tag?, Line.isVetoed, hs]
  cases Line.classify line with
  | definition found =>
    -- the buffer is extended, and since it was empty it now holds this name and no other
    have htext : String.ofList ([] ++ Bytes.toChars found.name) = found.text := rfl
    by_cases hmem : (⟨base, found.text⟩ : Rule) ∈ rules
    · simp only [htext, if_pos (Rules.vetoes_iff.mpr hmem), hmem]
      simp [suppress]
    · simp only [htext, if_neg (mt Rules.vetoes_iff.mp hmem), hmem]
      simp [emit]
  | noMatch => simp
  | abandoned reason => simp

/-! ### The lines of a script -/

/-- **The lines of a script.** From an empty buffer, lines append their tags and leave the buffer
empty; every line is counted, and so is every tag and every definition that a rule vetoes. -/
theorem foldl_step (hs : s.candidate = []) (lines : List Bytes) :
    lines.foldl (step rules base) s =
      { candidate := []
        stats :=
          { lines := s.stats.lines + lines.length
            tags := s.stats.tags + (Line.tags rules base (s.stats.lines + 1) lines).length
            suppressed := s.stats.suppressed + lines.countP (Line.isVetoed rules base) }
        sink := s.sink ++ Line.tags rules base (s.stats.lines + 1) lines } := by
  induction lines generalizing s with
  | nil =>
    obtain ⟨candidate, stats, sink⟩ := s
    obtain rfl : candidate = [] := hs
    simp
  | cons line lines ih =>
    rw [List.foldl_cons, step_of_candidate_nil hs, ih rfl, Line.tags_cons]
    -- the two states differ in the way their counts are added up
    simp only [List.countP_cons, List.length_append, List.length_cons, appendList_append,
      Nat.add_assoc, Nat.add_comm 1, Nat.add_comm (lines.countP _)]

end Scan

/-! ### One script after another -/

namespace Scanner

/-- Scans scripts **one after another**, each given by its file and its lines, with one scanner and
into one sink. -/
def scanAll (scanner : Scanner) (scripts : List (Path × List Bytes)) (sink : Array Tag) :
    Scanner × Array Tag :=
  scripts.foldl (fun state script =>
    let done := state.1.scan script.1 script.2 state.2
    (done.1, done.2.2)) (scanner, sink)

/-- A scan that starts with an empty buffer. -/
theorem scan_fresh (rules : Rules) (file : Path) (lines : List Bytes) (sink : Array Tag) :
    ({ rules } : Scanner).scan file lines sink =
      ({ rules },
       { lines := lines.length
         tags := (Line.tags rules file.baseName 1 lines).length
         suppressed := lines.countP (Line.isVetoed rules file.baseName) },
       sink ++ Line.tags rules file.baseName 1 lines) := by
  rw [scan, Scan.foldl_step rfl]
  simp

end Scanner

/-- The tags that a fresh scanner finds are those of the numbered lines. -/
theorem findTags_eq_tags (rules : Rules) (file : Path) (lines : List Bytes) :
    findTags rules file lines = Line.tags rules file.baseName 1 lines := by
  rw [findTags, Scanner.scan_fresh]
  simp

namespace Scanner

/-- **A sequence of scripts.** The scanner comes back with an empty buffer, and the sink has grown
by what fresh scanners find. -/
theorem scanAll_fresh (rules : Rules) (scripts : List (Path × List Bytes)) (sink : Array Tag) :
    ({ rules } : Scanner).scanAll scripts sink =
      ({ rules }, sink ++ scripts.flatMap fun script => findTags rules script.1 script.2) := by
  induction scripts generalizing sink with
  | nil => simp [scanAll]
  | cons script scripts ih =>
    rw [scanAll, List.foldl_cons, scan_fresh, ← scanAll, ih, List.flatMap_cons, ← findTags_eq_tags,
      appendList_append]

/-- **Scans do not leak into each other.** Whatever one scanner has scanned into a sink before, the
next script appends to the sink what a fresh scanner finds in it, which is the tag of each line that
is a definition no rule vetoes, under the number of the line. The bytes of the name of a tag are
those that the line defines, and it shows the line. The buffer is empty before the scan, after each
of its lines, and after it, and the counts are those of the script alone. -/
theorem scan_after_scanAll (rules : Rules) (earlier : List (Path × List Bytes))
    (initial : Array Tag) (file : Path) (lines : List Bytes) :
    let before := ({ rules } : Scanner).scanAll earlier initial
    let after := before.1.scan file lines before.2
    let found := findTags rules file lines
    before = ({ rules, candidate := [] },
      initial ++ earlier.flatMap fun script => findTags rules script.1 script.2) ∧
    after.2.2 = before.2 ++ found ∧
    found = (lines.zipIdx 1).filterMap (fun numbered =>
      Line.tag? rules file.baseName numbered.2 numbered.1) ∧
    (∀ number line tag, Line.tag? rules file.baseName number line = some tag ↔
      ∃ definition, Line.classify line = .definition definition ∧
        Utf8.encode tag.name = definition.name ∧
        (⟨file.baseName, tag.name⟩ : Rule) ∉ rules ∧ tag.line = number ∧
        tag.pattern = Utf8.decodeLossy line) ∧
    (∀ seen, seen <+: lines →
      (seen.foldl (Scan.step rules file.baseName) ⟨before.1.candidate, {}, before.2⟩).candidate =
        []) ∧
    after.1 = { rules, candidate := [] } ∧
    after.2.1.lines = lines.length ∧
    after.2.1.tags = found.length ∧
    after.2.1.tags + after.2.1.suppressed = lines.countP Line.isDefinition := by
  intro before after found
  have hbefore : before = ({ rules },
      initial ++ earlier.flatMap fun script => findTags rules script.1 script.2) :=
    scanAll_fresh rules earlier initial
  have hfound : found = Line.tags rules file.baseName 1 lines := findTags_eq_tags rules file lines
  have hafter : after =
      ({ rules },
       { lines := lines.length
         tags := found.length
         suppressed := lines.countP (Line.isVetoed rules file.baseName) },
       before.2 ++ found) := by
    change before.1.scan file lines before.2 = _
    rw [hbefore, scan_fresh, ← hfound]
  refine ⟨hbefore, by rw [hafter], hfound, fun number line tag => ?_, fun seen _ => ?_,
    by rw [hafter], by rw [hafter], by rw [hafter], ?_⟩
  · rw [Line.tag?_eq_some_iff]
    exact exists_congr fun definition => and_congr_right fun hdefinition =>
      and_congr_left' (Line.eq_text_iff hdefinition)
  · rw [hbefore, Scan.foldl_step rfl]
  · rw [hafter, hfound]
    exact Line.length_tags_add_countP rules file.baseName 1 lines

/-- A scanner that has found `setup` in a `configure` script, where its first rule vetoes `main`,
goes on to a script in which `main` is a function like any other and its second rule vetoes `skip`.
Both scans add to a sink that holds a tag already; a byte of the last line is no text. -/
theorem scan_after_scanAll_configure :
    let rules : Rules := [⟨"configure", "main"⟩, ⟨"run.sh", "skip"⟩]
    let earlier := [(Path.ofString "sub/configure",
      [Bytes.ofAscii "main ()", Bytes.ofAscii "setup ()"])]
    let lines := [Bytes.ofAscii "function main", Bytes.ofAscii "# note ()",
      Bytes.ofAscii "skip ()", Bytes.ofAscii "a-b ( ) " ++ [0xFF]]
    let before := ({ rules } : Scanner).scanAll earlier #[⟨"old", .function, 7, "old()"⟩]
    let after := before.1.scan (Path.ofString "lib/run.sh") lines before.2
    before = ({ rules, candidate := [] },
      #[⟨"old", .function, 7, "old()"⟩, ⟨"setup", .function, 2, "setup ()"⟩]) ∧
    after = ({ rules, candidate := [] }, { lines := 4, tags := 2, suppressed := 1 },
      #[⟨"old", .function, 7, "old()"⟩, ⟨"setup", .function, 2, "setup ()"⟩,
        ⟨"main", .function, 1, "function main"⟩,
        ⟨"a-b", .function, 4, "a-b ( ) \uFFFD"⟩]) := by
  intro rules earlier lines
  obtain ⟨hbefore, hsink, -, -, -, hscanner, hlines, htags, hcount⟩ :=
    scan_after_scanAll rules earlier #[⟨"old", .function, 7, "old()"⟩] (Path.ofString "lib/run.sh")
      lines
  have hsetup : (earlier.flatMap fun script => findTags rules script.1 script.2) =
      [⟨"setup", .function, 2, "setup ()"⟩] := by rfl
  have hfound : findTags rules (Path.ofString "lib/run.sh") lines =
      [⟨"main", .function, 1, "function main"⟩, ⟨"a-b", .function, 4, "a-b ( ) \uFFFD"⟩] := by rfl
  have hdefinitions : lines.countP Line.isDefinition = 3 := by rfl
  rw [hsetup] at hbefore
  rw [hfound] at hsink htags
  rw [hdefinitions] at hcount
  -- fresh scans have been evaluated; the scanner that outlives them is known by the theorem alone
  dsimp only
  generalize Scanner.scanAll _ earlier _ = before at *
  subst hbefore
  generalize Scanner.scan _ _ lines _ = after at *
  obtain ⟨scanner, ⟨number, tags, suppressed⟩, sink⟩ := after
  obtain rfl : scanner = { rules } := hscanner
  obtain rfl : number = 4 := hlines
  obtain rfl : tags = 2 := htags
  obtain rfl : suppressed = 1 := Nat.add_left_cancel (n := 2) hcount
  obtain rfl := hsink
  exact ⟨rfl, rfl⟩

end Scanner

end ScriptTags
