import ScriptTags.Output.Toon
import ScriptTags.Proofs.TagText

/-!
# Reading tables of tags back

TOON writes the paths of scripts without escapes unless it quotes them, and some of them cannot be
told apart: the file `true` and the file `"true"` are both written as `"true"`. Tags are another
matter. No string, quoted or not, breaks its line (`Toon.lf_notMem_string`), so the text falls into
its lines again; the heads say how many files and rows follow, so nothing inside a line can pass for
a row or a file; and a name is what is left of its field without quotation marks
(`Toon.filter_string`).

`Toon.readTags` reads the tags of a text in this way, without looking at files and languages, and
`Toon.readTags_text` says that it finds the tags that were written.
-/

namespace ScriptTags.Toon

/-! ### A reader of tags -/

/-- The name and the line number that a file's tags come with. -/
def namesAndLines (f : TagFile) : List (String × Nat) :=
  f.tags.map fun t => (t.name, t.line)

/-- **Reads the count** in the brackets of a head. -/
def readCount (head : List Char) : Nat :=
  Nat.ofDigitChars 10 ((head.dropWhile (· != '[')).tail.takeWhile Char.isDigit) 0

/-- **Reads a row**: a name behind six spaces, a kind, and a line number. -/
def readRow (line : List Char) : String × Nat :=
  match line.splitOn ',' with
  | [name, _, number] =>
    (String.ofList ((name.drop 6).filter (· != '"')), Nat.ofDigitChars 10 number 0)
  | _ => ("", 0)

/-- **Reads the tags** of so many files, each from its head on: two lines are passed over, and the
third says how many rows follow. -/
def readFiles : Nat → List (List Char) → List (List (String × Nat))
  | n + 1, _ :: _ :: head :: lines =>
    (lines.take (readCount head)).map readRow :: readFiles n (lines.drop (readCount head))
  | _, _ => []

/-- The tags of a **TOON text**, file by file. -/
def readTags (text : String) : List (List (String × Nat)) :=
  match text.toList.splitOn '\n' with
  | [] => []
  | head :: lines => readFiles (readCount head) lines

/-! ### Strings -/

theorem lf_notMem_escapeChar (c : Char) : '\n' ∉ escapeChar c := by
  rw [escapeChar]
  repeat' split
  case isFalse hlf _ _ _ _ => simpa using Ne.symm hlf
  all_goals decide

/-- **A string stays on its line**, in quotes or not. -/
theorem lf_notMem_string (s : String) : '\n' ∉ string s := by
  rw [string]
  split
  · simp [lf_notMem_escapeChar]
  · next hbare =>
    intro hlf
    refine hbare ?_
    have hany : s.toList.any isDelimiter = true := List.any_eq_true.mpr ⟨'\n', hlf, by decide⟩
    simp [needsQuotes, hany]

/-- Nothing in a name is escaped. -/
theorem escapeChar_of_isNameChar {c : Char} (h : isNameChar c = true) : escapeChar c = [c] := by
  have hne : ∀ c', isNameChar c' = false → c ≠ c' := by
    rintro c' hc' rfl
    rw [h] at hc'
    contradiction
  rw [escapeChar, if_neg (hne _ (by decide)), if_neg (hne _ (by decide)),
    if_neg (hne _ (by decide)), if_neg (hne _ (by decide)), if_neg (hne _ (by decide))]

theorem string_of_isFunctionName {s : String} (h : IsFunctionName s) :
    string s = if needsQuotes s then '"' :: s.toList ++ ['"'] else s.toList := by
  have hescape : s.toList.flatMap escapeChar = s.toList := by
    have hchars : s.toList.map escapeChar = s.toList.map fun c => [c] :=
      List.map_congr_left fun c hc => escapeChar_of_isNameChar (h.2 c hc)
    rw [List.flatMap_def, hchars, ← List.flatMap_def, List.flatMap_singleton']
  rw [string, hescape]

/-- **A name is its form without quotation marks.** -/
theorem filter_string {s : String} (h : IsFunctionName s) :
    (string s).filter (· != '"') = s.toList := by
  have hquote : '"' ∉ s.toList := h.notMem (by decide)
  have hname : s.toList.filter (· != '"') = s.toList := by
    rw [List.filter_eq_self]
    intro c hc
    exact bne_iff_ne.mpr fun heq => hquote (heq ▸ hc)
  rw [string_of_isFunctionName h]
  split
  · simp [hname]
  · exact hname

theorem comma_notMem_string {s : String} (h : IsFunctionName s) : ',' ∉ string s := by
  have hcomma : ',' ∉ s.toList := h.notMem (by decide)
  rw [string_of_isFunctionName h]
  split <;> simp [hcomma]

/-! ### Numbers -/

theorem notMem_toDigits {c : Char} (hc : c.isDigit = false) (n : Nat) : c ∉ Nat.toDigits 10 n := by
  intro hmem
  have hdigit : c.isDigit = true := Nat.isDigit_of_mem_toDigits (by decide) (by decide) hmem
  rw [hc] at hdigit
  contradiction

/-- A head is read up to the bracket that closes its count, whatever follows. -/
theorem readCount_append {front : List Char} (hfront : '[' ∉ front) (n : Nat) (rest : List Char) :
    readCount (front ++ count n ++ rest) = n := by
  have hskip : ∀ c ∈ front, (c != '[') = true := fun c hc =>
    bne_iff_ne.mpr fun heq => hfront (heq ▸ hc)
  have hdigits : ∀ c ∈ Nat.toDigits 10 n, c.isDigit = true := fun c hc =>
    Nat.isDigit_of_mem_toDigits (by decide) (by decide) hc
  have hcount : ((front ++ count n ++ rest).dropWhile (· != '[')).tail =
      Nat.toDigits 10 n ++ ']' :: rest := by
    rw [List.append_assoc, List.dropWhile_append_of_pos hskip]
    simp [count]
  rw [readCount, hcount, List.takeWhile_append_of_pos hdigits]
  simp [Nat.ofDigitChars_ten_toDigits]

/-! ### Lines -/

theorem tableHead_eq (tags : List Tag) :
    tableHead tags = "    tags: ".toList ++ count tags.length ++
      ((if tags.isEmpty then [] else columns) ++ [':']) := by
  unfold tableHead
  exact List.append_assoc _ _ _

theorem readCount_tableHead (tags : List Tag) : readCount (tableHead tags) = tags.length := by
  rw [tableHead_eq]
  exact readCount_append (by decide) _ _

/-- **A row reads back** to the name and the line of its tag. -/
theorem readRow_row {t : Tag} (h : IsFunctionName t.name) : readRow (row t) = (t.name, t.line) := by
  have hname : ',' ∉ List.replicate 6 ' ' ++ string t.name := by
    simp [comma_notMem_string h]
  have hkind : ',' ∉ string t.kind.name := by
    cases t.kind
    decide
  have hfields : (row t).splitOn ',' =
      [List.replicate 6 ' ' ++ string t.name, string t.kind.name, Nat.toDigits 10 t.line] := by
    rw [row, List.append_assoc, List.cons_append, List.splitOn_append_cons_self_of_not_mem hname,
      List.splitOn_append_cons_self_of_not_mem hkind,
      List.splitOn_eq_singleton (notMem_toDigits (by decide) t.line)]
  simp [readRow, hfields, filter_string h, Nat.ofDigitChars_ten_toDigits]

theorem lf_notMem_row (t : Tag) : '\n' ∉ row t := by
  simp [row, lf_notMem_string, notMem_toDigits]

theorem lf_notMem_fileLines (f : TagFile) : ∀ line ∈ fileLines f, '\n' ∉ line := by
  intro line hline
  simp only [fileLines, List.mem_cons, List.mem_map] at hline
  rcases hline with rfl | rfl | rfl | ⟨t, -, rfl⟩
  · simp [lf_notMem_string]
  · simp [lf_notMem_string]
  · have hcolumns : '\n' ∉ columns := by decide
    rw [tableHead_eq]
    split <;> simp [count, notMem_toDigits, hcolumns]
  · exact lf_notMem_row t

/-- **The text falls into its lines again.** -/
theorem splitOn_text (files : List TagFile) : (text files).toList.splitOn '\n' = lines files := by
  rw [text, String.toList_ofList]
  refine List.splitOn_intercalate '\n' ?_ (List.cons_ne_nil _ _)
  intro line hline
  rcases List.mem_cons.mp hline with rfl | hfile
  · simp [count, notMem_toDigits]
  · obtain ⟨f, -, hf⟩ := List.mem_flatMap.mp hfile
    exact lf_notMem_fileLines f line hf

/-! ### Files -/

variable {files files' : List TagFile}

/-- The rows of a file are those that its head counts, and the next file starts behind them. -/
theorem readFiles_flatMap (hnames : ∀ f ∈ files, ∀ t ∈ f.tags, IsFunctionName t.name) :
    readFiles files.length (files.flatMap fileLines) = files.map namesAndLines := by
  induction files with
  | nil => rfl
  | cons f files ih =>
    rw [List.forall_mem_cons] at hnames
    have hrows : (f.tags.map row).map readRow = namesAndLines f := by
      rw [List.map_map, namesAndLines]
      exact List.map_congr_left fun t ht => readRow_row (hnames.1 t ht)
    have hcount : readCount (tableHead f.tags) = (f.tags.map row).length := by
      rw [readCount_tableHead, List.length_map]
    rw [List.flatMap_cons, fileLines, List.length_cons, List.cons_append, List.cons_append,
      List.cons_append, readFiles, hcount, List.take_left, List.drop_left, hrows, ih hnames.2,
      List.map_cons]

/-- **Reading finds the tags that were written.** -/
theorem readTags_text (hnames : ∀ f ∈ files, ∀ t ∈ f.tags, IsFunctionName t.name) :
    readTags (text files) = files.map namesAndLines := by
  have hhead : readCount ("files".toList ++ count files.length ++ [':']) = files.length :=
    readCount_append (by decide) _ _
  simp only [readTags, splitOn_text, lines]
  rw [hhead, readFiles_flatMap hnames]

/-- **TOON loses no tag.** Lists of files with the same text have as many files, and files at the
same place have the same names and lines in the same order, whatever their paths and languages hold.
-/
theorem namesAndLines_eq_of_text_eq
    (hnames : ∀ f ∈ files, ∀ t ∈ f.tags, IsFunctionName t.name)
    (hnames' : ∀ f ∈ files', ∀ t ∈ f.tags, IsFunctionName t.name)
    (h : text files = text files') :
    files.length = files'.length ∧
      (files.map fun f => f.tags.map fun t => (t.name, t.line)) =
        files'.map fun f => f.tags.map fun t => (t.name, t.line) := by
  have htags : files.map namesAndLines = files'.map namesAndLines := by
    rw [← readTags_text hnames, h, readTags_text hnames']
  refine ⟨?_, htags⟩
  simpa using congrArg List.length htags

/-- Two paths that are written alike, and a name that looks like a number. -/
theorem namesAndLines_eq_of_text_eq_quoted :
    let bare : List TagFile := [⟨"true", "sh", [⟨"1-2", .function, 7, "1-2()"⟩]⟩]
    let quoted : List TagFile := [⟨"\"true\"", "sh", [⟨"1-2", .function, 7, "function 1-2"⟩]⟩]
    bare ≠ quoted ∧ text bare = text quoted ∧ bare.length = quoted.length ∧
      (bare.map fun f => f.tags.map fun t => (t.name, t.line)) =
        quoted.map fun f => f.tags.map fun t => (t.name, t.line) := by
  intro bare quoted
  have htext : text bare = text quoted := by decide
  have hbare : ∀ f ∈ bare, ∀ t ∈ f.tags, IsFunctionName t.name := by decide
  have hquoted : ∀ f ∈ quoted, ∀ t ∈ f.tags, IsFunctionName t.name := by decide
  exact ⟨by decide, htext, namesAndLines_eq_of_text_eq hbare hquoted htext⟩

end ScriptTags.Toon
