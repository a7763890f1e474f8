import ScriptTags.Proofs.CursorMoves
import ScriptTags.Script.Line

/-!
# Reading a line with a cursor

`Line.classify` cuts a line into pieces and never speaks of a position. Here a **cursor** reads the
line from left to right instead: it skips blanks, reads the keyword and the blanks behind it, then
the name and the blanks behind that, and looks for empty parentheses. It looks ahead and advances by
the length of the keyword, and by nothing else.

That distance is only used where the keyword stands, so the sum stays within the line and the
reading is never stopped (`Cursor.Valid.fits_keyword`). Every step leaves a valid cursor whose
unread bytes are known, and so the cursor classifies every line as `Line.classify` does, in a
program with overflow checks and in one without (`Cursor.readLine_eq_classify`).
-/

namespace ScriptTags.Cursor

/-- The length of the keyword, as a word. -/
def keywordLength : UInt64 :=
  UInt64.ofNat Line.keyword.length

/-- Reads the **keyword** and the blanks behind it, if it stands there: whether it does, and the
cursor behind it. -/
def readKeyword (o : Overflow) (c : Cursor) : Except Panic (Except Abandon (Bool × Cursor)) :=
  if !c.startsWith Line.keyword then .ok (.ok (false, c))
  else do
    if !(← c.peekAt o keywordLength).any Byte.isSpace then return .error .keywordPrefix
    let c' ← c.advance o keywordLength
    return .ok (true, c'.skipWhitespace)

/-- Reads a **name** and the blanks behind it. -/
def readName (c : Cursor) : Except Abandon (Bytes × Cursor) :=
  let (name, c') := c.takeWhile Byte.isIdent
  if name = [] then .error .noIdentifier else .ok (name, c'.skipWhitespace)

/-- Whether **parentheses** that hold blanks only come next. -/
def readEmptyParens (c : Cursor) : Bool :=
  let (b, c') := c.bump
  b == some Byte.openParen && c'.skipWhitespace.peek == some Byte.closeParen

/-- Classifies the part of a line from the name on. -/
def readBody (keyword : Bool) (c : Cursor) : LineOutcome :=
  match c.readName with
  | .error reason => .abandoned reason
  | .ok (name, c') =>
    let parens := c'.readEmptyParens
    if keyword || parens then .definition ⟨name, keyword, parens⟩ else .noMatch

/-- **Reads a line.** -/
def readLine (o : Overflow) (line : Bytes) : Except Panic LineOutcome :=
  if line.head? = some Byte.hash then .ok (.abandoned .comment)
  else do
    match ← ({ bytes := line } : Cursor).skipWhitespace.readKeyword o with
    | .error reason => return .abandoned reason
    | .ok (keyword, c) => return c.readBody keyword

variable {o : Overflow} {c : Cursor}

/-! ### The unread bytes after each step -/

theorem Valid.takeWhile (h : c.Valid) (p : Byte → Bool) : (c.takeWhile p).2.Valid :=
  (h.movesBy_takeWhile p).valid h

/-- What is left behind a run of bytes. -/
theorem Valid.rest_takeWhile (h : c.Valid) (p : Byte → Bool) :
    (c.takeWhile p).2.rest = c.rest.dropWhile p := by
  have hsplit : (c.takeWhile p).1 ++ c.rest.dropWhile p = c.rest :=
    List.takeWhile_append_dropWhile
  calc (c.takeWhile p).2.rest
      = c.rest.drop (c.takeWhile p).1.length := (h.movesBy_takeWhile p).rest_eq
    _ = ((c.takeWhile p).1 ++ c.rest.dropWhile p).drop (c.takeWhile p).1.length := by rw [hsplit]
    _ = c.rest.dropWhile p := List.drop_left

theorem peek_eq (c : Cursor) : c.peek = c.rest.head? := by
  rw [peek, rest, List.head?_drop]

/-- A byte that is read is the next one, and the others are left. -/
theorem Valid.rest_bump {b : Byte} {more : Bytes} (h : c.Valid) (hrest : c.rest = b :: more) :
    c.bump.1 = some b ∧ c.bump.2.Valid ∧ c.bump.2.rest = more := by
  have hone : 1 ≤ c.rest.length := by rw [hrest]; simp
  have hmoves := h.movesBy_add hone
  have hbump : c.bump = (some b, { c with pos := c.pos + 1 }) := by
    rw [bump, peek_eq, hrest]
    rfl
  rw [hbump]
  refine ⟨rfl, hmoves.valid h, ?_⟩
  exact hmoves.rest_eq.trans (by rw [hrest]; rfl)

/-- Where the keyword stands, its length fits: it leads to the end of the line at most. -/
theorem Valid.fits_keyword (h : c.Valid) (hstarts : Line.keyword <+: c.rest) :
    c.pos.toNat + keywordLength.toNat < UInt64.size := by
  have hlength := h.length_lt
  have hrest := c.length_rest
  have hle := hstarts.length_le
  have hkeyword : keywordLength.toNat = Line.keyword.length := rfl
  have hpos : 0 < Line.keyword.length := by decide
  omega

/-! ### The parts of a line -/

theorem Valid.readEmptyParens_eq (h : c.Valid) :
    c.readEmptyParens = Line.opensEmptyParens c.rest := by
  cases hrest : c.rest with
  | nil =>
    have hbump : c.bump = (none, c) := by rw [bump, peek_eq, hrest]; rfl
    rw [readEmptyParens, hbump]
    rfl
  | cons b inner =>
    obtain ⟨hb, hvalid, hinner⟩ := h.rest_bump hrest
    have hskip := hvalid.rest_takeWhile Byte.isSpace
    simp only [readEmptyParens, hb, skipWhitespace, peek_eq, hskip, hinner, Line.opensEmptyParens]
    rfl

/-- The part from the name on is classified by the unread bytes. -/
theorem Valid.readBody_eq (h : c.Valid) (keyword : Bool) :
    c.readBody keyword = Line.classifyName keyword c.rest := by
  have hname := h.takeWhile Byte.isIdent
  have hblanks := hname.takeWhile Byte.isSpace
  have hrest : (c.takeWhile Byte.isIdent).2.skipWhitespace.rest =
      (c.rest.dropWhile Byte.isIdent).dropWhile Byte.isSpace := by
    rw [skipWhitespace, hname.rest_takeWhile, h.rest_takeWhile]
  have hparens := hblanks.readEmptyParens_eq
  rw [← skipWhitespace, hrest] at hparens
  have htaken : (c.takeWhile Byte.isIdent).1 = c.rest.takeWhile Byte.isIdent := rfl
  simp only [readBody, readName, Line.classifyName, htaken]
  by_cases hnil : c.rest.takeWhile Byte.isIdent = []
  · simp only [if_pos hnil]
  · simp only [if_neg hnil, hparens]

/-! ### The keyword -/

theorem readKeyword_of_not_prefix (o : Overflow) (hstarts : ¬ Line.keyword <+: c.rest) :
    c.readKeyword o = .ok (.ok (false, c)) := by
  have hfalse : c.startsWith Line.keyword = false := by
    rwa [startsWith, Bool.eq_false_iff, ne_eq, List.isPrefixOf_iff_prefix]
  rw [readKeyword, hfalse]
  rfl

/-- The byte that is looked at is the one behind the keyword. -/
theorem Valid.peekAt_keyword (h : c.Valid) (o : Overflow) (hstarts : Line.keyword <+: c.rest) :
    c.peekAt o keywordLength = .ok (c.rest.drop Line.keyword.length).head? := by
  rw [peekAt_of_fits o (h.fits_keyword hstarts), List.head?_drop]
  rfl

/-- A keyword with no blank behind it gives the line up. -/
theorem Valid.readKeyword_glued (h : c.Valid) (o : Overflow) (hstarts : Line.keyword <+: c.rest)
    (hglued : ¬ (c.rest.drop Line.keyword.length).head?.any Byte.isSpace = true) :
    c.readKeyword o = .ok (.error .keywordPrefix) := by
  have htrue : c.startsWith Line.keyword = true := List.isPrefixOf_iff_prefix.mpr hstarts
  simp only [readKeyword, htrue, h.peekAt_keyword o hstarts, bind, Except.bind, hglued]
  rfl

/-- A keyword with a blank behind it is read, and the blanks are read with it. -/
theorem Valid.exists_readKeyword (h : c.Valid) (o : Overflow) (hstarts : Line.keyword <+: c.rest)
    (hblank : (c.rest.drop Line.keyword.length).head?.any Byte.isSpace = true) :
    ∃ c', c.readKeyword o = .ok (.ok (true, c')) ∧ c'.Valid ∧
      c'.rest = (c.rest.drop Line.keyword.length).dropWhile Byte.isSpace := by
  have htrue : c.startsWith Line.keyword = true := List.isPrefixOf_iff_prefix.mpr hstarts
  obtain ⟨c', hadvance, hmoves⟩ := h.exists_advance_of_fits o (h.fits_keyword hstarts)
  have hvalid := hmoves.valid h
  have htaken : (c.rest.take keywordLength.toNat).length = Line.keyword.length :=
    List.length_take_of_le hstarts.length_le
  refine ⟨c'.skipWhitespace, ?_, hvalid.takeWhile Byte.isSpace, ?_⟩
  · simp only [readKeyword, htrue, h.peekAt_keyword o hstarts, bind, Except.bind, hblank, hadvance]
    rfl
  · rw [skipWhitespace, hvalid.rest_takeWhile, hmoves.rest_eq, htaken]

/-- **A cursor classifies lines.** Nothing stops the reading of a line, and its outcome is the one
that the line has. -/
theorem readLine_eq_classify (o : Overflow) {line : Bytes} (hlength : line.length < UInt64.size) :
    readLine o line = .ok (Line.classify line) := by
  have hline : ({ bytes := line } : Cursor).Valid := ⟨hlength, Nat.zero_le _⟩
  have hstart := hline.takeWhile Byte.isSpace
  have hrest : ({ bytes := line } : Cursor).skipWhitespace.rest = line.dropWhile Byte.isSpace :=
    hline.rest_takeWhile Byte.isSpace
  rw [← skipWhitespace] at hstart
  rw [readLine, Line.classify, ← hrest, Line.classifyBody]
  generalize ({ bytes := line } : Cursor).skipWhitespace = c at hstart
  by_cases hhash : line.head? = some Byte.hash
  · rw [if_pos hhash, if_pos hhash]
  rw [if_neg hhash, if_neg hhash]
  by_cases hstarts : Line.keyword <+: c.rest
  · rw [if_pos (List.isPrefixOf_iff_prefix.mpr hstarts)]
    by_cases hblank : (c.rest.drop Line.keyword.length).head?.any Byte.isSpace = true
    · obtain ⟨c', hkeyword, hvalid, hafter⟩ := hstart.exists_readKeyword o hstarts hblank
      simp only [hkeyword, if_pos hblank, bind, Except.bind, hvalid.readBody_eq, hafter]
      rfl
    · rw [hstart.readKeyword_glued o hstarts hblank, if_neg hblank]
      rfl
  · rw [if_neg (mt List.isPrefixOf_iff_prefix.mp hstarts),
      readKeyword_of_not_prefix o hstarts, ← hstart.readBody_eq]
    rfl

end ScriptTags.Cursor
