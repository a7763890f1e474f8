import ScriptTags.Proofs.Runs
import ScriptTags.Script.Line

/-!
# The grammar of lines

`Line.classify` reads a line from left to right and takes the longest run of a byte class at every
stage. This module gives the **grammar** it decides, in which a line is a concatenation of runs and
nothing is said about how they are found:

* `Line.GluedKeyword`: `function` with no blank after it;
* `Line.Nameless`: no name byte where the name would start;
* `Line.KeywordForm`: `function`, blanks, and a name;
* `Line.PlainForm`: a name that does not start with `function`.

A line that is no comment has exactly one of the four forms (`Line.exists_form` for one, and the
`classify_of_*` equations for at most one), and the form gives the outcome. The two byte classes
enter only through `Bytes.takeWhile_run_append` and `Bytes.dropWhile_run_append`.
-/

namespace ScriptTags.Line

open Bytes (IsRun Stops)

/-! ### The forms of a line -/

/-- A **name**: a nonempty run of name bytes. -/
def IsName (name : Bytes) : Prop :=
  name ≠ [] ∧ IsRun Byte.isIdent name

/-- At least one blank. -/
def IsGap (gap : Bytes) : Prop :=
  gap ≠ [] ∧ IsRun Byte.isSpace gap

/-- Blanks, `(`, blanks, `)`, and then anything. -/
def EmptyParens (rest : Bytes) : Prop :=
  ∃ outer inner tail, IsRun Byte.isSpace outer ∧ IsRun Byte.isSpace inner ∧
    rest = outer ++ Byte.openParen :: (inner ++ Byte.closeParen :: tail)

/-- `function` after blanks, with no blank after it. -/
def GluedKeyword (line : Bytes) : Prop :=
  ∃ lead rest, IsRun Byte.isSpace lead ∧ Stops Byte.isSpace rest ∧ line = lead ++ keyword ++ rest

/-- Blanks, perhaps `function` and more blanks, and then neither a blank nor a name byte. -/
def Nameless (line : Bytes) : Prop :=
  ∃ lead rest, IsRun Byte.isSpace lead ∧ Stops Byte.isSpace rest ∧ Stops Byte.isIdent rest ∧
    (line = lead ++ rest ∨ ∃ gap, IsGap gap ∧ line = lead ++ keyword ++ gap ++ rest)

/-- `function`, a gap, and a **name**, with blanks before them; `rest` is what follows the name. -/
def KeywordForm (line name rest : Bytes) : Prop :=
  ∃ lead gap, IsRun Byte.isSpace lead ∧ IsGap gap ∧ IsName name ∧ Stops Byte.isIdent rest ∧
    line = lead ++ keyword ++ gap ++ name ++ rest

/-- A **name** that does not start with `function`, with blanks before it; `rest` is what follows
the name. -/
def PlainForm (line name rest : Bytes) : Prop :=
  ∃ lead, IsRun Byte.isSpace lead ∧ IsName name ∧ ¬ keyword <+: name ∧ Stops Byte.isIdent rest ∧
    line = lead ++ name ++ rest

theorem isName_keyword : IsName keyword :=
  ⟨by decide, by decide⟩

/-- A name stops the blanks before it. -/
theorem IsName.stops_isSpace {name : Bytes} (h : IsName name) (rest : Bytes) :
    Stops Byte.isSpace (name ++ rest) := by
  refine h.2.stops_append h.1 (fun b hb => ?_) rest
  rw [Bool.eq_false_iff]
  intro hspace
  rw [Byte.isIdent_of_isSpace hspace] at hb
  contradiction

theorem opensEmptyParens_cons {b : Byte} {inner : Bytes} :
    opensEmptyParens (b :: inner) = true ↔
      b = Byte.openParen ∧ (inner.dropWhile Byte.isSpace).head? = some Byte.closeParen := by
  simp [opensEmptyParens]

/-- The parentheses are found after blanks exactly when they stand there. -/
theorem opensEmptyParens_dropWhile_iff {rest : Bytes} :
    opensEmptyParens (rest.dropWhile Byte.isSpace) = true ↔ EmptyParens rest := by
  constructor
  · intro h
    obtain ⟨b, inside, hsplit⟩ : ∃ b inside, rest.dropWhile Byte.isSpace = b :: inside := by
      cases hdrop : rest.dropWhile Byte.isSpace with
      | nil => simp [hdrop, opensEmptyParens] at h
      | cons b inside => exact ⟨b, inside, rfl⟩
    rw [hsplit, opensEmptyParens_cons] at h
    obtain ⟨rfl, hclose⟩ := h
    obtain ⟨tail, htail⟩ := List.head?_eq_some_iff.mp hclose
    refine ⟨rest.takeWhile Byte.isSpace, inside.takeWhile Byte.isSpace, tail,
      Bytes.isRun_takeWhile _ _, Bytes.isRun_takeWhile _ _, ?_⟩
    rw [← htail, List.takeWhile_append_dropWhile, ← hsplit, List.takeWhile_append_dropWhile]
  · rintro ⟨outer, inner, tail, houter, hinner, rfl⟩
    rw [Bytes.dropWhile_run_append houter (Bytes.stops_cons.mpr (by decide)),
      opensEmptyParens_cons, Bytes.dropWhile_run_append hinner (Bytes.stops_cons.mpr (by decide))]
    exact ⟨rfl, rfl⟩

/-! ### Each form gives its outcome -/

variable {line name rest : Bytes}

/-- A line that does not start with `#` is classified by what follows its leading blanks. -/
theorem classify_lead_append {lead body : Bytes} (hlead : IsRun Byte.isSpace lead)
    (hbody : Stops Byte.isSpace body) (hhash : (lead ++ body).head? ≠ some Byte.hash) :
    classify (lead ++ body) = classifyBody body := by
  rw [classify, if_neg hhash, Bytes.dropWhile_run_append hlead hbody]

/-- Behind the keyword, the next byte decides whether a name may follow. -/
theorem classifyBody_keyword_append (rest : Bytes) :
    classifyBody (keyword ++ rest) =
      if rest.head?.any Byte.isSpace then classifyName true (rest.dropWhile Byte.isSpace)
      else .abandoned .keywordPrefix := by
  rw [classifyBody, if_pos (List.isPrefixOf_iff_prefix.mpr ⟨rest, rfl⟩), List.drop_left]

/-- After `function` and a gap, the line is classified by its name. -/
theorem classifyBody_keyword_gap {gap body : Bytes} (hgap : IsGap gap)
    (hbody : Stops Byte.isSpace body) :
    classifyBody (keyword ++ (gap ++ body)) = classifyName true body := by
  have hdrop := Bytes.dropWhile_run_append hgap.2 hbody
  obtain ⟨b, blanks, rfl⟩ := List.exists_cons_of_ne_nil hgap.1
  have hb : Byte.isSpace b = true := hgap.2 b List.mem_cons_self
  rw [classifyBody_keyword_append, hdrop, List.cons_append, List.head?_cons, Option.any_some,
    if_pos hb]

theorem classifyBody_of_not_prefix {body : Bytes} (h : ¬ keyword <+: body) :
    classifyBody body = classifyName false body := by
  rw [classifyBody, if_neg (by rwa [List.isPrefixOf_iff_prefix])]

theorem classifyName_of_stops {body : Bytes} (marked : Bool) (h : Stops Byte.isIdent body) :
    classifyName marked body = .abandoned .noIdentifier := by
  rw [classifyName, h.takeWhile_eq_nil]
  rfl

/-- A name is taken whole, and defines something if the keyword or the parentheses confirm it. -/
theorem classifyName_append (marked : Bool) (hname : IsName name)
    (hrest : Stops Byte.isIdent rest) :
    classifyName marked (name ++ rest) =
      if marked || opensEmptyParens (rest.dropWhile Byte.isSpace) then
        .definition ⟨name, marked, opensEmptyParens (rest.dropWhile Byte.isSpace)⟩
      else .noMatch := by
  simp only [classifyName, Bytes.takeWhile_run_append hname.2 hrest,
    Bytes.dropWhile_run_append hname.2 hrest, if_neg hname.1]

/-- The keyword without a blank behind it gives the line up. -/
theorem classify_of_gluedKeyword (hhash : line.head? ≠ some Byte.hash) (h : GluedKeyword line) :
    classify line = .abandoned .keywordPrefix := by
  obtain ⟨lead, rest, hlead, hrest, rfl⟩ := h
  rw [List.append_assoc] at hhash ⊢
  rw [classify_lead_append hlead (isName_keyword.stops_isSpace rest) hhash,
    classifyBody_keyword_append]
  cases rest with
  | nil => rfl
  | cons b rest => simp [Bytes.stops_cons.mp hrest]

theorem classify_of_nameless (hhash : line.head? ≠ some Byte.hash) (h : Nameless line) :
    classify line = .abandoned .noIdentifier := by
  obtain ⟨lead, rest, hlead, hspace, hident, rfl | ⟨gap, hgap, rfl⟩⟩ := h
  · -- a byte that is no name byte does not start the keyword
    have hpre : ¬ keyword <+: rest := by
      rintro ⟨tail, rfl⟩
      exact absurd (Bytes.stops_cons.mp hident) (by decide)
    rw [classify_lead_append hlead hspace hhash, classifyBody_of_not_prefix hpre,
      classifyName_of_stops false hident]
  · simp only [List.append_assoc] at hhash ⊢
    rw [classify_lead_append hlead (isName_keyword.stops_isSpace _) hhash,
      classifyBody_keyword_gap hgap hspace, classifyName_of_stops true hident]

theorem classify_of_keywordForm (hhash : line.head? ≠ some Byte.hash)
    (h : KeywordForm line name rest) :
    classify line =
      .definition ⟨name, true, opensEmptyParens (rest.dropWhile Byte.isSpace)⟩ := by
  obtain ⟨lead, gap, hlead, hgap, hname, hrest, rfl⟩ := h
  simp only [List.append_assoc] at hhash ⊢
  rw [classify_lead_append hlead (isName_keyword.stops_isSpace _) hhash,
    classifyBody_keyword_gap hgap (hname.stops_isSpace rest), classifyName_append true hname hrest]
  rfl

/-- A name without the keyword needs the parentheses. -/
theorem classify_of_plainForm (hhash : line.head? ≠ some Byte.hash)
    (h : PlainForm line name rest) :
    classify line =
      if opensEmptyParens (rest.dropWhile Byte.isSpace) then .definition ⟨name, false, true⟩
      else .noMatch := by
  obtain ⟨lead, hlead, hname, hpre, hrest, rfl⟩ := h
  rw [List.append_assoc] at hhash ⊢
  rw [classify_lead_append hlead (hname.stops_isSpace rest) hhash,
    classifyBody_of_not_prefix (by rwa [hrest.prefix_append_iff isName_keyword.2 name]),
    classifyName_append false hname hrest]
  cases opensEmptyParens (rest.dropWhile Byte.isSpace) <;> rfl

/-! ### Every line has a form -/

/-- A byte string has no name at its start, or a name and what stops it. -/
theorem stops_or_exists_name (body : Bytes) :
    Stops Byte.isIdent body ∨
      ∃ name rest, IsName name ∧ Stops Byte.isIdent rest ∧ body = name ++ rest := by
  obtain ⟨name, rest, hname, hrest, rfl⟩ := Bytes.exists_run_append Byte.isIdent body
  by_cases hne : name = []
  · left
    rwa [hne, List.nil_append]
  · exact .inr ⟨name, rest, ⟨hne, hname⟩, hrest, rfl⟩

/-- Every line has one of the four forms. -/
theorem exists_form (line : Bytes) :
    GluedKeyword line ∨ Nameless line ∨ (∃ name rest, KeywordForm line name rest) ∨
      ∃ name rest, PlainForm line name rest := by
  obtain ⟨lead, body, hlead, hbody, rfl⟩ := Bytes.exists_run_append Byte.isSpace line
  by_cases hpre : keyword <+: body
  · obtain ⟨after, rfl⟩ := hpre
    -- the gap may be empty here, and then the keyword is glued to what follows
    obtain ⟨gap, inner, hgap, hinner, rfl⟩ := Bytes.exists_run_append Byte.isSpace after
    by_cases hne : gap = []
    · subst hne
      exact .inl ⟨lead, inner, hlead, hinner, by simp⟩
    · rcases stops_or_exists_name inner with hstop | ⟨name, rest, hname, hrest, rfl⟩
      · exact .inr (.inl ⟨lead, inner, hlead, hinner, hstop,
          .inr ⟨gap, ⟨hne, hgap⟩, by simp⟩⟩)
      · exact .inr (.inr (.inl ⟨name, rest, lead, gap, hlead, ⟨hne, hgap⟩, hname, hrest, by simp⟩))
  · rcases stops_or_exists_name body with hstop | ⟨name, rest, hname, hrest, rfl⟩
    · exact .inr (.inl ⟨lead, body, hlead, hbody, hstop, .inl rfl⟩)
    · rw [hrest.prefix_append_iff isName_keyword.2 name] at hpre
      exact .inr (.inr (.inr ⟨name, rest, lead, hlead, hname, hpre, hrest, by simp⟩))

/-! ### The grammar as a relation -/

/-- **The outcome that the grammar gives a line.** One rule per form; a plain form has two outcomes,
by whether empty parentheses confirm it. -/
inductive Reads (line : Bytes) : LineOutcome → Prop
  | comment (hhash : line.head? = some Byte.hash) : Reads line (.abandoned .comment)
  | glued (hhash : line.head? ≠ some Byte.hash) (h : GluedKeyword line) :
      Reads line (.abandoned .keywordPrefix)
  | nameless (hhash : line.head? ≠ some Byte.hash) (h : Nameless line) :
      Reads line (.abandoned .noIdentifier)
  | keyword {name rest : Bytes} {parens : Bool} (hhash : line.head? ≠ some Byte.hash)
      (h : KeywordForm line name rest) (hparens : parens = true ↔ EmptyParens rest) :
      Reads line (.definition ⟨name, true, parens⟩)
  | plain {name rest : Bytes} (hhash : line.head? ≠ some Byte.hash)
      (h : PlainForm line name rest) (hparens : EmptyParens rest) :
      Reads line (.definition ⟨name, false, true⟩)
  | unconfirmed {name rest : Bytes} (hhash : line.head? ≠ some Byte.hash)
      (h : PlainForm line name rest) (hparens : ¬ EmptyParens rest) : Reads line .noMatch

/-- The grammar gives a line no outcome but that of `classify`. -/
theorem Reads.classify_eq {outcome : LineOutcome} (h : Reads line outcome) :
    classify line = outcome := by
  cases h with
  | comment hhash => rw [classify, if_pos hhash]
  | glued hhash h => exact classify_of_gluedKeyword hhash h
  | nameless hhash h => exact classify_of_nameless hhash h
  | keyword hhash h hparens =>
    rw [classify_of_keywordForm hhash h, Bool.eq_iff_iff.mpr
      (opensEmptyParens_dropWhile_iff.trans hparens.symm)]
  | plain hhash h hparens =>
    rw [classify_of_plainForm hhash h, if_pos (opensEmptyParens_dropWhile_iff.mpr hparens)]
  | unconfirmed hhash h hparens =>
    rw [classify_of_plainForm hhash h,
      if_neg ((not_congr opensEmptyParens_dropWhile_iff).mpr hparens)]

/-- The grammar gives every line an outcome. -/
theorem exists_reads (line : Bytes) : ∃ outcome, Reads line outcome := by
  by_cases hhash : line.head? = some Byte.hash
  · exact ⟨_, .comment hhash⟩
  · rcases exists_form line with h | h | ⟨name, rest, h⟩ | ⟨name, rest, h⟩
    · exact ⟨_, .glued hhash h⟩
    · exact ⟨_, .nameless hhash h⟩
    · exact ⟨_, .keyword hhash h opensEmptyParens_dropWhile_iff⟩
    · by_cases hparens : EmptyParens rest
      · exact ⟨_, .plain hhash h hparens⟩
      · exact ⟨_, .unconfirmed hhash h hparens⟩

/-- **Classification decides the grammar.** -/
theorem classify_eq_iff_reads {outcome : LineOutcome} :
    classify line = outcome ↔ Reads line outcome := by
  refine ⟨fun h => ?_, Reads.classify_eq⟩
  obtain ⟨outcome', hreads⟩ := exists_reads line
  rwa [← h, hreads.classify_eq]

/-- What a line defines has a name. -/
theorem isName_of_classify {found : Definition} (h : classify line = .definition found) :
    IsName found.name := by
  cases classify_eq_iff_reads.mp h with
  | keyword _ hform _ =>
    obtain ⟨lead, gap, -, -, hname, -⟩ := hform
    exact hname
  | plain _ hform _ =>
    obtain ⟨lead, -, hname, -⟩ := hform
    exact hname

/-- **The grammar of every outcome.** The first byte decides what is a comment; of the other lines,
each outcome has exactly the lines of its form. -/
theorem classify_grammar (line : Bytes) :
    (classify line = .abandoned .comment ↔ line.head? = some Byte.hash) ∧
    (line.head? ≠ some Byte.hash →
      (classify line = .abandoned .keywordPrefix ↔ GluedKeyword line) ∧
      (classify line = .abandoned .noIdentifier ↔ Nameless line) ∧
      (∀ found : Definition, classify line = .definition found ↔
        ∃ rest, (found.keyword = true ∧ KeywordForm line found.name rest ∨
            found.keyword = false ∧ PlainForm line found.name rest) ∧
          (found.parens = true ↔ EmptyParens rest) ∧
          (found.keyword = true ∨ found.parens = true)) ∧
      (classify line = .noMatch ↔ ∃ name rest, PlainForm line name rest ∧ ¬ EmptyParens rest)) := by
  simp only [classify_eq_iff_reads]
  refine ⟨⟨fun h => ?_, .comment⟩, fun hhash => ⟨⟨fun h => ?_, .glued hhash⟩,
    ⟨fun h => ?_, .nameless hhash⟩, fun found => ⟨fun h => ?_, ?_⟩, ⟨fun h => ?_, ?_⟩⟩⟩
  · cases h with
    | comment hhash => exact hhash
  · cases h with
    | glued _ h => exact h
  · cases h with
    | nameless _ h => exact h
  · cases h with
    | keyword _ h hparens => exact ⟨_, .inl ⟨rfl, h⟩, hparens, .inl rfl⟩
    | plain _ h hparens => exact ⟨_, .inr ⟨rfl, h⟩, iff_of_true rfl hparens, .inr rfl⟩
  · obtain ⟨name, marked, parens⟩ := found
    rintro ⟨rest, ⟨rfl, h⟩ | ⟨rfl, h⟩, hparens, hshape⟩
    · exact .keyword hhash h hparens
    · obtain rfl : parens = true := by simpa using hshape
      exact .plain hhash h (hparens.mp rfl)
  · cases h with
    | unconfirmed _ h hparens => exact ⟨_, _, h, hparens⟩
  · rintro ⟨name, rest, h, hparens⟩
    exact .unconfirmed hhash h hparens

/-- `function` is a name like any other once it stands behind the keyword. -/
theorem classify_keyword_twice :
    classify (keyword ++ [0x20] ++ keyword ++ [Byte.openParen, 0x0B, Byte.closeParen]) =
      .definition ⟨keyword, true, true⟩ := by
  refine (((classify_grammar _).2 (by decide)).2.2.1 _).mpr
    ⟨[Byte.openParen, 0x0B, Byte.closeParen], .inl ⟨rfl, [], [0x20], ?_⟩, ?_, .inl rfl⟩
  · exact ⟨by decide, ⟨by decide, by decide⟩, isName_keyword, Bytes.stops_cons.mpr (by decide),
      rfl⟩
  · exact iff_of_true rfl ⟨[], [0x0B], [], by decide, by decide, rfl⟩

end ScriptTags.Line
