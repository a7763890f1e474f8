import ScriptTags.Proofs.Encoding
import ScriptTags.Proofs.LineGrammar
import ScriptTags.Proofs.Scanning

/-!
# A tag is found again in its pattern

The pattern of a tag is what lossy decoding shows of its line, and in the bytes of a pattern every
ill-formed stretch of the line has become a replacement character, which may be longer or shorter.
This changes nothing about what the line defines.

The reason is that classification **reads ASCII bytes only** (`Line.classify_append`): each of its
runs ends at the latest before the first byte above the ASCII range, and what stands there, and
behind it, is never looked at. Up to that byte, a line and the bytes of its decoding are the same.
-/

namespace ScriptTags

open Bytes (IsRun Stops)

namespace Line

variable {rest : Bytes}

theorem stops_isSpace (h : Stops Byte.isAscii rest) : Stops Byte.isSpace rest :=
  h.mono fun _ hb => Byte.isAscii_iff.mpr (Byte.lt_of_isSpace hb)

theorem stops_isIdent (h : Stops Byte.isAscii rest) : Stops Byte.isIdent rest :=
  h.mono fun _ hb => Byte.isAscii_iff.mpr (Byte.lt_of_isIdent hb)

/-- Parentheses are ASCII, and are not looked for past what is not. -/
theorem opensEmptyParens_append (h : Stops Byte.isAscii rest) (bytes : Bytes) :
    opensEmptyParens (bytes ++ rest) = opensEmptyParens bytes := by
  rw [Bool.eq_iff_iff]
  cases bytes with
  | nil =>
    refine iff_of_false (fun hopens => ?_) (by decide)
    cases rest with
    | nil => contradiction
    | cons b rest =>
      rw [List.nil_append, opensEmptyParens_cons] at hopens
      rw [hopens.1, Bytes.stops_cons] at h
      contradiction
  | cons b inner =>
    rw [List.cons_append, opensEmptyParens_cons, opensEmptyParens_cons,
      (stops_isSpace h).dropWhile_append, h.head?_append_eq_some_iff (by decide)]

/-- A name and its parentheses are read from the ASCII front of a line. -/
theorem classifyName_append_of_stops (h : Stops Byte.isAscii rest) (marked : Bool) (body : Bytes) :
    classifyName marked (body ++ rest) = classifyName marked body := by
  simp only [classifyName, (stops_isIdent h).takeWhile_append, (stops_isIdent h).dropWhile_append,
    (stops_isSpace h).dropWhile_append, opensEmptyParens_append h]

theorem classifyBody_append (h : Stops Byte.isAscii rest) (body : Bytes) :
    classifyBody (body ++ rest) = classifyBody body := by
  by_cases hpre : keyword <+: body
  · obtain ⟨after, rfl⟩ := hpre
    have hblank : (after ++ rest).head?.any Byte.isSpace = after.head?.any Byte.isSpace := by
      cases after with
      | nil =>
        cases rest with
        | nil => rfl
        | cons b rest => exact Bytes.stops_cons.mp (stops_isSpace h)
      | cons b after => rfl
    rw [List.append_assoc, classifyBody_keyword_append, classifyBody_keyword_append, hblank,
      (stops_isSpace h).dropWhile_append, classifyName_append_of_stops h]
  · have hnot : ¬ keyword <+: body ++ rest := by
      rwa [(stops_isIdent h).prefix_append_iff isName_keyword.2]
    have hname := classifyName_append_of_stops h false body
    rwa [← classifyBody_of_not_prefix hnot, ← classifyBody_of_not_prefix hpre] at hname

/-- **Classification reads ASCII bytes only.** A line is classified by the bytes before the first
one that is above the ASCII range. -/
theorem classify_append (h : Stops Byte.isAscii rest) (line : Bytes) :
    classify (line ++ rest) = classify line := by
  rw [classify, classify, (stops_isSpace h).dropWhile_append, classifyBody_append h]
  simp only [h.head?_append_eq_some_iff (b := Byte.hash) (by decide)]

/-- A line and the bytes of its decoding are classified alike. -/
theorem classify_encode_decodeLossy (line : Bytes) :
    classify (Utf8.encode (Utf8.decodeLossy line)) = classify line := by
  obtain ⟨run, rest, hrun, hrest, rfl⟩ := Bytes.exists_run_append Byte.isAscii line
  rw [Utf8.encode_decodeLossy_run_append hrun, classify_append hrest,
    classify_append (Utf8.stops_encode_decodeLossy hrest)]

/-- The pattern of a tag, as a line of its own, has that tag. -/
theorem tag?_encode_pattern {rules : Rules} {base : String} {number : Nat} {line : Bytes}
    {tag : Tag} (h : tag? rules base number line = some tag) (number' : Nat) :
    tag? rules base number' (Utf8.encode tag.pattern) = some { tag with line := number' } := by
  obtain ⟨found, hfound, hname, hrule, -, hpattern⟩ := tag?_eq_some_iff.mp h
  have hclassify : classify (Utf8.encode tag.pattern) = .definition found := by
    rw [hpattern, classify_encode_decodeLossy, hfound]
  exact tag?_eq_some_iff.mpr
    ⟨found, hclassify, hname, hrule, rfl, (Utf8.decodeLossy_encode tag.pattern).symm⟩

end Line

/-- **Decoding keeps what a line defines.** The bytes of its lossy decoding are classified as the
line is, with the same name bytes. So a tag is found again in its pattern: scanned alone, the
pattern gives that tag and no other, on line one. -/
theorem findTags_pattern :
    (∀ line, Line.classify (Utf8.encode (Utf8.decodeLossy line)) = Line.classify line) ∧
    ∀ (rules : Rules) (file : Path) (lines : List Bytes), ∀ tag ∈ findTags rules file lines,
      findTags rules file [Utf8.encode tag.pattern] = [{ tag with line := 1 }] := by
  refine ⟨Line.classify_encode_decodeLossy, fun rules file lines tag htag => ?_⟩
  rw [findTags_eq_tags, Line.mem_tags_iff] at htag
  obtain ⟨i, line, -, htag⟩ := htag
  have hpattern := Line.tag?_encode_pattern htag 1
  rw [findTags_eq_tags, Line.tags_cons, hpattern]
  rfl

/-- A byte that starts no sequence, and sequences cut off by a parenthesis or by the line's end. -/
def brokenLines : List Bytes :=
  [[0xFF], Bytes.ofAscii "f (" ++ [0xE2, 0x82, 0x29],
    Bytes.ofAscii "g() \x7b " ++ [0xF0, 0x9F, 0x98]]

theorem findTags_pattern_brokenLines :
    findTags Rules.builtin (Path.ofString "a.sh") brokenLines =
      [⟨"g", .function, 3, "g() \x7b \uFFFD"⟩] ∧
    findTags Rules.builtin (Path.ofString "a.sh") [Utf8.encode "g() \x7b \uFFFD"] =
      [⟨"g", .function, 1, "g() \x7b \uFFFD"⟩] := by
  have htags : findTags Rules.builtin (Path.ofString "a.sh") brokenLines =
      [⟨"g", .function, 3, "g() \x7b \uFFFD"⟩] := by decide +kernel
  refine ⟨htags, findTags_pattern.2 Rules.builtin (Path.ofString "a.sh") brokenLines
    ⟨"g", .function, 3, "g() \x7b \uFFFD"⟩ ?_⟩
  rw [htags]
  exact List.mem_cons_self

end ScriptTags
