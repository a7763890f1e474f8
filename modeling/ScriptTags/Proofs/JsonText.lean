import ScriptTags.Output
import ScriptTags.Proofs.JsonReader

/-!
# Reading JSON back

Everything that is written as JSON reads back as itself: strings of any characters, line numbers of
any size, and lists of any length. Each form is shown to **spell** its value (`Spells`): it does not
start with white space, and a reader takes it off the front of whatever may follow it. Brackets hand
this on from items to arrays and objects (`Spells.block`), so that the nest of a list of files is
put together in the shape of its definition.
-/

namespace ScriptTags.Json

open Toml (Reader ofDigits digitValue isHexDigit)
open Toml.Reader

/-! ### Forms and what may follow them -/

/-- A character that would go on with a number. -/
def goesOn (c : Char) : Bool :=
  c.isDigit || c == '.' || c == 'e' || c == 'E'

/-- A place where a value may end. -/
def IsBoundary (rest : List Char) : Prop :=
  ∀ c ∈ rest.head?, goesOn c = false

/-- **The text spells `a`** for a reader: it starts with no white space, and where a value may end
behind it the reader reads it as `a`. -/
structure Spells {α : Type} (r : Reader α) (text : List Char) (a : α) : Prop where
  solid : ∃ c ∈ text.head?, isBlank c = false
  reads : r.Reads IsBoundary text a

variable {α : Type} {r : Reader α} {text rest : List Char} {a : α}

/-- A character that no value goes on with is a boundary. -/
theorem isBoundary_cons {c : Char} (h : goesOn c = false) : IsBoundary (c :: rest) := by
  intro c' hc'
  rwa [← Option.some.inj hc']

theorem IsBoundary.head?_ne {c : Char} (h : IsBoundary rest) (hc : goesOn c = true) :
    rest.head? ≠ some c := by
  intro hhead
  rw [h c hhead] at hc
  contradiction

/-- A reader that reads a text with no blank at its start spells it. -/
theorem Spells.of_reads {c : Char} {cs : List Char} (hc : isBlank c = false)
    (h : r.Reads IsBoundary (c :: cs) a) : Spells r (c :: cs) a :=
  ⟨⟨c, rfl, hc⟩, h⟩

/-- White space in front of a token is passed over. -/
theorem token_append {blank input : List Char} (hblank : ∀ c ∈ blank, isBlank c = true)
    (hinput : ∃ c ∈ input.head?, isBlank c = false) : token r (blank ++ input) = r input := by
  have hstop : ∀ c ∈ input.head?, isBlank c = false := by
    obtain ⟨c, hc, hblank⟩ := hinput
    intro c' hc'
    rwa [Option.mem_unique hc' hc]
  exact bind_of_done (run_append hblank hstop)

theorem token_cons {c : Char} (hc : isBlank c = false) : token r (c :: rest) = r (c :: rest) :=
  token_append (List.forall_mem_nil _) ⟨c, rfl, hc⟩

/-- Blanks before a value are read over. -/
theorem Spells.reads_token {blank : List Char} (h : Spells r text a)
    (hblank : ∀ c ∈ blank, isBlank c = true) : (token r).Reads IsBoundary (blank ++ text) a := by
  intro rest hrest
  have hsolid : ∃ c ∈ (text ++ rest).head?, isBlank c = false := by
    obtain ⟨c, hc, hblank⟩ := h.solid
    exact ⟨c, by simp [Option.mem_def.mp hc], hblank⟩
  rw [List.append_assoc, token_append hblank hsolid]
  exact h.reads rest hrest

/-! ### Strings -/

/-- The digits of an escape below `U+0020` write its character. -/
theorem hexDigits_control {n : Nat} (h : n < 0x20) :
    (∀ c ∈ ['0', '0', JsonText.hexDigit (n / 16), JsonText.hexDigit (n % 16)],
      isHexDigit c = true) ∧
      ofDigits 16 ['0', '0', JsonText.hexDigit (n / 16), JsonText.hexDigit (n % 16)] = n := by
  have hdigit : ∀ d < 16,
      isHexDigit (Nat.digitChar d) = true ∧ digitValue (Nat.digitChar d) = d := by
    decide
  obtain ⟨hhigh, hhighValue⟩ := hdigit (n / 16) (by omega)
  obtain ⟨hlow, hlowValue⟩ := hdigit (n % 16) (by omega)
  have hzero : isHexDigit '0' = true ∧ digitValue '0' = 0 := hdigit 0 (by omega)
  constructor
  · simp [JsonText.hexDigit, hhigh, hlow, hzero]
  · simp only [ofDigits, JsonText.hexDigit, List.foldl_cons, List.foldl_nil, hhighValue, hlowValue,
      hzero]
    omega

/-- Four hexadecimal digits are a code unit, whatever follows them. -/
theorem codeUnit_append {digits : List Char} (hlength : digits.length = 4)
    (hdigits : ∀ c ∈ digits, isHexDigit c = true) :
    codeUnit (digits ++ rest) = .done (ofDigits 16 digits) rest := by
  rw [codeUnit, ← hlength]
  exact bind_of_done (exactly_append hdigits)

/-- **A character reads back**, escaped or not. -/
theorem reads_escapeChar (c : Char) (rest : List Char) :
    (satisfy isPlain <|> escape) (JsonText.escapeChar c ++ rest) = .done c rest := by
  rw [JsonText.escapeChar]
  -- The seven characters with an escape of their own.
  iterate 7
    split
    · next h => subst h; rfl
  split
  · next hcontrol =>
    obtain ⟨hdigits, hvalue⟩ := hexDigits_control hcontrol
    change hexChar
      (['0', '0', JsonText.hexDigit (c.toNat / 16), JsonText.hexDigit (c.toNat % 16)] ++ rest) =
      .done c rest
    rw [hexChar, bind_of_done (codeUnit_append rfl hdigits), hvalue,
      if_pos (by simp; omega), Char.ofNat_toNat]
    rfl
  · next hplain =>
    refine orElse_of_done (satisfy_cons ?_)
    have hle : '\x20' ≤ c := Nat.le_of_not_lt hplain
    simp [isPlain, *]

theorem escapeChar_ne_nil (c : Char) : JsonText.escapeChar c ≠ [] := by
  intro hnil
  have hread := reads_escapeChar c []
  rw [hnil] at hread
  contradiction

/-- **A string reads back**, whatever its characters. -/
theorem spells_string (s : String) : Spells string (JsonText.string s) s := by
  refine .of_reads (by decide) fun rest _ => ?_
  have hchars : List.Forall₂ ((satisfy isPlain <|> escape).Reads fun _ => True)
      (s.toList.map JsonText.escapeChar) s.toList := by
    rw [List.forall₂_map_left_iff, List.forall₂_same]
    exact fun c _ rest _ => reads_escapeChar c rest
  have hmany : many (satisfy isPlain <|> escape)
      ((s.toList.map JsonText.escapeChar).flatten ++ '"' :: rest) =
      .done s.toList ('"' :: rest) := by
    refine many_flatten hchars ?_ trivial rfl
    rw [List.forall_mem_map]
    exact fun c _ => ⟨escapeChar_ne_nil c, fun _ => trivial⟩
  have hform : JsonText.string s ++ rest =
      '"' :: ((s.toList.map JsonText.escapeChar).flatten ++ '"' :: rest) := by
    simp [JsonText.string, List.flatMap_def]
  change string (JsonText.string s ++ rest) = .done s rest
  rw [hform, string, bind_of_done (char_cons '"'), bind_of_done hmany, bind_of_done (char_cons '"'),
    String.ofList_toList]
  rfl

/-! ### Numbers -/

theorem number_ne_nil (n : Nat) : JsonText.number n ≠ [] :=
  Nat.toDigits_ne_nil

theorem isDigit_of_mem_number {c : Char} {n : Nat} (h : c ∈ JsonText.number n) : c.isDigit = true :=
  Nat.isDigit_of_mem_toDigits (by decide) (by decide) h

/-- A number is read back from its digits. -/
theorem ofDigits_number (n : Nat) : ofDigits 10 (JsonText.number n) = n := by
  have hvalue : ∀ c ∈ JsonText.number n, digitValue c = c.toNat - '0'.toNat := fun c hc =>
    if_pos (isDigit_of_mem_number hc)
  calc ofDigits 10 (JsonText.number n)
      = Nat.ofDigitChars 10 (JsonText.number n) 0 := by
        refine List.foldl_ext _ _ _ fun m c hc => ?_
        rw [hvalue c hc, Nat.mul_comm]
    _ = n := Nat.ofDigitChars_ten_toDigits

/-- A number above zero does not start with a zero. -/
theorem head?_toDigits_ne {n : Nat} (h : 0 < n) : (Nat.toDigits 10 n).head? ≠ some '0' := by
  induction n using Nat.strongRecOn with
  | ind n ih =>
    rw [Nat.toDigits_eq_if (by decide)]
    split
    · next hlt =>
      have hdigit : ∀ m < 10, 0 < m → Nat.digitChar m ≠ '0' := by decide
      rw [List.head?_cons, ne_eq, Option.some_inj]
      exact hdigit n hlt h
    · next hle =>
      rw [List.head?_append_of_ne_nil _ Nat.toDigits_ne_nil]
      exact ih (n / 10) (by omega) (by omega)

theorem ne_of_isDigit {c c' : Char} (hc : c.isDigit = true) (hc' : c'.isDigit = false) :
    c ≠ c' := by
  rintro rfl
  rw [hc] at hc'
  contradiction

theorem exists_head?_number_append (n : Nat) (rest : List Char) :
    ∃ c, (JsonText.number n ++ rest).head? = some c ∧ c.isDigit = true := by
  obtain ⟨c, cs, hcs⟩ := List.exists_cons_of_ne_nil (number_ne_nil n)
  have hmem : c ∈ JsonText.number n := hcs ▸ List.mem_cons_self
  refine ⟨c, ?_, isDigit_of_mem_number hmem⟩
  rw [hcs, List.cons_append, List.head?_cons]

/-- No number starts with a character other than a digit. -/
theorem head?_number_append_ne {c : Char} (hc : c.isDigit = false) (n : Nat) (rest : List Char) :
    (JsonText.number n ++ rest).head? ≠ some c := by
  obtain ⟨c', hhead, hdigit⟩ := exists_head?_number_append n rest
  rw [hhead, ne_eq, Option.some_inj]
  exact ne_of_isDigit hdigit hc

/-- The digits of a number are one whole part: there is no zero before others. -/
theorem whole_number (n : Nat) (hrest : IsBoundary rest) :
    whole (JsonText.number n ++ rest) = .done (JsonText.number n) rest := by
  rcases Nat.eq_zero_or_pos n with rfl | hpos
  · rfl
  · have hhead : (JsonText.number n ++ rest).head? ≠ some '0' := by
      rw [List.head?_append_of_ne_nil _ (number_ne_nil n)]
      exact head?_toDigits_ne hpos
    have hstop : ∀ c ∈ rest.head?, c.isDigit = false := by
      intro c hc
      rw [Bool.eq_false_iff]
      intro hdigit
      exact hrest.head?_ne (by simp [goesOn, hdigit]) hc
    rw [whole, orElse_of_mismatch (map_of_mismatch (char_of_head?_ne hhead))]
    exact run1_append (number_ne_nil n) (fun c hc => isDigit_of_mem_number hc) hstop

/-- **A number reads back**, however large. -/
theorem spells_number (n : Nat) : Spells number (JsonText.number n) n where
  solid := by
    obtain ⟨c, hhead, hdigit⟩ := exists_head?_number_append n []
    rw [List.append_nil] at hhead
    refine ⟨c, hhead, ?_⟩
    simp [isBlank, ne_of_isDigit hdigit]
  reads := by
    intro rest hrest
    have hsign : char '-' (JsonText.number n ++ rest) = .mismatch :=
      char_of_head?_ne (head?_number_append_ne (by decide) n rest)
    have hfraction : fraction rest = .mismatch :=
      bind_of_mismatch (char_of_head?_ne (hrest.head?_ne (by decide)))
    have hexponent : exponent rest = .mismatch := by
      refine bind_of_mismatch ?_
      rw [orElse_of_mismatch (char_of_head?_ne (hrest.head?_ne (by decide)))]
      exact char_of_head?_ne (hrest.head?_ne (by decide))
    rw [number, bind_of_done (opt_of_mismatch hsign), bind_of_done (whole_number n hrest),
      bind_of_done (opt_of_mismatch hfraction), bind_of_done (opt_of_mismatch hexponent)]
    have hvalue : (ofDigits 10 (JsonText.number n ++ []) : Rat) * 10 ^ (0 - (0 : Int)) = n := by
      rw [List.append_nil, ofDigits_number, Int.sub_zero, Rat.zpow_zero, Rat.mul_one]
    exact congrArg (Toml.Outcome.done · rest) hvalue

/-! ### Arrays and objects -/

/-- Parts with separators between them are a first part and others with a separator in front. -/
theorem intercalate_cons (separator first : List Char) (others : List (List Char)) :
    separator.intercalate (first :: others) =
      first ++ (others.map fun other => separator ++ other).flatten := by
  induction others generalizing first with
  | nil => simp
  | cons other others ih =>
    rw [List.intercalate_cons_cons, ih, List.map_cons, List.flatten_cons, List.append_assoc,
      List.append_assoc]

/-- The white space at the start of a line, with the line feed before it. -/
def lineStart (depth : Nat) : List Char :=
  '\n' :: JsonText.indent depth

theorem isBlank_of_mem_lineStart (depth : Nat) : ∀ c ∈ lineStart depth, isBlank c = true := by
  intro c hc
  rcases List.mem_cons.mp hc with rfl | hspace
  · decide
  · rw [List.eq_of_mem_replicate hspace]
    decide

theorem isBoundary_lineStart (depth : Nat) (rest : List Char) :
    IsBoundary (lineStart depth ++ rest) :=
  isBoundary_cons (by decide)

/-- A block that is not empty, taken apart at its separators. -/
theorem block_cons (depth : Nat) (opening closing : Char) (first : List Char)
    (others : List (List Char)) :
    JsonText.block depth opening closing (first :: others) =
      opening :: (lineStart (depth + 1) ++ first ++
        (others.map fun other => ',' :: lineStart (depth + 1) ++ other).flatten ++
        lineStart depth ++ [closing]) := by
  simp [JsonText.block, intercalate_cons, lineStart, Function.comp_def]

section Brackets

variable {opening closing : Char} {item : Reader α} {texts : List (List Char)} {values : List α}

/-- An item behind a comma. -/
theorem Spells.reads_comma (h : Spells item text a) (depth : Nat) :
    (token (char ',') *> token item).Reads IsBoundary (',' :: lineStart depth ++ text) a := by
  intro rest hrest
  have hcomma : token (char ',') (',' :: (lineStart depth ++ text ++ rest)) =
      .done ',' (lineStart depth ++ text ++ rest) := by
    rw [token_cons (by decide), char_cons]
  rw [List.cons_append, List.cons_append, seqRight_of_done hcomma]
  exact h.reads_token (isBlank_of_mem_lineStart depth) rest hrest

/-- Items on lines of their own, up to a place without a comma. -/
theorem sepBy_lines {first : List Char} {others : List (List Char)} (hfirst : Spells item first a)
    (hothers : List.Forall₂ (Spells item) others values) (hrest : IsBoundary rest)
    (hstop : token (char ',') rest = .mismatch) (depth : Nat) :
    sepBy (token item) (token (char ','))
      (lineStart depth ++ first ++
        ((others.map fun other => ',' :: lineStart depth ++ other).flatten ++ rest)) =
      .done (a :: values) rest := by
  have hmany : many (token (char ',') *> token item)
      ((others.map fun other => ',' :: lineStart depth ++ other).flatten ++ rest) =
      .done values rest := by
    refine many_flatten ?_ ?_ hrest (seqRight_of_mismatch hstop)
    · rw [List.forall₂_map_left_iff]
      exact hothers.imp fun text a h => h.reads_comma depth
    · rw [List.forall_mem_map]
      exact fun other _ => ⟨List.cons_ne_nil _ _, fun rest => isBoundary_cons (by decide)⟩
  -- A comma follows the first item, or what follows them all.
  have hboundary : IsBoundary
      ((others.map fun other => ',' :: lineStart depth ++ other).flatten ++ rest) := by
    cases others with
    | nil => exact hrest
    | cons other others => exact isBoundary_cons (by decide)
  refine orElse_of_done ?_
  rw [sepBy1, bind_of_done (hfirst.reads_token (isBlank_of_mem_lineStart depth) _ hboundary),
    bind_of_done hmany]
  rfl

/-- What stands in brackets is read, with the blanks before the closing one. -/
theorem bracketed_cons {inside blank : List Char} (hclosing : isBlank closing = false)
    (hblank : ∀ c ∈ blank, isBlank c = true)
    (hitems : sepBy (token item) (token (char ',')) inside =
      .done values (blank ++ closing :: rest)) :
    bracketed opening closing item (opening :: inside) = .done values rest := by
  have hclose : token (char closing) (blank ++ closing :: rest) = .done closing rest := by
    rw [token_append hblank ⟨closing, rfl, hclosing⟩, char_cons]
  rw [bracketed, bind_of_done (char_cons opening), bind_of_done hitems, bind_of_done hclose]
  rfl

/-- **Brackets around items that read back** read back as the list of them. -/
theorem Spells.block (hopening : isBlank opening = false) (hclosing : isBlank closing = false)
    (hcomma : closing ≠ ',') (hend : ∀ rest, item (closing :: rest) = .mismatch)
    (h : List.Forall₂ (Spells item) texts values) (depth : Nat) :
    Spells (bracketed opening closing item) (JsonText.block depth opening closing texts)
      values := by
  have hstop : ∀ rest, char ',' (closing :: rest) = .mismatch := fun rest =>
    char_of_head?_ne (by simpa using hcomma)
  cases h with
  | nil =>
    refine .of_reads hopening fun rest _ => bracketed_cons hclosing (List.forall_mem_nil _) ?_
    have hnone : token item (closing :: rest) = .mismatch := by
      rw [token_cons hclosing, hend]
    exact orElse_of_mismatch (bind_of_mismatch hnone)
  | @cons first a others values hfirst hothers =>
    rw [block_cons]
    refine .of_reads hopening fun rest _ => ?_
    refine bracketed_cons hclosing (isBlank_of_mem_lineStart depth) ?_
    have hlast : token (char ',') (lineStart depth ++ closing :: rest) = .mismatch := by
      rw [token_append (isBlank_of_mem_lineStart depth) ⟨closing, rfl, hclosing⟩, hstop]
    have hlines := sepBy_lines hfirst hothers (isBoundary_lineStart depth _) hlast (depth + 1)
    simpa using hlines

end Brackets

/-- **A member reads back** as its name and its value. -/
theorem Spells.member {item : Reader Value} {v : Value} (h : Spells item text v) (name : String) :
    Spells (member item) (JsonText.string name ++ ':' :: ' ' :: text) (name, v) := by
  refine .of_reads (by decide) fun rest hrest => ?_
  have hname : string (JsonText.string name ++ ':' :: ([' '] ++ text ++ rest)) =
      .done name (':' :: ([' '] ++ text ++ rest)) :=
    (spells_string name).reads _ (isBoundary_cons (by decide))
  have hcolon : token (char ':') (':' :: ([' '] ++ text ++ rest)) =
      .done ':' ([' '] ++ text ++ rest) := by
    rw [token_cons (by decide), char_cons]
  have hvalue : token item ([' '] ++ text ++ rest) = .done v rest :=
    h.reads_token (List.forall_mem_singleton.mpr rfl) rest hrest
  have hform : JsonText.string name ++ ':' :: ' ' :: text ++ rest =
      JsonText.string name ++ ':' :: ([' '] ++ text ++ rest) := by simp
  change Json.member item (JsonText.string name ++ ':' :: ' ' :: text ++ rest) =
    .done (name, v) rest
  rw [hform, Json.member, bind_of_done hname, bind_of_done hcolon, bind_of_done hvalue]
  rfl

/-! ### Values -/

variable {v : Value} {nest : Nat}

/-- A scalar that is no literal name is a string or a number. -/
theorem scalar_of_head?_ne {input : List Char} (hnull : input.head? ≠ some 'n')
    (htrue : input.head? ≠ some 't') (hfalse : input.head? ≠ some 'f') :
    scalar input = ((Value.string <$> string) <|> (Value.number <$> number)) input := by
  rw [scalar, orElse_of_mismatch (seqRight_of_mismatch (literal_of_head?_ne hnull)),
    orElse_of_mismatch (seqRight_of_mismatch (literal_of_head?_ne htrue)),
    orElse_of_mismatch (seqRight_of_mismatch (literal_of_head?_ne hfalse))]

theorem Spells.of_scalar (h : Spells scalar text v) (nest : Nat) : Spells (value nest) text v := by
  refine ⟨h.solid, fun rest hrest => ?_⟩
  cases nest with
  | zero => exact h.reads rest hrest
  | succ nest => exact orElse_of_done (h.reads rest hrest)

theorem spells_stringValue (s : String) (nest : Nat) :
    Spells (value nest) (JsonText.string s) (.string s) := by
  refine Spells.of_scalar ⟨(spells_string s).solid, fun rest hrest => ?_⟩ nest
  have hhead : (JsonText.string s ++ rest).head? = some '"' := rfl
  rw [scalar_of_head?_ne (by simp [hhead]) (by simp [hhead]) (by simp [hhead])]
  exact orElse_of_done (map_of_done ((spells_string s).reads rest hrest))

theorem spells_numberValue (n nest : Nat) :
    Spells (value nest) (JsonText.number n) (.number n) := by
  refine Spells.of_scalar ⟨(spells_number n).solid, fun rest hrest => ?_⟩ nest
  have hhead : ∀ c : Char, c.isDigit = false → (JsonText.number n ++ rest).head? ≠ some c :=
    fun c hc => head?_number_append_ne hc n rest
  have hstring : string (JsonText.number n ++ rest) = .mismatch :=
    bind_of_mismatch (char_of_head?_ne (hhead '"' (by decide)))
  rw [scalar_of_head?_ne (hhead 'n' (by decide)) (hhead 't' (by decide)) (hhead 'f' (by decide)),
    orElse_of_mismatch (map_of_mismatch hstring)]
  exact map_of_done ((spells_number n).reads rest hrest)

/-- No value starts with a bracket that closes an array. -/
theorem value_closing (nest : Nat) (rest : List Char) : value nest (']' :: rest) = .mismatch := by
  cases nest <;> rfl

/-- **An array** is spelled by its items, one on a line. -/
theorem spells_array {texts : List (List Char)} {values : List Value}
    (h : List.Forall₂ (Spells (value nest)) texts values) (depth : Nat) :
    Spells (value (nest + 1)) (JsonText.array depth texts) (.array values) := by
  have hblock : Spells (bracketed '[' ']' (value nest)) (JsonText.array depth texts) values :=
    Spells.block (by decide) (by decide) (by decide) (value_closing nest) h depth
  refine ⟨hblock.solid, fun rest hrest => ?_⟩
  have hscalar : scalar (JsonText.array depth texts ++ rest) = .mismatch := by
    cases texts <;> rfl
  rw [value, orElse_of_mismatch hscalar]
  exact orElse_of_done (map_of_done (hblock.reads rest hrest))

/-- **An object** is spelled by its members, one on a line, in their order. -/
theorem spells_object {members : List (String × List Char)} {values : List (String × Value)}
    (h : List.Forall₂ (fun m v => m.1 = v.1 ∧ Spells (value nest) m.2 v.2) members values)
    (depth : Nat) :
    Spells (value (nest + 1)) (JsonText.object depth members) (.object values) := by
  have hmembers : List.Forall₂ (Spells (member (value nest)))
      (members.map fun m => JsonText.string m.1 ++ ':' :: ' ' :: m.2) values := by
    rw [List.forall₂_map_left_iff]
    refine h.imp fun m v hm => ?_
    rw [hm.1]
    exact hm.2.member v.1
  have hblock : Spells (bracketed '\x7b' '\x7d' (member (value nest)))
      (JsonText.object depth members) values :=
    Spells.block (by decide) (by decide) (by decide) (fun rest => rfl) hmembers depth
  refine ⟨hblock.solid, fun rest hrest => ?_⟩
  have hscalar : scalar (JsonText.object depth members ++ rest) = .mismatch := by
    cases members <;> rfl
  have harray : (Value.array <$> bracketed '[' ']' (value nest))
      (JsonText.object depth members ++ rest) = .mismatch := by
    cases members <;> rfl
  rw [value, orElse_of_mismatch hscalar, orElse_of_mismatch harray]
  exact map_of_done (hblock.reads rest hrest)

/-! ### Files -/

/-- The value of a **tag**. -/
def ofTag (t : Tag) : Value :=
  .object
    [("name", .string t.name), ("kind", .string t.kind.name), ("line", .number t.line),
      ("pattern", .string t.pattern)]

/-- The value of a **file**. -/
def ofFile (f : TagFile) : Value :=
  .object
    [("file", .string f.file), ("language", .string f.language),
      ("tags", .array (f.tags.map ofTag))]

theorem spells_tag (t : Tag) (depth : Nat) :
    Spells (value (nest + 1)) (JsonText.tag depth t) (ofTag t) :=
  spells_object
    (.cons ⟨rfl, spells_stringValue t.name nest⟩ <|
      .cons ⟨rfl, spells_stringValue t.kind.name nest⟩ <|
      .cons ⟨rfl, spells_numberValue t.line nest⟩ <|
      .cons ⟨rfl, spells_stringValue t.pattern nest⟩ .nil)
    depth

theorem spells_file (f : TagFile) (depth : Nat) :
    Spells (value (nest + 3)) (JsonText.file depth f) (ofFile f) := by
  have htags : List.Forall₂ (Spells (value (nest + 1)))
      (f.tags.map (JsonText.tag (depth + 2))) (f.tags.map ofTag) := by
    rw [List.forall₂_map_left_iff, List.forall₂_map_right_iff, List.forall₂_same]
    exact fun t _ => spells_tag t (depth + 2)
  exact spells_object
    (.cons ⟨rfl, spells_stringValue f.file _⟩ <|
      .cons ⟨rfl, spells_stringValue f.language _⟩ <|
      .cons ⟨rfl, spells_array htags (depth + 1)⟩ .nil)
    depth

/-- The text of a list is long enough for its depth: no file takes two characters, and any file
takes four of them for brackets and line feeds alone. -/
theorem spells_files (files : List TagFile) :
    Spells (value (JsonText.text files).length) (JsonText.array 0 (files.map (JsonText.file 1)))
      (.array (files.map ofFile)) := by
  cases files with
  | nil => exact spells_array .nil 0
  | cons f files =>
    obtain ⟨nest, hnest⟩ : ∃ nest, (JsonText.text (f :: files)).length = nest + 4 := by
      refine Nat.exists_eq_add_of_le' ?_
      simp only [JsonText.text, String.length_ofList, JsonText.array, List.map_cons, block_cons,
        lineStart, List.length_cons, List.length_append, List.length_nil]
      omega
    rw [hnest]
    refine spells_array ?_ 0
    rw [List.forall₂_map_left_iff, List.forall₂_map_right_iff, List.forall₂_same]
    exact fun f _ => spells_file f 1

/-- **Reading finds the files that were written.** -/
theorem read_text (files : List TagFile) :
    read (JsonText.text files) = some (.array (files.map ofFile)) := by
  have hend : IsBoundary [] := by simp [IsBoundary]
  have hvalue : token (value (JsonText.text files).length) (JsonText.text files).toList =
      .done (.array (files.map ofFile)) [] := by
    have hread := (spells_files files).reads_token (List.forall_mem_nil _) [] hend
    rw [JsonText.text, String.toList_ofList]
    rwa [List.nil_append, List.append_nil] at hread
  simp only [read]
  rw [bind_of_done hvalue]
  rfl

/-- No two tags are the same value. -/
theorem ofTag_injective : Function.Injective ofTag := by
  rintro ⟨name, ⟨⟩, line, pattern⟩ ⟨name', ⟨⟩, line', pattern'⟩ h
  simp_all [ofTag]

/-- No two scripts are the same value. -/
theorem ofFile_injective : Function.Injective ofFile := by
  rintro ⟨file, language, tags⟩ ⟨file', language', tags'⟩ h
  simp_all [ofFile, ofTag_injective.list_map.eq_iff]

/-- Lists of files with the same text are the same. -/
theorem text_injective : Function.Injective JsonText.text := by
  intro files files' h
  have hread : some (Value.array (files.map ofFile)) = some (.array (files'.map ofFile)) := by
    rw [← read_text, h, read_text]
  exact ofFile_injective.list_map (Value.array.inj (Option.some.inj hread))

/-- **JSON is lossless.** Whether or not the output is to be sorted, the text is the same, and it
reads back as one object for each file, in order, with its path, its language, and for each tag its
name, the name of its kind, its line, and its pattern. So no two lists of files share a text. -/
theorem read_render_json (files : List TagFile) (sorted : Bool) :
    (∀ sorted', render files sorted' .json = render files sorted .json) ∧
      read (render files sorted .json) = some (.array (files.map ofFile)) ∧
      Function.Injective fun files' : List TagFile => render files' sorted .json :=
  ⟨fun _ => rfl, read_text files, text_injective⟩

end ScriptTags.Json
