import Mathlib.Data.List.Forall2
import ScriptTags.Proofs.Encoding
import ScriptTags.Proofs.Routing

/-!
# First lines that name a shell, byte by byte

The interpreter of a script is looked for in the lossily decoded text of its first line: the text is
cut into words, a word at its solidi, and the words after `env` are searched for one that is no
option. Here the same is said of the **bytes** of the line, without any decoding: how they fall into
words (`HasWords`), what the base name of a word is (`IsBaseName`), and which words name a shell
(`NamesShell`).

The two agree (`ofShebang?_grammar`) because every cut is made at an ASCII character. Decoding
commutes with all of them (`HasWords.words_decodeLossy`, `IsBaseName.interpreterName_decodeLossy`),
and it can neither make nor lose the name of a shell, which is ASCII itself. So it does not matter
**which** bytes above the ASCII range stand in a line, nor whether they are well-formed.
-/

namespace ScriptTags

/-- A **stretch beyond ASCII**: one or more bytes above the ASCII range. -/
def Bytes.IsBeyondAscii (stretch : Bytes) : Prop :=
  stretch ≠ [] ∧ ∀ b ∈ stretch, b.isAscii = false

instance (stretch : Bytes) : Decidable stretch.IsBeyondAscii :=
  decidable_of_iff (stretch ≠ [] ∧ stretch.all (fun b => !b.isAscii) = true) (by
    simp only [Bytes.IsBeyondAscii, List.all_eq_true, Bool.not_eq_true'])

theorem Bytes.IsBeyondAscii.stops_append {stretch : Bytes} (h : stretch.IsBeyondAscii)
    (rest : Bytes) : Stops Byte.isAscii (stretch ++ rest) := by
  obtain ⟨b, tail, rfl⟩ := List.exists_cons_of_ne_nil h.1
  exact stops_cons.mpr (h.2 b List.mem_cons_self)

/-- What ends in such a stretch does not end in an ASCII byte. -/
theorem Bytes.IsBeyondAscii.getLast?_append_ne {stretch : Bytes} (h : stretch.IsBeyondAscii)
    (front : Bytes) {b : Byte} (hb : b.isAscii = true) : (front ++ stretch).getLast? ≠ some b := by
  obtain ⟨earlier, final, rfl⟩ := (List.eq_nil_or_concat stretch).resolve_left h.1
  rw [List.concat_eq_append, ← List.append_assoc, List.getLast?_concat]
  intro heq
  have hfinal := h.2 final (by simp)
  rw [Option.some.inj heq, hb] at hfinal
  contradiction

namespace Language

open Bytes (IsRun Stops)

variable {rest word name : Bytes} {words words' later : List Bytes} {c : Char} {b : Byte}

/-! ### Words -/

/-- A byte that is no blank **belongs to a word**. -/
def isWordByte (b : Byte) : Bool :=
  !isBlank b

/-- **The words of a byte string**: its longest runs of bytes that are no blanks. -/
inductive HasWords : Bytes → List Bytes → Prop
  | blanks {gap : Bytes} (hgap : IsRun isBlank gap) : HasWords gap []
  | word {gap word rest : Bytes} {words : List Bytes} (hgap : IsRun isBlank gap) (hne : word ≠ [])
      (hword : IsRun isWordByte word) (hrest : Stops isWordByte rest) (h : HasWords rest words) :
      HasWords (gap ++ word ++ rest) (word :: words)

theorem isWordByte_eq_false_iff : isWordByte b = false ↔ isBlank b = true := by
  simp [isWordByte]

/-- Blanks in front are no words. -/
theorem HasWords.blanks_append {gap : Bytes} (hgap : IsRun isBlank gap) (h : HasWords rest words) :
    HasWords (gap ++ rest) words := by
  cases h with
  | blanks hgap' =>
    refine .blanks fun b hb => ?_
    exact (List.mem_append.mp hb).elim (hgap b) (hgap' b)
  | word hgap' hne hword hrest h =>
    rw [← List.append_assoc, ← List.append_assoc]
    refine .word (fun b hb => ?_) hne hword hrest h
    exact (List.mem_append.mp hb).elim (hgap b) (hgap' b)

/-- Every byte string falls into words. -/
theorem exists_hasWords (bytes : Bytes) : ∃ words, HasWords bytes words := by
  induction hlength : bytes.length using Nat.strongRecOn generalizing bytes with
  | ind length ih =>
    obtain ⟨gap, body, hgap, hbody, rfl⟩ := Bytes.exists_run_append isBlank bytes
    obtain ⟨word, rest, hword, hrest, rfl⟩ := Bytes.exists_run_append isWordByte body
    by_cases hne : word = []
    · -- neither a blank nor a byte of a word can come next
      subst hne
      rw [List.nil_append] at hbody ⊢
      cases rest with
      | nil => exact ⟨[], by simpa using HasWords.blanks hgap⟩
      | cons b rest =>
        rw [Bytes.stops_cons] at hbody hrest
        rw [isWordByte_eq_false_iff, hbody] at hrest
        contradiction
    · have hshorter : rest.length < length := by
        have hpos := List.length_pos_iff.mpr hne
        rw [← hlength, List.length_append, List.length_append]
        omega
      obtain ⟨words, hwords⟩ := ih rest.length hshorter rest rfl
      exact ⟨word :: words, by simpa using HasWords.word hgap hne hword hrest hwords⟩

/-- Words before a blank, and those after it. -/
theorem HasWords.append {bytes : Bytes} (h : HasWords bytes words) (h' : HasWords rest later)
    (hrest : Stops isWordByte rest) : HasWords (bytes ++ rest) (words ++ later) := by
  induction h with
  | blanks hgap => exact h'.blanks_append hgap
  | @word gap word inner words hgap hne hword hinner h ih =>
    have hstops : Stops isWordByte (inner ++ rest) := by
      cases inner with
      | nil => exact hrest
      | cons b inner => exact Bytes.stops_cons.mpr (Bytes.stops_cons.mp hinner)
    rw [List.append_assoc]
    exact .word hgap hne hword hstops ih

/-- Only the five blanks end a word. -/
theorem exists_isBlank_of_endsWord (hc : endsWord c = true) :
    ∃ b, isBlank b = true ∧ c = Char.ofUInt8 b := by
  simp only [endsWord, Bool.or_eq_true, beq_iff_eq] at hc
  obtain (((rfl | rfl) | rfl) | rfl) | rfl := hc
  · exact ⟨0x20, rfl, rfl⟩
  · exact ⟨0x09, rfl, rfl⟩
  · exact ⟨0x0A, rfl, rfl⟩
  · exact ⟨0x0C, rfl, rfl⟩
  · exact ⟨0x0D, rfl, rfl⟩

theorem words_cons (hc : endsWord c = true) (text : List Char) :
    Language.words (c :: text) = Language.words text := by
  have happend := words_append_cons hc [] text
  have hnil : Language.words [] = [] := rfl
  rwa [List.nil_append, hnil, List.nil_append] at happend

/-- Blanks in front of a line stay outside its words. -/
theorem words_decodeLossy_blanks_append {gap : Bytes} (hgap : IsRun isBlank gap) (rest : Bytes) :
    Language.words (Utf8.decodeLossy (gap ++ rest)).toList =
      Language.words (Utf8.decodeLossy rest).toList := by
  induction gap with
  | nil => rfl
  | cons b gap ih =>
    obtain ⟨hb, hgap⟩ := List.forall_mem_cons.mp hgap
    rw [List.cons_append, Utf8.toList_decodeLossy_cons (lt_of_isBlank hb),
      words_cons (endsWord_of_isBlank hb), ih hgap]

/-- The text of a word is one word. -/
theorem words_decodeLossy_word (hne : word ≠ []) (hword : IsRun isWordByte word) :
    Language.words (Utf8.decodeLossy word).toList = [(Utf8.decodeLossy word).toList] := by
  have hletters : ∀ c ∈ (Utf8.decodeLossy word).toList, endsWord c = false := by
    refine fun c hc => Bool.eq_false_iff.mpr fun hends => ?_
    obtain ⟨b, hb, rfl⟩ := exists_isBlank_of_endsWord hends
    rw [Utf8.mem_decodeLossy_iff (lt_of_isBlank hb)] at hc
    have hletter := hword b hc
    rw [isWordByte, hb] at hletter
    contradiction
  have htext : (Utf8.decodeLossy word).toList ≠ [] := by
    rwa [ne_eq, Utf8.toList_decodeLossy_eq_nil_iff]
  rw [Language.words, List.splitOnP_eq_singleton hletters]
  simp [htext]

/-- **Decoding goes word by word.** -/
theorem HasWords.words_decodeLossy (h : HasWords rest words) :
    Language.words (Utf8.decodeLossy rest).toList =
      words.map fun word => (Utf8.decodeLossy word).toList := by
  induction h with
  | @blanks gap hgap =>
    have hnil := words_decodeLossy_blanks_append hgap []
    rw [List.append_nil] at hnil
    exact hnil
  | @word gap word rest words hgap hne hword hrest h ih =>
    rw [List.append_assoc, words_decodeLossy_blanks_append hgap, List.map_cons, ← ih]
    cases rest with
    | nil => rw [List.append_nil, words_decodeLossy_word hne hword]; rfl
    | cons b rest =>
      have hb := isWordByte_eq_false_iff.mp (Bytes.stops_cons.mp hrest)
      rw [Utf8.toList_decodeLossy_append (lt_of_isBlank hb),
        words_append_cons (endsWord_of_isBlank hb), words_decodeLossy_word hne hword,
        Utf8.toList_decodeLossy_cons (lt_of_isBlank hb), words_cons (endsWord_of_isBlank hb),
        List.singleton_append]

/-! ### Base names -/

/-- **The base name of a word**: its bytes after the last solidus, or all of them. -/
def IsBaseName (word base : Bytes) : Prop :=
  ∃ directory, word = directory ++ base ∧
    (directory = [] ∨ directory.getLast? = some Byte.slash) ∧ Byte.slash ∉ base

/-- Every word has a base name: what stands behind its last solidus. -/
theorem exists_isBaseName (word : Bytes) : ∃ base, IsBaseName word base := by
  induction word with
  | nil => exact ⟨[], [], rfl, .inl rfl, List.not_mem_nil⟩
  | cons b word ih =>
    obtain ⟨base, directory, rfl, hdirectory, hbase⟩ := ih
    rcases hdirectory with rfl | hlast
    · -- the first byte is a solidus of its own, or it starts the base name
      by_cases hb : b = Byte.slash
      · exact ⟨base, [b], rfl, .inr (by rw [hb]; rfl), hbase⟩
      · exact ⟨b :: base, [], rfl, .inl rfl, by simp [Ne.symm hb, hbase]⟩
    · refine ⟨base, b :: directory, rfl, .inr ?_, hbase⟩
      rw [List.getLast?_cons, hlast, Option.getD_some]

/-- **Decoding goes by base names.** -/
theorem IsBaseName.interpreterName_decodeLossy (h : IsBaseName word name) :
    interpreterName (Utf8.decodeLossy word).toList = (Utf8.decodeLossy name).toList := by
  obtain ⟨directory, rfl, hdirectory, hname⟩ := h
  have hslash : '/' ∉ (Utf8.decodeLossy name).toList :=
    fun hmem => hname ((Utf8.mem_decodeLossy_iff (b := Byte.slash) (by decide)).mp hmem)
  have hsplit := List.splitOn_eq_singleton hslash
  rcases hdirectory with rfl | hlast
  · rw [List.nil_append, interpreterName, hsplit]
    rfl
  · obtain ⟨parents, rfl⟩ := List.getLast?_eq_some_iff.mp hlast
    have htext : (Utf8.decodeLossy (parents ++ [Byte.slash] ++ name)).toList =
        (Utf8.decodeLossy parents).toList ++ '/' :: (Utf8.decodeLossy name).toList := by
      rw [List.append_assoc, List.singleton_append]
      exact Utf8.toList_decodeLossy_append (b := Byte.slash) (by decide) parents name
    rw [interpreterName, htext, List.splitOn_append_cons_self, hsplit, List.getLast?_concat,
      Option.getD_some]

/-! ### Words that name a shell -/

/-- The hyphen, which starts an option. -/
abbrev hyphen : Byte := 0x2D

/-- **The name of a shell**: an extension that is registered for shell scripts. -/
def IsShell (name : Bytes) : Prop :=
  ∃ extension ∈ extensions .sh, name = Utf8.encode extension

/-- **The first word that is no option.** -/
inductive FirstOperand : List Bytes → Bytes → Prop
  | here {word : Bytes} {later : List Bytes} (hword : word.head? ≠ some hyphen) :
      FirstOperand (word :: later) word
  | after {option word : Bytes} {later : List Bytes} (hoption : option.head? = some hyphen)
      (h : FirstOperand later word) : FirstOperand (option :: later) word

/-- **Words that name a shell**: the base name of the first one does, or the first one is the path
of `env`, and the base name of the first later word that is no option does. -/
inductive NamesShell : List Bytes → Prop
  | direct {word name : Bytes} {later : List Bytes} (hbase : IsBaseName word name)
      (hshell : IsShell name) : NamesShell (word :: later)
  | env {word operand name : Bytes} {later : List Bytes}
      (henv : IsBaseName word (Utf8.encode "env")) (hoperand : FirstOperand later operand)
      (hbase : IsBaseName operand name) (hshell : IsShell name) : NamesShell (word :: later)

/-- **A first line that names a shell**: `#!`, and words that do. -/
def IsShellLine (line : Bytes) : Prop :=
  ∃ rest words, line = shebang ++ rest ∧ HasWords rest words ∧ NamesShell words

theorem ofExtension?_eq_some_iff {extension : String} :
    ofExtension? extension = some .sh ↔ extension ∈ extensions .sh := by
  simp [ofExtension?, all]

theorem isRun_encode_extension : ∀ extension ∈ extensions .sh,
    IsRun Byte.isAscii (Utf8.encode extension) := by
  decide

theorem isRun_encode_env : IsRun Byte.isAscii (Utf8.encode "env") := by
  decide

/-- The names of shells are ASCII. -/
theorem IsShell.isRun (h : IsShell name) : IsRun Byte.isAscii name := by
  obtain ⟨extension, hmem, rfl⟩ := h
  exact isRun_encode_extension extension hmem

/-- A name is that of a shell exactly when its text is, since an ASCII text has one spelling in
bytes. -/
theorem isShell_iff :
    IsShell name ↔ ofExtension? (String.ofList (Utf8.decodeLossy name).toList) = some .sh := by
  rw [ofExtension?_eq_some_iff, String.ofList_toList]
  constructor
  · rintro ⟨extension, hmem, rfl⟩
    rwa [Utf8.decodeLossy_encode]
  · intro hmem
    exact ⟨_, hmem, (Utf8.decodeLossy_eq_iff (isRun_encode_extension _ hmem)).mp rfl⟩

theorem isEnv_iff :
    (Utf8.decodeLossy name).toList = ['e', 'n', 'v'] ↔ name = Utf8.encode "env" := by
  rw [← Utf8.decodeLossy_eq_iff isRun_encode_env, ← String.toList_inj]
  exact Iff.rfl

/-- A word is read as `env` exactly when its base name is `env` in bytes. -/
theorem isBaseName_env_iff :
    IsBaseName word (Utf8.encode "env") ↔
      interpreterName (Utf8.decodeLossy word).toList = ['e', 'n', 'v'] := by
  constructor
  · intro h
    rw [h.interpreterName_decodeLossy, isEnv_iff]
  · intro h
    obtain ⟨name, hbase⟩ := exists_isBaseName word
    rw [hbase.interpreterName_decodeLossy, isEnv_iff] at h
    rwa [← h]

/-- A word is read as a shell exactly when its base name is that of one in bytes. -/
theorem exists_isShell_iff :
    (∃ name, IsBaseName word name ∧ IsShell name) ↔
      ofExtension? (String.ofList (interpreterName (Utf8.decodeLossy word).toList)) = some .sh := by
  constructor
  · rintro ⟨name, hbase, hshell⟩
    rwa [hbase.interpreterName_decodeLossy, ← isShell_iff]
  · intro h
    obtain ⟨name, hbase⟩ := exists_isBaseName word
    rw [hbase.interpreterName_decodeLossy, ← isShell_iff] at h
    exact ⟨name, hbase, h⟩

/-- The search for a word that is no option finds the first one. -/
theorem find?_eq_some_iff_firstOperand {operand : Bytes} :
    words.find? (fun word => (Utf8.decodeLossy word).toList.head? != some '-') = some operand ↔
      FirstOperand words operand := by
  induction words with
  | nil => exact iff_of_false (by simp) nofun
  | cons word words ih =>
    have hhead : (Utf8.decodeLossy word).toList.head? = some '-' ↔ word.head? = some hyphen :=
      Utf8.head?_decodeLossy_eq_some_iff (b := hyphen) (by decide)
    by_cases hoption : word.head? = some hyphen
    · rw [List.find?_cons_of_neg (by simpa using hhead.mpr hoption), ih]
      refine ⟨.after hoption, fun h => ?_⟩
      cases h with
      | here hword => exact absurd hoption hword
      | after _ h => exact h
    · rw [List.find?_cons_of_pos (by simpa [hhead] using hoption), Option.some_inj]
      constructor
      · rintro rfl
        exact .here hoption
      · intro h
        cases h with
        | here _ => rfl
        | after hword _ => exact absurd hword hoption

/-- **Decoded words name a shell as their bytes do.** -/
theorem namesShell_iff :
    NamesShell words ↔
      (interpreter? (words.map fun word => (Utf8.decodeLossy word).toList)).bind
        (fun name => ofExtension? (String.ofList name)) = some .sh := by
  cases words with
  | nil => exact iff_of_false nofun (by simp [interpreter?])
  | cons word later =>
    rw [List.map_cons, interpreter?]
    split
    · next henv =>
      have hnot : ¬ ∃ name, IsBaseName word name ∧ IsShell name := by
        rw [exists_isShell_iff, henv]
        decide
      simp only [List.find?_map, Option.map_map, Option.bind_map, Option.bind_eq_some_iff,
        Function.comp_def, find?_eq_some_iff_firstOperand, ← exists_isShell_iff]
      constructor
      · intro h
        cases h with
        | direct hbase hshell => exact absurd ⟨_, hbase, hshell⟩ hnot
        | env _ hoperand hbase hshell => exact ⟨_, hoperand, _, hbase, hshell⟩
      · rintro ⟨operand, hoperand, name, hbase, hshell⟩
        exact .env (isBaseName_env_iff.mpr henv) hoperand hbase hshell
    · next henv =>
      rw [Option.bind_some, ← exists_isShell_iff]
      constructor
      · intro h
        cases h with
        | direct hbase hshell => exact ⟨_, hbase, hshell⟩
        | env hbase => exact absurd (isBaseName_env_iff.mp hbase) henv
      · rintro ⟨name, hbase, hshell⟩
        exact .direct hbase hshell

/-! ### Lines -/

/-- After `#!`, the words decide. -/
theorem ofShebang?_append_eq_some_iff (h : HasWords rest words) :
    ofShebang? (shebang ++ rest) = some .sh ↔ NamesShell words := by
  have hpre : shebang.isPrefixOf (shebang ++ rest) = true :=
    List.isPrefixOf_iff_prefix.mpr (List.prefix_append shebang rest)
  rw [ofShebang?, if_pos hpre, List.drop_left, h.words_decodeLossy, namesShell_iff]

/-- A line without the mark names nothing. -/
theorem ofShebang?_of_not_marked {line : Bytes} (h : ¬ shebang <+: line) :
    ofShebang? line = none := by
  rw [ofShebang?, if_neg (by rwa [List.isPrefixOf_iff_prefix])]

/-- A first line is recognised exactly if its bytes name a shell. -/
theorem ofShebang?_eq_some_iff {line : Bytes} : ofShebang? line = some .sh ↔ IsShellLine line := by
  constructor
  · intro h
    have hpre : shebang <+: line := by
      by_contra hnot
      rw [ofShebang?_of_not_marked hnot] at h
      contradiction
    obtain ⟨rest, rfl⟩ := hpre
    obtain ⟨words, hwords⟩ := exists_hasWords rest
    exact ⟨rest, words, rfl, hwords, (ofShebang?_append_eq_some_iff hwords).mp h⟩
  · rintro ⟨rest, words, rfl, hwords, hnames⟩
    exact (ofShebang?_append_eq_some_iff hwords).mpr hnames

theorem ofShebang?_eq_none_iff {line : Bytes} : ofShebang? line = none ↔ ¬ IsShellLine line := by
  rw [← ofShebang?_eq_some_iff]
  cases ofShebang? line with
  | none => simp
  | some language => cases language; simp

/-- More words behind those that name a shell change nothing. -/
theorem FirstOperand.append {operand : Bytes} (h : FirstOperand words operand)
    (later : List Bytes) : FirstOperand (words ++ later) operand := by
  induction h with
  | here hword => exact .here hword
  | after hoption _ ih => exact .after hoption ih

/-- Words behind those that name a shell change nothing. -/
theorem NamesShell.append (h : NamesShell words) (later : List Bytes) :
    NamesShell (words ++ later) := by
  cases h with
  | direct hbase hshell => exact .direct hbase hshell
  | env henv hoperand hbase hshell => exact .env henv (hoperand.append later) hbase hshell

/-- **What stands behind a blank hides nothing.** -/
theorem IsShellLine.append_blank {line : Bytes} (h : IsShellLine line) (hb : isBlank b = true)
    (more : Bytes) : IsShellLine (line ++ b :: more) := by
  obtain ⟨rest, words, rfl, hwords, hnames⟩ := h
  obtain ⟨later, hlater⟩ := exists_hasWords (b :: more)
  have hstops : Stops isWordByte (b :: more) :=
    Bytes.stops_cons.mpr (isWordByte_eq_false_iff.mpr hb)
  exact ⟨rest ++ b :: more, words ++ later, List.append_assoc _ _ _, hwords.append hlater hstops,
    hnames.append later⟩

/-! ### Stretches beyond ASCII -/

/-- A word that is no option unless another one is, and that has every **ASCII base name** of it. -/
structure StandsIn (word word' : Bytes) : Prop where
  head?_iff : word'.head? = some hyphen ↔ word.head? = some hyphen
  isBaseName : ∀ name, IsRun Byte.isAscii name → IsBaseName word name → IsBaseName word' name

theorem StandsIn.refl (word : Bytes) : StandsIn word word :=
  ⟨Iff.rfl, fun _ _ h => h⟩

/-- Words that stand in for others, one for one, have a first operand if these do. -/
theorem FirstOperand.exists_standsIn {operand : Bytes} (h : FirstOperand words operand)
    (hwords : List.Forall₂ StandsIn words words') :
    ∃ operand', FirstOperand words' operand' ∧ StandsIn operand operand' := by
  induction h generalizing words' with
  | here hword =>
    cases hwords with
    | cons hstands _ => exact ⟨_, .here (mt hstands.head?_iff.mp hword), hstands⟩
  | after hoption _ ih =>
    cases hwords with
    | cons hstands hlater =>
      obtain ⟨operand', hoperand', h'⟩ := ih hlater
      exact ⟨operand', .after (hstands.head?_iff.mpr hoption) hoperand', h'⟩

/-- Words that stand in for others name a shell if these do. -/
theorem NamesShell.standsIn (h : NamesShell words) (hwords : List.Forall₂ StandsIn words words') :
    NamesShell words' := by
  cases h with
  | direct hbase hshell =>
    cases hwords with
    | cons hstands _ => exact .direct (hstands.isBaseName _ hshell.isRun hbase) hshell
  | env henv hoperand hbase hshell =>
    cases hwords with
    | cons hstands hlater =>
      obtain ⟨operand', hoperand', hstands'⟩ := hoperand.exists_standsIn hlater
      exact .env (hstands.isBaseName _ isRun_encode_env henv) hoperand'
        (hstands'.isBaseName _ hshell.isRun hbase) hshell

variable {stretch stretch' : Bytes}

/-- An ASCII base name of a word with a stretch beyond ASCII stands behind a solidus behind it. -/
theorem IsBaseName.exists_of_isBeyondAscii {front back : Bytes} (hstretch : stretch.IsBeyondAscii)
    (hname : IsRun Byte.isAscii name) (h : IsBaseName (front ++ stretch ++ back) name) :
    ∃ inner, back = inner ++ name ∧ inner.getLast? = some Byte.slash ∧ Byte.slash ∉ name := by
  obtain ⟨directory, hword, hdirectory, hslash⟩ := h
  have hlast := hstretch.getLast?_append_ne front (b := Byte.slash) (by decide)
  have hnil : front ++ stretch ≠ [] := by simp [hstretch.1]
  rcases List.append_eq_append_iff.mp hword with ⟨inner, rfl, hback⟩ | ⟨tail, hfront, rfl⟩
  · refine ⟨inner, hback, ?_, hslash⟩
    rcases eq_or_ne inner [] with rfl | hinner
    · rw [List.append_nil] at hdirectory
      exact absurd (hdirectory.resolve_left hnil) hlast
    · obtain ⟨earlier, final, rfl⟩ := (List.eq_nil_or_concat inner).resolve_left hinner
      simpa using hdirectory
  · -- the base name would have the end of the stretch in it, or start right behind it
    exfalso
    rcases List.eq_nil_or_concat tail with rfl | ⟨earlier, final, rfl⟩
    · rw [List.append_nil] at hfront
      rw [← hfront] at hdirectory
      exact hlast (hdirectory.resolve_left hnil)
    · have hfinal : final.isAscii = true := hname final (by simp)
      exact hstretch.getLast?_append_ne front hfinal (by simp [hfront])

/-- One stretch stands in for another. -/
theorem standsIn_of_isBeyondAscii (h : stretch.IsBeyondAscii) (h' : stretch'.IsBeyondAscii)
    (front back : Bytes) :
    StandsIn (front ++ stretch ++ back) (front ++ stretch' ++ back) := by
  constructor
  · rw [List.append_assoc, List.append_assoc,
      (h'.stops_append back).head?_append_eq_some_iff (by decide),
      (h.stops_append back).head?_append_eq_some_iff (by decide)]
  · intro name hname hbase
    obtain ⟨inner, rfl, hlast, hslash⟩ := hbase.exists_of_isBeyondAscii h hname
    refine ⟨front ++ stretch' ++ inner, (List.append_assoc _ _ _).symm, .inr ?_, hslash⟩
    rw [List.getLast?_append, hlast, Option.some_or]

theorem isRun_isWordByte_of_isBeyondAscii (h : stretch.IsBeyondAscii) :
    IsRun isWordByte stretch := by
  intro b hb
  rw [isWordByte, Bool.not_eq_true']
  refine Bool.eq_false_iff.mpr fun hblank => ?_
  exact absurd (Byte.isAscii_iff.mpr (lt_of_isBlank hblank)) (Bool.eq_false_iff.mp (h.2 b hb))

/-- A stretch stands inside one word, and the words around it do not depend on it. -/
theorem exists_hasWords_around (before after : Bytes) :
    ∃ earlier front back later, ∀ stretch : Bytes, stretch.IsBeyondAscii →
      HasWords (before ++ stretch ++ after) (earlier ++ (front ++ stretch ++ back) :: later) := by
  obtain ⟨back, rest, hback, hrest, rfl⟩ := Bytes.exists_run_append isWordByte after
  obtain ⟨gap, front, hfront, hgap, rfl⟩ := Bytes.exists_append_run isWordByte before
  obtain ⟨later, hlater⟩ := exists_hasWords rest
  have hword : ∀ stretch : Bytes, stretch.IsBeyondAscii →
      IsRun isWordByte (front ++ stretch ++ back) ∧ front ++ stretch ++ back ≠ [] := by
    refine fun stretch h => ⟨fun b hb => ?_, by simp [h.1]⟩
    simp only [List.mem_append] at hb
    exact hb.elim (fun hb => hb.elim (hfront b) (isRun_isWordByte_of_isBeyondAscii h b)) (hback b)
  rcases List.eq_nil_or_concat gap with rfl | ⟨inner, b, rfl⟩
  · refine ⟨[], front, back, later, fun stretch h => ?_⟩
    obtain ⟨hrun, hne⟩ := hword stretch h
    have hnil : IsRun isBlank [] := nofun
    simpa using HasWords.word hnil hne hrun hrest hlater
  · -- the words before the blank in front of the stretch are cut off at this blank
    obtain ⟨earlier, hearlier⟩ := exists_hasWords inner
    have hb : isBlank b = true := isWordByte_eq_false_iff.mp (hgap b (by simp))
    refine ⟨earlier, front, back, later, fun stretch h => ?_⟩
    obtain ⟨hrun, hne⟩ := hword stretch h
    have hblank : IsRun isBlank [b] := by simpa [IsRun] using hb
    have hrest' := HasWords.word hblank hne hrun hrest hlater
    have hstops : Stops isWordByte ([b] ++ (front ++ stretch ++ back) ++ rest) :=
      Bytes.stops_cons.mpr (isWordByte_eq_false_iff.mpr hb)
    simpa using hearlier.append hrest' hstops

/-- **A stretch beyond ASCII can be replaced by any other.** -/
theorem IsShellLine.replace {before after : Bytes} (h : stretch.IsBeyondAscii)
    (h' : stretch'.IsBeyondAscii) (hline : IsShellLine (before ++ stretch ++ after)) :
    IsShellLine (before ++ stretch' ++ after) := by
  have hpre : shebang <+: before ++ stretch ++ after := by
    obtain ⟨rest, words, heq, -, -⟩ := hline
    exact ⟨rest, heq.symm⟩
  have hshebang : IsRun Byte.isAscii shebang := by decide
  rw [List.append_assoc, (h.stops_append after).prefix_append_iff hshebang] at hpre
  obtain ⟨inner, rfl⟩ := hpre
  obtain ⟨earlier, front, back, later, hwords⟩ := exists_hasWords_around inner after
  have hsame : ∀ words : List Bytes, List.Forall₂ StandsIn words words := fun words =>
    List.forall₂_same.mpr fun word _ => StandsIn.refl word
  rw [← ofShebang?_eq_some_iff, List.append_assoc, List.append_assoc,
    ← List.append_assoc inner] at hline ⊢
  rw [ofShebang?_append_eq_some_iff (hwords stretch h)] at hline
  rw [ofShebang?_append_eq_some_iff (hwords stretch' h')]
  exact hline.standsIn (List.rel_append (hsame earlier)
    (.cons (standsIn_of_isBeyondAscii h h' front back) (hsame later)))

/-- **The grammar of first lines, byte by byte.** A first line is recognised exactly if its bytes
name a shell, and it is not recognised otherwise. Bytes above the ASCII range, well-formed or not,
can be replaced by any others without making or losing a shell, and no bytes behind a blank lose it.
-/
theorem ofShebang?_grammar (line : Bytes) :
    (ofShebang? line = some .sh ↔ IsShellLine line) ∧
    (ofShebang? line = none ↔ ¬ IsShellLine line) ∧
    (∀ before stretch stretch' after : Bytes, stretch.IsBeyondAscii → stretch'.IsBeyondAscii →
      line = before ++ stretch ++ after →
        ofShebang? (before ++ stretch' ++ after) = ofShebang? line) ∧
    ∀ (b : Byte) (more : Bytes), isBlank b = true → ofShebang? line = some .sh →
      ofShebang? (line ++ b :: more) = some .sh := by
  refine ⟨ofShebang?_eq_some_iff, ofShebang?_eq_none_iff, ?_, ?_⟩
  · rintro before stretch stretch' after h h' rfl
    refine Option.ext fun language => ?_
    cases language
    rw [ofShebang?_eq_some_iff, ofShebang?_eq_some_iff]
    exact ⟨IsShellLine.replace h' h, IsShellLine.replace h h'⟩
  · intro b more hb hline
    rw [ofShebang?_eq_some_iff] at hline ⊢
    exact hline.append_blank hb more

/-- A line with options after `env`, ill-formed bytes in one of them, and `stretch` in the path of
`env`. -/
def envLine (stretch : Bytes) : Bytes :=
  Bytes.ofAscii "#! /" ++ stretch ++
    (Bytes.ofAscii "/env -S\t-" ++ 0xFF :: Bytes.ofAscii "\x0C/bin/ksh")

theorem ofShebang?_grammar_envLine :
    ofShebang? (envLine [0xE2, 0x82]) = some .sh ∧
    Bytes.IsBeyondAscii [0xE2, 0x82] ∧ Bytes.IsBeyondAscii [0xF0] ∧
    ofShebang? (envLine [0xF0]) = some .sh ∧
    ofShebang? (envLine [0xE2, 0x82] ++ 0x0D :: [0x2F, 0xC3]) = some .sh := by
  have hline : ofShebang? (envLine [0xE2, 0x82]) = some .sh := by decide +kernel
  have hcut : Bytes.IsBeyondAscii [0xE2, 0x82] := by decide
  have hlead : Bytes.IsBeyondAscii [0xF0] := by decide
  obtain ⟨-, -, hreplace, happend⟩ := ofShebang?_grammar (envLine [0xE2, 0x82])
  refine ⟨hline, hcut, hlead, ?_, happend 0x0D [0x2F, 0xC3] (by decide) hline⟩
  exact (hreplace _ [0xE2, 0x82] [0xF0] _ hcut hlead rfl).trans hline

end Language

end ScriptTags
