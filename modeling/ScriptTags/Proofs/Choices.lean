import Mathlib.Data.List.Nodup
import ScriptTags.CommandLine
import ScriptTags.Proofs.Encoding
import ScriptTags.Proofs.Readers

/-!
# What options choose

An option that is read changes one field of what is **given** and looks at no other: it is refused
if the field is taken, and its value is read into it otherwise. So options of which each is used
once can be read in any order (`Given.choose_comm`), and what they choose together is a
**selection** (`Selection`), which knows no order at all.

The main statement is `Selection.foldlM_give`: the choices of a selection are all taken, in whatever
order they come, and what is given in the end is the selection.
-/

namespace ScriptTags.CommandLine

/-! ### Values -/

/-- A **value** that can be told from an option and from the sign that attaches it. It need not be
text. -/
structure IsValue (value : Bytes) : Prop where
  ne_nil : value ≠ []
  head?_ne_hyphen : value.head? ≠ some Byte.hyphen
  head?_ne_equals : value.head? ≠ some Byte.equals

instance (value : Bytes) : Decidable (IsValue value) :=
  decidable_of_iff
    (value ≠ [] ∧ value.head? ≠ some Byte.hyphen ∧ value.head? ≠ some Byte.equals)
    ⟨fun ⟨h₁, h₂, h₃⟩ => ⟨h₁, h₂, h₃⟩, fun ⟨h₁, h₂, h₃⟩ => ⟨h₁, h₂, h₃⟩⟩

/-- The text **denotes** a number: digits, at least one, with a plus sign before them or not, whose
value is the number. -/
def Denotes (text : String) (n : UInt64) : Prop :=
  ∃ digits, (text.toList = digits ∨ text.toList = '+' :: digits) ∧ digits ≠ [] ∧
    (∀ c ∈ digits, c.isDigit = true) ∧ Nat.ofDigitChars 10 digits 0 = n.toNat

theorem le_ofDigitChars (digits : List Char) (n : Nat) : n ≤ Nat.ofDigitChars 10 digits n := by
  induction digits generalizing n with
  | nil => exact Nat.le_refl n
  | cons c digits ih =>
    rw [Nat.ofDigitChars_cons]
    have hle := ih (10 * n + (c.toNat - '0'.toNat))
    omega

theorem addDigit_eq_ok_iff {n m : Nat} {c : Char} :
    addDigit n c = .ok m ↔
      c.isDigit = true ∧ m = 10 * n + (c.toNat - '0'.toNat) ∧ m < UInt64.size := by
  rw [addDigit, Nat.mul_comm n 10]
  by_cases hdigit : c.isDigit = true
  · by_cases hsize : UInt64.size ≤ 10 * n + (c.toNat - '0'.toNat)
    · simp only [hdigit, hsize, Bool.not_true, Bool.false_eq_true, if_false, if_true]
      refine iff_of_false (by simp) ?_
      rintro ⟨-, rfl, hlt⟩
      omega
    · simp only [hdigit, hsize, Bool.not_true, Bool.false_eq_true, if_false, Except.ok.injEq]
      constructor
      · rintro rfl
        exact ⟨trivial, rfl, Nat.not_le.mp hsize⟩
      · rintro ⟨-, rfl, -⟩
        rfl
  · simp [hdigit]

/-- Digits are read to their value as long as that is a word. No number on the way is greater than
the last, so the test after each digit is one test of the value. -/
theorem foldlM_addDigit_eq_ok_iff {digits : List Char} {n m : Nat} (hn : n < UInt64.size) :
    digits.foldlM addDigit n = .ok m ↔
      (∀ c ∈ digits, c.isDigit = true) ∧ m = Nat.ofDigitChars 10 digits n ∧ m < UInt64.size := by
  induction digits generalizing n with
  | nil =>
    rw [List.foldlM_nil]
    constructor
    · intro h
      obtain rfl : n = m := Except.ok.inj h
      exact ⟨by simp, rfl, hn⟩
    · rintro ⟨-, rfl, -⟩
      rfl
  | cons c digits ih =>
    rw [List.foldlM_cons, bind_eq_ok_iff, List.forall_mem_cons, Nat.ofDigitChars_cons]
    constructor
    · rintro ⟨next, hnext, hrest⟩
      obtain ⟨hc, rfl, hlt⟩ := addDigit_eq_ok_iff.mp hnext
      obtain ⟨hdigits, hm, hlt'⟩ := (ih hlt).mp hrest
      exact ⟨⟨hc, hdigits⟩, hm, hlt'⟩
    · rintro ⟨⟨hc, hdigits⟩, hm, hlt⟩
      have hle := le_ofDigitChars digits (10 * n + (c.toNat - '0'.toNat))
      have hnext : 10 * n + (c.toNat - '0'.toNat) < UInt64.size := by omega
      exact ⟨_, addDigit_eq_ok_iff.mpr ⟨hc, rfl, hnext⟩, (ih hnext).mpr ⟨hdigits, hm, hlt⟩⟩

theorem map_foldlM_addDigit_eq_ok_iff {digits : List Char} {n : UInt64} :
    UInt64.ofNat <$> digits.foldlM addDigit 0 = .ok n ↔
      (∀ c ∈ digits, c.isDigit = true) ∧ Nat.ofDigitChars 10 digits 0 = n.toNat := by
  have hmap : UInt64.ofNat <$> digits.foldlM addDigit 0 = .ok n ↔
      ∃ m, digits.foldlM addDigit 0 = .ok m ∧ n = UInt64.ofNat m := bind_pure_eq_ok_iff
  rw [hmap]
  constructor
  · rintro ⟨m, hm, rfl⟩
    obtain ⟨hdigits, rfl, hlt⟩ := (foldlM_addDigit_eq_ok_iff (by decide)).mp hm
    exact ⟨hdigits, (UInt64.toNat_ofNat_of_lt' hlt).symm⟩
  · rintro ⟨hdigits, hvalue⟩
    exact ⟨n.toNat, (foldlM_addDigit_eq_ok_iff (by decide)).mpr
      ⟨hdigits, hvalue.symm, n.toNat_lt_size⟩, UInt64.ofNat_toNat.symm⟩

/-- **A number is read exactly from the texts that denote it.** -/
theorem readNumber_eq_ok_iff {text : String} {n : UInt64} :
    readNumber text = .ok n ↔ Denotes text n := by
  have hplus : ¬ ('+').isDigit = true := by decide
  rw [readNumber, Denotes]
  split
  · next htext => simp [htext]
  · next htext =>
    simp only [htext, reduceCtorEq, false_iff]
    rintro ⟨digits, rfl | hdigits, hne, hall, -⟩
    · exact hplus (hall '+' List.mem_cons_self)
    · exact hne (List.cons.inj hdigits).2.symm
  · next digits hone htext =>
    rw [map_foldlM_addDigit_eq_ok_iff]
    constructor
    · exact fun h => ⟨digits, .inr htext, fun hnil => hone (hnil ▸ rfl), h⟩
    · rintro ⟨digits', hdigits', -, h⟩
      rcases hdigits' with hall | hrest
      · rw [htext] at hall
        exact absurd (h.1 '+' (hall ▸ List.mem_cons_self)) hplus
      · rw [htext] at hrest
        exact (List.cons.inj hrest).2 ▸ h
  · next hnil hone hmore =>
    rw [map_foldlM_addDigit_eq_ok_iff]
    constructor
    · exact fun h => ⟨_, .inl rfl, hnil, h⟩
    · rintro ⟨digits', rfl | hrest, -, h⟩
      · exact h
      · exact absurd hrest (hmore digits')

/-- What denotes a number starts with a digit or a plus sign. -/
theorem Denotes.isValue {text : String} {n : UInt64} (h : Denotes text n) :
    IsValue (Utf8.encode text) := by
  obtain ⟨digits, htext, hne, hdigits, -⟩ := h
  obtain ⟨first, others, rfl⟩ := List.exists_cons_of_ne_nil hne
  have hfirst := hdigits first List.mem_cons_self
  have hhead : text.toList.head? = some first ∨ text.toList.head? = some '+' := by
    rcases htext with htext | htext
    · exact .inl (by rw [htext, List.head?_cons])
    · exact .inr (by rw [htext, List.head?_cons])
  refine ⟨fun hnil => ?_, fun hsign => ?_, fun hsign => ?_⟩
  · obtain rfl : "" = text := by rw [← Utf8.decodeLossy_encode text, hnil]; rfl
    simp at hhead
  all_goals
    rw [Utf8.head?_encode_eq_some_iff (by decide)] at hsign
    rw [hsign, Option.some_inj, Option.some_inj] at hhead
    rcases hhead with rfl | hplus
    · exact absurd hfirst (by decide)
    · exact absurd hplus (by decide)

theorem ofName?_name (format : Format) : Format.ofName? format.name = some format := by
  cases format <;> decide

theorem isValue_name (format : Format) : IsValue (Utf8.encode format.name) := by
  cases format <;> decide

/-! ### Choices -/

/-- A **choice**: an option, with its value if it has one. -/
inductive Choice where
  | switch (s : Switch)
  | setting (s : Setting) (value : Bytes)
  deriving DecidableEq

namespace Choice

/-- The option of a choice. -/
def option : Choice → Opt
  | switch s => .switch s
  | setting s _ => .setting s

/-- A choice is **valid** when its option changes a field, and its value can be read into that
field. -/
def IsValid : Choice → Prop
  | switch s => s = .recursive ∨ s = .unsorted ∨ s = .verbose
  | setting s value =>
    IsValue value ∧
      match s with
      | .format => ∃ format : Format, value = Utf8.encode format.name
      | .maxDepth => ∃ text n, value = Utf8.encode text ∧ Denotes text n
      | .output | .config => True

end Choice

namespace Given

/-- **Reads** a choice. -/
def give (g : Given) : Choice → Except Stop Given
  | .switch s => g.flip s
  | .setting s value => g.set value s

/-- Whether an option **has** been given. -/
def has (g : Given) : Opt → Bool
  | .switch .recursive => g.recursive
  | .switch .unsorted => g.unsorted
  | .switch .verbose => g.verbose
  | .switch (.help _) | .switch .version => false
  | .setting .format => g.format.isSome
  | .setting .output => g.output.isSome
  | .setting .maxDepth => g.maxDepth.isSome
  | .setting .config => g.config.isSome

/-- What is given with a choice **in its field**, whatever was there. -/
def choose (g : Given) : Choice → Given
  | .switch .recursive => { g with recursive := true }
  | .switch .unsorted => { g with unsorted := true }
  | .switch .verbose => { g with verbose := true }
  | .switch (.help _) | .switch .version => g
  | .setting .format value => { g with format := (Utf8.decode? value).bind Format.ofName? }
  | .setting .output value => { g with output := some ⟨value⟩ }
  | .setting .maxDepth value =>
    { g with maxDepth := (Utf8.decode? value).bind fun text => (readNumber text).toOption }
  | .setting .config value => { g with config := some ⟨value⟩ }

variable {g : Given} {a b c : Choice} {choices : List Choice}

/-- A valid choice is taken if its option has not been given. -/
theorem give_eq_choose (hvalid : c.IsValid) (hfree : g.has c.option = false) :
    g.give c = .ok (g.choose c) := by
  cases c with
  | switch s =>
    rcases hvalid with rfl | rfl | rfl <;>
      · rw [Choice.option, has] at hfree
        simp only [give, flip, turnOn, hfree]
        rfl
  | setting s value =>
    obtain ⟨hvalue, haccepts⟩ := hvalid
    have hpath : ∀ target, readPath target value = .ok ⟨value⟩ := fun target =>
      if_neg hvalue.ne_nil
    cases s with
    | output | config =>
      rw [Choice.option, has] at hfree
      simp only [give, set, once, hfree, hpath]
      rfl
    | format =>
      obtain ⟨format, rfl⟩ := haccepts
      rw [Choice.option, has] at hfree
      simp only [give, set, once, hfree, readFormat, choose, Utf8.decode?_encode,
        Option.bind_some, ofName?_name]
      rfl
    | maxDepth =>
      obtain ⟨text, n, rfl, hn⟩ := haccepts
      rw [Choice.option, has] at hfree
      simp only [give, set, once, hfree, readDepth, choose, Utf8.decode?_encode,
        Option.bind_some, readNumber_eq_ok_iff.mpr hn]
      rfl

/-- A choice leaves what is given of the other options. -/
theorem has_choose_of_ne {o : Opt} (h : c.option ≠ o) : (g.choose c).has o = g.has o := by
  -- one case for each two options: the fields differ, or the options are the same
  rcases c with (_ | _ | _ | _ | _) | ⟨_ | _ | _ | _, value⟩ <;>
    rcases o with (_ | _ | _ | _ | _) | (_ | _ | _ | _) <;>
      first
        | rfl
        | exact absurd rfl h

/-- **Choices of different options commute**: they change different fields. -/
theorem choose_comm (h : a.option ≠ b.option) (g : Given) :
    (g.choose a).choose b = (g.choose b).choose a := by
  -- again each two options: changes of two fields are the same record in either order
  rcases a with (_ | _ | _ | _ | _) | ⟨_ | _ | _ | _, value⟩ <;>
    rcases b with (_ | _ | _ | _ | _) | ⟨_ | _ | _ | _, value'⟩ <;>
      first
        | rfl
        | exact absurd rfl h

/-- Valid choices are all taken if no two are of one option and none of theirs has been given. -/
theorem foldlM_give (hvalid : ∀ c ∈ choices, c.IsValid)
    (hnodup : (choices.map Choice.option).Nodup)
    (hfree : ∀ c ∈ choices, g.has c.option = false) :
    choices.foldlM give g = .ok (choices.foldl choose g) := by
  induction choices generalizing g with
  | nil => rfl
  | cons c choices ih =>
    rw [List.forall_mem_cons] at hvalid hfree
    rw [List.map_cons, List.nodup_cons] at hnodup
    rw [List.foldlM_cons, List.foldl_cons, give_eq_choose hvalid.1 hfree.1]
    refine ih hvalid.2 hnodup.2 fun other hother => ?_
    -- the choice in front has filled its own field only
    have hne : c.option ≠ other.option := fun heq =>
      hnodup.1 (heq ▸ List.mem_map_of_mem hother)
    rw [has_choose_of_ne hne, hfree.2 other hother]

/-- The order of choices does not matter if no two are of one option. -/
theorem foldl_choose_perm {others : List Choice} (hnodup : (choices.map Choice.option).Nodup)
    (hperm : choices.Perm others) (g : Given) :
    choices.foldl choose g = others.foldl choose g := by
  refine hperm.foldl_eq' (fun a ha b hb g => ?_) g
  by_cases heq : a.option = b.option
  · rw [List.inj_on_of_nodup_map hnodup ha hb heq]
  · exact choose_comm heq g

end Given

/-! ### Selections -/

/-- A number **as it is written**. -/
structure Numeral where
  text : String
  number : UInt64
  denotes : Denotes text number

/-- A **selection**: of each option, whether it is used, and with what value. -/
structure Selection where
  recursive : Bool := false
  unsorted : Bool := false
  verbose : Bool := false
  format : Option Format := none
  output : Option { value : Bytes // IsValue value } := none
  maxDepth : Option Numeral := none
  config : Option { value : Bytes // IsValue value } := none

namespace Selection

/-- The **choices** of a selection, in an order that means nothing. -/
def choices (sel : Selection) : List Choice :=
  (if sel.recursive then [Choice.switch .recursive] else []) ++
  (if sel.unsorted then [Choice.switch .unsorted] else []) ++
  (if sel.verbose then [Choice.switch .verbose] else []) ++
  (sel.format.map fun format => Choice.setting .format (Utf8.encode format.name)).toList ++
  (sel.output.map fun value => Choice.setting .output value.1).toList ++
  (sel.maxDepth.map fun numeral =>
    Choice.setting .maxDepth (Utf8.encode numeral.text)).toList ++
  (sel.config.map fun value => Choice.setting .config value.1).toList

/-- What a selection **gives**. -/
def given (sel : Selection) : Given :=
  { format := sel.format
    output := sel.output.map fun value => ⟨value.1⟩
    recursive := sel.recursive
    maxDepth := sel.maxDepth.map Numeral.number
    unsorted := sel.unsorted
    config := sel.config.map fun value => ⟨value.1⟩
    verbose := sel.verbose }

variable (sel : Selection)

theorem isValid_of_mem_choices {c : Choice} (h : c ∈ sel.choices) : c.IsValid := by
  simp only [choices, List.mem_append, List.mem_ite_nil_right, List.mem_singleton,
    Option.mem_toList, Option.map_eq_some_iff] at h
  obtain (((((⟨-, rfl⟩ | ⟨-, rfl⟩) | ⟨-, rfl⟩) | ⟨format, -, rfl⟩) | ⟨value, -, rfl⟩) |
    ⟨numeral, -, rfl⟩) | ⟨value, -, rfl⟩ := h
  · exact .inl rfl
  · exact .inr (.inl rfl)
  · exact .inr (.inr rfl)
  · exact ⟨isValue_name format, format, rfl⟩
  · exact ⟨value.2, trivial⟩
  · exact ⟨numeral.denotes.isValue, numeral.text, numeral.number, rfl, numeral.denotes⟩
  · exact ⟨value.2, trivial⟩

/-- No two choices of a selection are of one option. -/
theorem nodup_option_choices : (sel.choices.map Choice.option).Nodup := by
  have hall : [Opt.switch .recursive, .switch .unsorted, .switch .verbose, .setting .format,
      .setting .output, .setting .maxDepth, .setting .config].Nodup := by decide
  have hswitch : ∀ (used : Bool) (s : Switch),
      ((if used then [.switch s] else []).map Choice.option).Sublist [.switch s] := by
    intro used s
    cases used <;> simp [Choice.option]
  have hsetting : ∀ {α : Type} (value : Option α) (s : Setting) (text : α → Bytes),
      ((value.map fun v => Choice.setting s (text v)).toList.map Choice.option).Sublist
        [.setting s] := by
    intro α value s text
    cases value <;> simp [Choice.option]
  refine List.Nodup.sublist ?_ hall
  simp only [choices, List.map_append]
  exact ((((((hswitch _ _).append (hswitch _ _)).append (hswitch _ _)).append
    (hsetting _ _ _)).append (hsetting _ _ _)).append (hsetting _ _ _)).append (hsetting _ _ _)

/-- A switch that is used fills its field. -/
theorem foldl_choose_switch (c : Choice) (fill : Bool → Given)
    (h : (fill false).choose c = fill true) (used : Bool) :
    (if used then [c] else []).foldl Given.choose (fill false) = fill used := by
  cases used with
  | false => rfl
  | true => exact h

/-- A setting that has a value fills its field. -/
theorem foldl_choose_setting {α : Type} (choice : α → Choice) (fill : Option α → Given)
    (h : ∀ v, (fill none).choose (choice v) = fill (some v)) (value : Option α) :
    (value.map choice).toList.foldl Given.choose (fill none) = fill value := by
  cases value with
  | none => rfl
  | some v => exact h v

/-- **The choices of a selection fill its fields**, each its own. -/
theorem foldl_choose_choices : sel.choices.foldl Given.choose {} = sel.given := by
  obtain ⟨recursive, unsorted, verbose, format, output, maxDepth, config⟩ := sel
  have hrecursive := foldl_choose_switch (.switch .recursive)
    (fun used => ⟨[], none, none, used, none, false, none, false⟩) rfl recursive
  have hunsorted := foldl_choose_switch (.switch .unsorted)
    (fun used => ⟨[], none, none, recursive, none, used, none, false⟩) rfl unsorted
  have hverbose := foldl_choose_switch (.switch .verbose)
    (fun used => ⟨[], none, none, recursive, none, unsorted, none, used⟩) rfl verbose
  have hformat := foldl_choose_setting
    (fun format : Format => .setting .format (Utf8.encode format.name))
    (fun format => ⟨[], format, none, recursive, none, unsorted, none, verbose⟩)
    (fun format => by rw [Given.choose, Utf8.decode?_encode, Option.bind_some, ofName?_name]) format
  have houtput := foldl_choose_setting
    (fun value : { value : Bytes // IsValue value } => .setting .output value.1)
    (fun output => ⟨[], format, output.map fun value => ⟨value.1⟩, recursive, none, unsorted, none,
      verbose⟩) (fun value => by rw [Given.choose, Option.map_some]) output
  have hmaxDepth := foldl_choose_setting
    (fun numeral : Numeral => .setting .maxDepth (Utf8.encode numeral.text))
    (fun depth => ⟨[], format, output.map fun value => ⟨value.1⟩, recursive,
      depth.map Numeral.number, unsorted, none, verbose⟩)
    (fun numeral => by
      rw [Given.choose, Utf8.decode?_encode, Option.bind_some,
        readNumber_eq_ok_iff.mpr numeral.denotes]
      rfl) maxDepth
  have hconfig := foldl_choose_setting
    (fun value : { value : Bytes // IsValue value } => .setting .config value.1)
    (fun config => ⟨[], format, output.map fun value => ⟨value.1⟩, recursive,
      maxDepth.map Numeral.number, unsorted, config.map fun value => ⟨value.1⟩, verbose⟩)
    (fun value => by rw [Given.choose, Option.map_some]) config
  simp only [Option.map_none] at houtput hmaxDepth hconfig
  simp only [choices, List.foldl_append]
  rw [hrecursive, hunsorted, hverbose, hformat, houtput, hmaxDepth, hconfig, given]

/-- **A selection can be read in any order.** -/
theorem foldlM_give {choices : List Choice} (hperm : choices.Perm sel.choices) :
    choices.foldlM Given.give {} = .ok sel.given := by
  have hnodup : (choices.map Choice.option).Nodup :=
    (hperm.map Choice.option).nodup_iff.mpr sel.nodup_option_choices
  have hvalid : ∀ c ∈ choices, c.IsValid := fun c hc =>
    sel.isValid_of_mem_choices (hperm.mem_iff.mp hc)
  have hfree : ∀ c ∈ choices, ({} : Given).has c.option = false := by
    intro c _
    rcases c with (_ | _ | _ | _ | _) | ⟨_ | _ | _ | _, value⟩ <;> rfl
  rw [Given.foldlM_give hvalid hnodup hfree, Given.foldl_choose_perm hnodup hperm,
    foldl_choose_choices]

end Selection

end ScriptTags.CommandLine
