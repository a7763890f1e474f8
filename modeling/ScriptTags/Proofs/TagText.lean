import ScriptTags.Proofs.Decoding
import ScriptTags.Proofs.Extraction

/-!
# What the texts of a tag can hold

Three texts go from a script into its tags, and each is bounded by where it comes from. A **name**
is a run of name bytes, so that it has no separator of any kind. A **pattern** is a physical line,
so that it has no line feed; it may have anything else. The **file** is the path as it was given,
and a path may have every character there is: the decoding neither adds nor loses an ASCII one.
-/

namespace ScriptTags

/-- **Name characters**: ASCII letters and digits, `_`, and `-`. -/
def isNameChar (c : Char) : Bool :=
  c.isAlphanum || c == '_' || c == '-'

/-- A text that can **name a function**: one or more name characters. -/
def IsFunctionName (text : String) : Prop :=
  text ≠ "" ∧ ∀ c ∈ text.toList, isNameChar c = true

instance (text : String) : Decidable (IsFunctionName text) :=
  decidable_of_iff (text ≠ "" ∧ text.toList.all isNameChar = true)
    (and_congr_right fun _ => List.all_eq_true)

theorem IsFunctionName.notMem {text : String} {c : Char} (h : IsFunctionName text)
    (hc : isNameChar c = false) : c ∉ text.toList := by
  intro hmem
  rw [h.2 c hmem] at hc
  contradiction

theorem isNameChar_ofUInt8 {b : Byte} (h : b.isIdent = true) :
    isNameChar (Char.ofUInt8 b) = true := by
  have hall : ∀ n < 256, Byte.isIdent (UInt8.ofNat n) = true →
      isNameChar (Char.ofUInt8 (UInt8.ofNat n)) = true := by decide +kernel
  have hb := hall b.toNat b.toNat_lt
  rw [UInt8.ofNat_toNat] at hb
  exact hb h

/-- What a line defines is named by name characters. -/
theorem isFunctionName_text {line : Bytes} {found : Definition}
    (h : Line.classify line = .definition found) : IsFunctionName found.text := by
  have hname := Line.isName_of_classify h
  constructor
  · intro hempty
    have hchars : Bytes.toChars found.name = [] := by
      simpa [Definition.text] using hempty
    exact hname.1 (List.map_eq_nil_iff.mp hchars)
  · intro c hc
    rw [Definition.text, String.toList_ofList, Bytes.toChars, List.mem_map] at hc
    obtain ⟨b, hb, rfl⟩ := hc
    exact isNameChar_ofUInt8 (hname.2 b hb)

variable {config : Config} {path : Path} {content : Bytes} {file : TagFile} {tag : Tag}

/-- **The name and the pattern of a tag**: name characters, and a text without a line feed. -/
theorem texts_of_extract (h : extract config path content = .ok file) (htag : tag ∈ file.tags) :
    IsFunctionName tag.name ∧ '\n' ∉ tag.pattern.toList := by
  obtain ⟨language, -, rfl⟩ := extract_eq_ok_iff.mp h
  obtain ⟨line, hline, htag⟩ := mem_tags_lines_iff.mp htag
  obtain ⟨found, hfound, hname, -, -, hpattern⟩ := Line.tag?_eq_some_iff.mp htag
  obtain ⟨before, after, -, -, -, hlf, -⟩ := hline
  constructor
  · rw [hname]
    exact isFunctionName_text hfound
  · rw [hpattern]
    intro hmem
    have hbyte : Byte.lf ∈ line.dropFinal Byte.cr :=
      (Utf8.mem_decodeLossy_iff (b := Byte.lf) (by decide)).mp hmem
    exact hlf (Bytes.dropFinal_subset Byte.cr line hbyte)

/-- **The file of a script** has the ASCII characters of its path. -/
theorem mem_file_of_extract_iff {b : Byte} (h : extract config path content = .ok file)
    (hb : b < 0x80) : Char.ofUInt8 b ∈ file.file.toList ↔ b ∈ path.bytes := by
  obtain ⟨language, -, rfl⟩ := extract_eq_ok_iff.mp h
  exact Utf8.mem_decodeLossy_iff hb

end ScriptTags
