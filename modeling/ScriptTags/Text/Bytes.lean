/-!
# Byte strings

Scripts, their lines, and the names of files are **byte strings**: nothing promises that they are
text. This module fixes the type, names the few bytes the rest of the library speaks about, and
states the two byte classes that decide what a shell function definition looks like:

* `Byte.isSpace`: the six blank bytes, vertical tab and form feed included;
* `Byte.isIdent`: the bytes of a function name, ASCII letters and digits with `_` and `-`.

No byte is in both classes, and no byte above `0x7F` is in either.
-/

namespace ScriptTags

/-- One byte. -/
abbrev Byte := UInt8

/-- A **byte string**. -/
abbrev Bytes := List Byte

namespace Byte

/-- Line feed, which ends a line. -/
abbrev lf : Byte := 0x0A

/-- Carriage return, dropped before a line feed. -/
abbrev cr : Byte := 0x0D

/-- The number sign, which starts a comment. -/
abbrev hash : Byte := 0x23

/-- The opening parenthesis. -/
abbrev openParen : Byte := 0x28

/-- The closing parenthesis. -/
abbrev closeParen : Byte := 0x29

/-- The hyphen, which starts an option. -/
abbrev hyphen : Byte := 0x2D

/-- The equals sign, which attaches a value to an option. -/
abbrev equals : Byte := 0x3D

/-- The full stop, which sets off an extension and marks a hidden name. -/
abbrev dot : Byte := 0x2E

/-- The solidus, which separates the components of a path. -/
abbrev slash : Byte := 0x2F

/-- **Blank bytes**: space, tab, line feed, vertical tab, form feed, and carriage return. -/
def isSpace (b : Byte) : Bool :=
  b == 0x20 || (0x09 ≤ b && b ≤ 0x0D)

/-- **Name bytes**: ASCII letters and digits, `_`, and `-`. -/
def isIdent (b : Byte) : Bool :=
  (0x30 ≤ b && b ≤ 0x39) || (0x41 ≤ b && b ≤ 0x5A) || (0x61 ≤ b && b ≤ 0x7A) ||
    b == 0x5F || b == 0x2D

/-- A blank byte is not a name byte. -/
theorem isIdent_of_isSpace {b : Byte} (h : b.isSpace = true) : b.isIdent = false := by
  rw [Bool.eq_false_iff]
  intro h'
  simp only [isSpace, isIdent, Bool.or_eq_true, Bool.and_eq_true, beq_iff_eq, decide_eq_true_eq,
    UInt8.le_iff_toNat_le, ← UInt8.toNat_inj] at h h'
  simp at h h'
  omega

/-- Blank bytes are ASCII. -/
theorem lt_of_isSpace {b : Byte} (h : b.isSpace = true) : b < 0x80 := by
  simp only [isSpace, Bool.or_eq_true, Bool.and_eq_true, beq_iff_eq, decide_eq_true_eq,
    UInt8.le_iff_toNat_le, UInt8.lt_iff_toNat_lt, ← UInt8.toNat_inj] at h ⊢
  simp at h ⊢
  omega

/-- Name bytes are ASCII. -/
theorem lt_of_isIdent {b : Byte} (h : b.isIdent = true) : b < 0x80 := by
  simp only [isIdent, Bool.or_eq_true, Bool.and_eq_true, beq_iff_eq, decide_eq_true_eq,
    UInt8.le_iff_toNat_le, UInt8.lt_iff_toNat_lt, ← UInt8.toNat_inj] at h ⊢
  simp at h ⊢
  omega

end Byte

namespace Bytes

/-- The bytes of an ASCII text, one byte to a character. -/
def ofAscii (text : String) : Bytes :=
  text.toList.map fun c => UInt8.ofNat c.toNat

/-- The characters with these code points, one character to a byte. -/
def toChars (bytes : Bytes) : List Char :=
  bytes.map Char.ofUInt8

/-- `bytes` without its last byte when that byte is `b`. -/
def dropFinal (b : Byte) (bytes : Bytes) : Bytes :=
  if bytes.getLast? = some b then bytes.dropLast else bytes

@[simp]
theorem dropFinal_concat (b : Byte) (bytes : Bytes) : dropFinal b (bytes ++ [b]) = bytes := by
  simp [dropFinal]

theorem dropFinal_of_ne {b : Byte} {bytes : Bytes} (h : bytes.getLast? ≠ some b) :
    dropFinal b bytes = bytes := by
  simp [dropFinal, h]

theorem dropFinal_subset (b : Byte) (bytes : Bytes) : bytes.dropFinal b ⊆ bytes := by
  rw [dropFinal]
  split
  · exact List.dropLast_subset bytes
  · exact List.Subset.refl bytes

end Bytes

end ScriptTags
