import ScriptTags.Text.Bytes

/-!
# UTF-8, well-formed or not

A byte string is read as UTF-8 by a machine that takes one byte at a time. Its state is either
**idle** or a `Pending` sequence: so many continuation bytes are still missing, and the next one
has to lie in a given range. The range is narrower than `0x80` to `0xBF` only after the lead bytes
`0xE0`, `0xED`, `0xF0`, and `0xF4`, which is what keeps overlong forms, surrogates, and code points
above `0x10FFFF` out.

A byte outside the expected range closes the pending sequence as **ill-formed** and is then read
again as the first byte of the next one, so each maximal ill-formed stretch counts once. Two
readings come out of the same run:

* `Utf8.decodeLossy` shows every ill-formed stretch as one replacement character;
* `Utf8.decode?` refuses a byte string that has any.
-/

namespace ScriptTags.Utf8

/-- A **pending sequence**: `missing` continuation bytes are still to come, the next of them between
`low` and `high`, and `bits` is the code point read so far. -/
structure Pending where
  missing : Nat
  low : Byte
  high : Byte
  bits : Nat
  deriving DecidableEq, Repr

/-- What one byte brings to light: the scalars it completes, `none` for an ill-formed stretch, and
the sequence that is pending after it. -/
abbrev Progress := List (Option Char) × Option Pending

/-- Reads the first byte of a sequence. -/
def start (b : Byte) : Progress :=
  if b < 0x80 then ([some (Char.ofUInt8 b)], none)
  else if b < 0xC2 then ([none], none)
  else if b < 0xE0 then ([], some ⟨1, 0x80, 0xBF, b.toNat - 0xC0⟩)
  else if b = 0xE0 then ([], some ⟨2, 0xA0, 0xBF, 0⟩)
  else if b = 0xED then ([], some ⟨2, 0x80, 0x9F, 0xD⟩)
  else if b < 0xF0 then ([], some ⟨2, 0x80, 0xBF, b.toNat - 0xE0⟩)
  else if b = 0xF0 then ([], some ⟨3, 0x90, 0xBF, 0⟩)
  else if b < 0xF4 then ([], some ⟨3, 0x80, 0xBF, b.toNat - 0xF0⟩)
  else if b = 0xF4 then ([], some ⟨3, 0x80, 0x8F, 4⟩)
  else ([none], none)

/-- Reads a byte while `p` is pending. -/
def Pending.next (p : Pending) (b : Byte) : Progress :=
  if p.low ≤ b ∧ b ≤ p.high then
    let bits := p.bits * 64 + b.toNat % 64
    if p.missing ≤ 1 then ([some (Char.ofNat bits)], none)
    else ([], some ⟨p.missing - 1, 0x80, 0xBF, bits⟩)
  else
    let (scalars, pending) := start b
    (none :: scalars, pending)

/-- One step of the reader. -/
def step : Option Pending → Byte → Progress
  | none, b => start b
  | some p, b => p.next b

/-- The scalars of `bytes` after a pending sequence; a sequence that the end cuts off is
ill-formed. -/
def scalarsFrom : Option Pending → Bytes → List (Option Char)
  | none, [] => []
  | some _, [] => [none]
  | state, b :: rest => (step state b).1 ++ scalarsFrom (step state b).2 rest

/-- The **scalars** of a byte string in order, `none` standing for a maximal ill-formed stretch. -/
def scalars (bytes : Bytes) : List (Option Char) :=
  scalarsFrom none bytes

/-- The character shown in place of an ill-formed stretch. -/
def replacement : Char := '\uFFFD'

/-- **Lossy decoding**: ill-formed stretches become replacement characters. -/
def decodeLossy (bytes : Bytes) : String :=
  String.ofList ((scalars bytes).map fun c => c.getD replacement)

/-- **Strict decoding**: the text of a well-formed byte string. -/
def decode? (bytes : Bytes) : Option String :=
  ((scalars bytes).mapM id).map String.ofList

/-- The UTF-8 form of a text. -/
def encode (text : String) : Bytes :=
  text.toList.flatMap String.utf8EncodeChar

end ScriptTags.Utf8
