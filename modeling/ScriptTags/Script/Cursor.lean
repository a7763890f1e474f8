import ScriptTags.Overflow
import ScriptTags.Text.Bytes

/-!
# Byte cursor

A cursor stands at a **position** inside a byte string. Positions and distances are 64-bit words.
Where an operation takes a distance from outside, it adds the distance to the position before it
does anything else, and the sum may leave the word (`Overflow`).

A sum that stays in the word is looked up or clamped: reading past the end gives nothing, and moving
past it stops there.
-/

namespace ScriptTags

/-- A **cursor**: a byte string with a position in it. -/
structure Cursor where
  bytes : Bytes
  pos : UInt64 := 0
  deriving DecidableEq, Repr

namespace Cursor

/-- The length of the byte string, as a word. -/
def size (c : Cursor) : UInt64 :=
  UInt64.ofNat c.bytes.length

/-- The **unread** bytes. -/
def rest (c : Cursor) : Bytes :=
  c.bytes.drop c.pos.toNat

/-- The byte at the position. -/
def peek (c : Cursor) : Option Byte :=
  c.bytes[c.pos.toNat]?

/-- The byte `offset` places after the position. -/
def peekAt (o : Overflow) (c : Cursor) (offset : UInt64) : Except Panic (Option Byte) := do
  return c.bytes[(← o.add c.pos offset).toNat]?

/-- Reads the byte at the position and steps over it. There is one, so the next position is a word
as well. -/
def bump (c : Cursor) : Option Byte × Cursor :=
  match c.peek with
  | none => (none, c)
  | some b => (some b, { c with pos := c.pos + 1 })

/-- Moves `n` places on, and at most to the end. -/
def advance (o : Overflow) (c : Cursor) (n : UInt64) : Except Panic Cursor := do
  return { c with pos := min (← o.add c.pos n) c.size }

/-- Whether the unread bytes start with `literal`. -/
def startsWith (c : Cursor) (literal : Bytes) : Bool :=
  literal.isPrefixOf c.rest

/-- Reads the longest run of bytes in the class `p`. -/
def takeWhile (c : Cursor) (p : Byte → Bool) : Bytes × Cursor :=
  let taken := c.rest.takeWhile p
  (taken, { c with pos := c.pos + UInt64.ofNat taken.length })

/-- Steps over blank bytes. -/
def skipWhitespace (c : Cursor) : Cursor :=
  (c.takeWhile Byte.isSpace).2

end Cursor

end ScriptTags
