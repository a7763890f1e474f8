import ScriptTags.Text.Utf8

/-!
# Text for a terminal, and without one

Text for a terminal holds **control sequences** between what it shows: an escape byte and the bytes
that belong to it. Where no terminal reads the text they are taken out (`Terminal.plain`), and with
them the control characters that are not white space.

The sequences are recognised byte by byte, by the states in which a terminal reads them:

* `escape` has read the escape byte, and `escapeIntermediate` bytes after it that do not end the
  sequence;
* `control` is inside a control sequence proper, which any byte from `@` to `~` ends;
* `device`, `deviceParameter`, and `deviceIntermediate` are at the head of a device control string;
* `controlString` is inside a string that only the byte `0x9C` ends, `command` inside one that the
  bell ends.

The escape byte starts a new sequence from any state, and the cancel and substitute characters end
every one. White space that stands inside an escape or a control sequence is shown; what follows is
then shown too, and the sequence is taken up again only at the next byte that is not.
-/

namespace ScriptTags.Terminal

/-- How far a terminal has come in a sequence. -/
inductive State where
  | ground
  /-- Inside a character of several bytes, of which so many are still to come. -/
  | character (missing : Nat)
  | escape
  | escapeIntermediate
  | control
  | device
  | deviceParameter
  | deviceIntermediate
  | controlString
  | command
  deriving DecidableEq, Repr

/-- Whether a byte lies between two others, ends included. -/
def within (low high b : Byte) : Bool :=
  low ≤ b && b ≤ high

/-- The control characters that are white space: tab, line feed, form feed, and carriage return. -/
def isLayout (b : Byte) : Bool :=
  b == 0x09 || b == 0x0A || b == 0x0C || b == 0x0D

namespace State

/-- The state that a byte leads to, if it is another one. -/
def next? (s : State) (b : Byte) : Option State :=
  if b = 0x18 ∨ b = 0x1A then some ground
  else if b = 0x1B then some escape
  else
    match s with
    | ground =>
      if within 0xC2 0xDF b then some (character 1)
      else if within 0xE0 0xEF b then some (character 2)
      else if within 0xF0 0xF4 b then some (character 3)
      else none
    | character missing => if missing ≤ 1 then some ground else some (character (missing - 1))
    | escape =>
      if within 0x20 0x2F b then some escapeIntermediate
      else if b = 0x5B then some control
      else if b = 0x5D then some command
      else if b = 0x50 then some device
      else if b = 0x58 ∨ b = 0x5E ∨ b = 0x5F then some controlString
      else if within 0x30 0x7E b then some ground
      else none
    | escapeIntermediate => if within 0x30 0x7E b then some ground else none
    | control => if within 0x40 0x7E b then some ground else none
    | device =>
      if within 0x20 0x2F b then some deviceIntermediate
      else if within 0x30 0x3F b then some deviceParameter
      else if within 0x40 0x7E b then some controlString
      else none
    | deviceParameter =>
      if within 0x20 0x2F b then some deviceIntermediate
      else if within 0x3C 0x7E b then some controlString
      else none
    | deviceIntermediate => if within 0x30 0x7E b then some controlString else none
    | controlString => if b = 0x9C then some ground else none
    | command => if b = 0x07 then some ground else none

/-- Whether a byte is shown that is read in this state. -/
def shows (s : State) (b : Byte) : Bool :=
  match s with
  | ground => within 0x20 0x7E b || within 0xC2 0xF4 b || isLayout b
  | character _ => true
  | escape | escapeIntermediate | control => isLayout b
  | _ => false

end State

/-- The reading of a text: the state, and whether the last byte was **shown**. While bytes are shown
they are read as they would be outside of any sequence. -/
structure Reading where
  state : State := .ground
  shown : Bool := false
  deriving DecidableEq, Repr

namespace Reading

/-- The state in which the next byte is read. -/
def current (r : Reading) : State :=
  match r.shown, r.state with
  | true, .character missing => .character missing
  | true, _ => .ground
  | false, state => state

/-- Reads a byte in the current state, and, if it turns out not to be shown, once more in the state
that it has led to. -/
def step (r : Reading) (b : Byte) : Reading :=
  let state := (r.current.next? b).getD r.state
  if r.current.shows b then ⟨state, true⟩
  else if r.shown then ⟨(state.next? b).getD state, state.shows b⟩
  else ⟨state, false⟩

/-- The bytes that are shown of a text. -/
def shownBytes : Reading → Bytes → Bytes
  | _, [] => []
  | r, b :: rest =>
    if (r.step b).shown then b :: (r.step b).shownBytes rest else (r.step b).shownBytes rest

end Reading

/-- A text **without control sequences**. -/
def plain (text : String) : String :=
  Utf8.decodeLossy (({} : Reading).shownBytes (Utf8.encode text))

/-- A text in bold type. -/
def bold (text : String) : String :=
  "\x1b[1m" ++ text ++ "\x1b[0m"

/-- A text in bold red type. -/
def alarm (text : String) : String :=
  "\x1b[1m\x1b[31m" ++ text ++ "\x1b[0m"

/-- A text in green type. -/
def green (text : String) : String :=
  "\x1b[32m" ++ text ++ "\x1b[0m"

/-- A text in yellow type. -/
def yellow (text : String) : String :=
  "\x1b[33m" ++ text ++ "\x1b[0m"

/-- A text in bold type and underlined. -/
def heading (text : String) : String :=
  "\x1b[1m\x1b[4m" ++ text ++ "\x1b[0m"

end ScriptTags.Terminal
