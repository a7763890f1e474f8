import ScriptTags.Proofs.Readers
import ScriptTags.Toml.Grammar

/-!
# A reader of JSON

The grammar of **RFC 8259** as a reader, so that what is written can be read back by rules of its
own. A value keeps the members of an object in their order and with repeated names, and a number as
the rational it stands for, however it is spelled; nothing that the text says is left out.

White space may stand around a value, around the commas of arrays and objects, and around the colon
of a member. No value takes white space that follows it: it belongs to the next token.
-/

namespace ScriptTags.Json

open Toml (Reader ofDigits isHexDigit)
open Toml.Reader

/-- A **JSON value**. -/
inductive Value where
  | null
  | boolean (b : Bool)
  | number (q : Rat)
  | string (s : String)
  | array (items : List Value)
  | object (members : List (String × Value))
  deriving Repr

/-! ### Tokens -/

/-- White space. -/
def isBlank (c : Char) : Bool :=
  c == ' ' || c == '\t' || c == '\n' || c == '\r'

/-- What `r` reads behind any white space. -/
def token {α : Type} (r : Reader α) : Reader α := do
  let _ ← run isBlank
  r

/-- The number that the four digits of a `\u` escape write. -/
def codeUnit : Reader Nat := do
  return ofDigits 16 (← exactly isHexDigit 4)

/-- The character that a `\u` escape stands for, behind the letter. A character above `U+FFFF` takes
two of them, and neither half stands for a character alone. -/
def hexChar : Reader Char := do
  let unit ← codeUnit
  if unit < 0xD800 || 0xE000 ≤ unit then return Char.ofNat unit
  guard (unit < 0xDC00)
  literal ['\\', 'u']
  let low ← codeUnit
  guard (0xDC00 ≤ low && low < 0xE000)
  return Char.ofNat (0x10000 + (unit - 0xD800) * 0x400 + (low - 0xDC00))

/-- An escape sequence. -/
def escape : Reader Char := do
  let _ ← char '\\'
  let c ← satisfy fun _ => true
  if c == '"' || c == '\\' || c == '/' then return c
  else if c == 'b' then return '\x08'
  else if c == 'f' then return '\x0C'
  else if c == 'n' then return '\n'
  else if c == 'r' then return '\r'
  else if c == 't' then return '\t'
  else if c == 'u' then hexChar
  else failure

/-- A character that stands for itself in a string. -/
def isPlain (c : Char) : Bool :=
  '\x20' ≤ c && c != '"' && c != '\\'

/-- A **string**. -/
def string : Reader String := do
  let _ ← char '"'
  let cs ← many (satisfy isPlain <|> escape)
  let _ ← char '"'
  return String.ofList cs

/-- The digits before the point: a zero stands alone. -/
def whole : Reader (List Char) :=
  (List.singleton <$> char '0') <|> run1 Char.isDigit

/-- The digits behind the point. -/
def fraction : Reader (List Char) := do
  let _ ← char '.'
  run1 Char.isDigit

/-- The exponent. -/
def exponent : Reader Int := do
  let _ ← char 'e' <|> char 'E'
  let sign ← opt (char '+' <|> char '-')
  let n := ofDigits 10 (← run1 Char.isDigit)
  return if sign = some '-' then -n else n

/-- A **number**. -/
def number : Reader Rat := do
  let sign ← opt (char '-')
  let digits ← whole
  let places := (← opt fraction).getD []
  let power := (← opt exponent).getD 0
  let q : Rat := ofDigits 10 (digits ++ places) * 10 ^ (power - places.length)
  return if sign.isSome then -q else q

/-! ### Values -/

/-- Items between brackets with commas between them. -/
def bracketed {α : Type} (opening closing : Char) (item : Reader α) : Reader (List α) := do
  let _ ← char opening
  let items ← sepBy (token item) (token (char ','))
  let _ ← token (char closing)
  return items

/-- A member of an object. -/
def member (item : Reader Value) : Reader (String × Value) := do
  let name ← string
  let _ ← token (char ':')
  return (name, ← token item)

/-- A value that holds no other values. -/
def scalar : Reader Value :=
  (literal ['n', 'u', 'l', 'l'] *> pure .null) <|>
  (literal ['t', 'r', 'u', 'e'] *> pure (.boolean true)) <|>
  (literal ['f', 'a', 'l', 's', 'e'] *> pure (.boolean false)) <|>
  (Value.string <$> string) <|>
  (Value.number <$> number)

/-- A **value** whose arrays and objects are nested at most `depth` deep. -/
def value : Nat → Reader Value
  | 0 => scalar
  | depth + 1 =>
    scalar <|>
    (Value.array <$> bracketed '[' ']' (value depth)) <|>
    (Value.object <$> bracketed '\x7b' '\x7d' (member (value depth)))

/-- The value that a **JSON text** stands for. A text does not nest deeper than it is long. -/
def read (text : String) : Option Value :=
  let document := do
    let v ← token (value text.length)
    token atEnd
    return v
  match document text.toList with
  | .done v _ => some v
  | _ => none

example : (read "[null, true]").isSome = true := by decide +kernel

example : (read "[null, ]").isNone = true := by decide +kernel

end ScriptTags.Json
