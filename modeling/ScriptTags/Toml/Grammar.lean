import ScriptTags.Toml.Reader
import ScriptTags.Toml.Value

/-!
# The grammar of TOML

The lexical rules and the statements of **TOML 1.0**. A text is well-formed when it is a sequence of
statements that do not contradict each other (`Toml.document`), and `Toml.parse` gives its entries
or its first fault.

Limits: integers have 64 bits, a decimal that overflows upwards is refused, the exponent of a
decimal is read only until it passes 65535, and neither a key nor a nest of arrays and inline
tables reaches a depth of 80.
-/

namespace ScriptTags.Toml

open Reader

/-- The depth that keys and nests of values stay below. -/
def depthLimit : Nat := 80

/-! ### White space, comments, line ends -/

/-- A blank. -/
def isBlank (c : Char) : Bool :=
  c == ' ' || c == '\t'

/-- A character that may stand in a comment: no control character but the tab. -/
def isCommentChar (c : Char) : Bool :=
  c == '\t' || (' ' ≤ c && c ≤ '~') || '\x80' ≤ c

/-- Any number of blanks. -/
def blanks : Reader Unit := do
  let _ ← run isBlank

/-- A line feed, or a carriage return and a line feed. -/
def newline : Reader Unit :=
  literal ['\n'] <|> literal ['\r', '\n']

/-- A comment. -/
def comment : Reader Unit := do
  let _ ← char '#'
  let _ ← run isCommentChar

/-- The end of a line or of the text. -/
def lineEnd : Reader Unit :=
  newline <|> atEnd

/-- What may follow a statement on its line. -/
def trailing : Reader Unit := do
  blanks
  let _ ← opt comment
  lineEnd

/-- White space inside an array, which may run over lines and hold comments. -/
def gap : Reader Unit := do
  blanks
  let _ ← many (do let _ ← opt comment; newline; blanks)

/-! ### Strings -/

/-- A hexadecimal digit. -/
def isHexDigit (c : Char) : Bool :=
  c.isDigit || ('a' ≤ c && c ≤ 'f') || ('A' ≤ c && c ≤ 'F')

/-- The value of a digit in any base up to sixteen. -/
def digitValue (c : Char) : Nat :=
  if c.isDigit then c.toNat - '0'.toNat
  else if 'a' ≤ c then c.toNat - 'a'.toNat + 10
  else c.toNat - 'A'.toNat + 10

/-- The number that digits write in a base. -/
def ofDigits (base : Nat) (digits : List Char) : Nat :=
  digits.foldl (fun n c => n * base + digitValue c) 0

/-- The number that digits write in a base, read only **until it passes** a limit: digits that
follow are left out. A number within the limit is read to its end. -/
def ofDigitsUpTo (limit base : Nat) (digits : List Char) : Nat :=
  digits.foldl (fun n c => if limit < n then n else n * base + digitValue c) 0

/-- The character whose code point `n` hexadecimal digits write. -/
def codePoint (n : Nat) : Reader Char := do
  let code := ofDigits 16 (← exactly isHexDigit n)
  guard (code < 0xD800 || (0xE000 ≤ code && code < 0x110000))
  return Char.ofNat code

/-- An escape sequence. -/
def escape : Reader Char := do
  let _ ← char '\\'
  let c ← satisfy fun _ => true
  if c == 'b' then return '\x08'
  else if c == 'f' then return '\x0C'
  else if c == 'n' then return '\n'
  else if c == 'r' then return '\r'
  else if c == 't' then return '\t'
  else if c == '"' || c == '\\' then return c
  else if c == 'u' then codePoint 4
  else if c == 'U' then codePoint 8
  else failure

/-- A character that stands for itself in a basic string. -/
def isBasicChar (c : Char) : Bool :=
  isCommentChar c && c != '"' && c != '\\'

/-- A character that may stand in a literal string. -/
def isLiteralChar (c : Char) : Bool :=
  isCommentChar c && c != '\''

/-- A basic string on one line. -/
def basicString : Reader (List Char) := do
  let _ ← char '"'
  let cs ← many (satisfy isBasicChar <|> escape)
  let _ ← char '"'
  return cs

/-- A literal string on one line. -/
def literalString : Reader (List Char) := do
  let _ ← char '\''
  let cs ← run isLiteralChar
  let _ ← char '\''
  return cs

/-- A reverse solidus at the end of a line, with all white space up to the next character. -/
def joinedLines : Reader (List Char) := do
  let _ ← char '\\'
  blanks
  newline
  let _ ← many ((do let _ ← run1 isBlank) <|> newline)
  return []

/-- One or two quotation marks in a string over several lines, where three would end it. -/
def innerQuote (quote : Char) : Reader (List Char) := fun input =>
  if [quote, quote, quote].isPrefixOf input then .mismatch
  else (List.singleton <$> char quote) input

/-- The end of a string over several lines: three quotation marks, and up to two before them that
belong to the string. -/
def closingQuotes (quote : Char) : Reader (List Char) := fun input =>
  let marks := (input.takeWhile (· == quote)).take 5
  if marks.length < 3 then .mismatch else .done (marks.drop 3) (input.drop marks.length)

/-- A string over several lines, made of `piece`s. A line end directly after the opening marks is
left out. -/
def longString (quote : Char) (piece : Reader (List Char)) : Reader (List Char) := do
  literal [quote, quote, quote]
  let _ ← opt newline
  let pieces ← many (piece <|> (newline *> pure ['\n']) <|> innerQuote quote)
  return pieces.flatten ++ (← closingQuotes quote)

/-- A basic string over several lines. -/
def longBasicString : Reader (List Char) :=
  longString '"'
    ((List.singleton <$> satisfy isBasicChar) <|> joinedLines <|> (List.singleton <$> escape))

/-- A literal string over several lines. -/
def longLiteralString : Reader (List Char) :=
  longString '\'' (List.singleton <$> satisfy isLiteralChar)

/-- A **string** of any of the four forms. -/
def string : Reader Value := do
  let cs ← longBasicString <|> longLiteralString <|> basicString <|> literalString
  return .string (String.ofList cs)

/-! ### Numbers -/

/-- Digits in groups: an underscore may stand between two digits. The underscores are dropped. -/
def digitGroups (isDigit : Char → Bool) : Reader (List Char) := do
  let first ← satisfy isDigit
  return first :: (← many (satisfy isDigit <|> (char '_' *> satisfy isDigit)))

/-- A sign; `true` for minus. -/
def sign : Reader Bool := do
  return (← opt (satisfy fun c => c == '+' || c == '-')) == some '-'

/-- Decimal digits without a leading zero. -/
def decimalDigits : Reader (List Char) :=
  (List.singleton <$> char '0') <|> digitGroups Char.isDigit

/-- The greatest absolute value of an integer of 64 bits. -/
def integerLimit : Nat := 9223372036854775808

/-- The integer that a sign and digits write, refused unless it fits into 64 bits. -/
def integer (negative : Bool) (base : Nat) (digits : List Char) : Reader Value := do
  let n := ofDigitsUpTo integerLimit base digits
  guard (if negative then n ≤ integerLimit else n < integerLimit)
  return .integer (if negative then -n else n)

/-- An integer in a base that its first two characters tell. -/
def radixInteger (mark : Char) (base : Nat) (isDigit : Char → Bool) : Reader Value := do
  literal ['0', mark]
  integer false base (← digitGroups isDigit)

/-- A decimal integer. -/
def decimalInteger : Reader Value := do
  let negative ← sign
  integer negative 10 (← decimalDigits)

/-- The fraction of a float. -/
def fraction : Reader (List Char) :=
  char '.' *> digitGroups Char.isDigit

/-- The number that ends the reading of an exponent when it is passed. -/
def exponentLimit : Nat := 65535

/-- The exponent of a float. -/
def exponent : Reader Int := do
  let _ ← satisfy fun c => c == 'e' || c == 'E'
  let negative ← sign
  let n : Int := ofDigitsUpTo exponentLimit 10 (← digitGroups Char.isDigit)
  return if negative then -n else n

/-- A float with a fraction, an exponent, or both. -/
def decimalFloat : Reader Value := do
  let negative ← sign
  let whole ← decimalDigits
  let part ← opt fraction
  let power ← opt exponent
  guard (part.isSome || power.isSome)
  let places := part.getD []
  let digits := (whole ++ places).map digitValue
  let x := Binary64.ofDigits negative digits (power.getD 0 - places.length)
  guard (x != .infinite false)
  return .float x

/-- An infinity or a not-a-number. -/
def specialFloat : Reader Value := do
  let negative ← sign
  (do literal ['i', 'n', 'f']; return .float (.infinite negative)) <|>
    (do literal ['n', 'a', 'n']; return .float .nan)

/-! ### Dates and times -/

/-- A number of so many digits within bounds. -/
def field (digits low high : Nat) : Reader Nat := do
  let n := ofDigits 10 (← exactly Char.isDigit digits)
  guard (low ≤ n && n ≤ high)
  return n

/-- The last day of a month. -/
def daysIn (year month : Nat) : Nat :=
  if month = 2 then
    if year % 4 = 0 ∧ (year % 100 ≠ 0 ∨ year % 400 = 0) then 29 else 28
  else if month = 4 ∨ month = 6 ∨ month = 9 ∨ month = 11 then 30
  else 31

/-- A date that exists. -/
def date : Reader Unit := do
  let year ← field 4 0 9999
  let _ ← char '-'
  let month ← field 2 1 12
  let _ ← char '-'
  let _ ← field 2 1 (daysIn year month)

/-- A time of day. A minute may have a leap second. -/
def time : Reader Unit := do
  let _ ← field 2 0 23
  let _ ← char ':'
  let _ ← field 2 0 59
  let _ ← char ':'
  let _ ← field 2 0 60
  let _ ← opt (char '.' *> run1 Char.isDigit)

/-- The offset from universal time. -/
def offset : Reader Unit :=
  (do let _ ← satisfy fun c => c == 'Z' || c == 'z') <|> do
    let _ ← satisfy fun c => c == '+' || c == '-'
    let _ ← field 2 0 23
    let _ ← char ':'
    let _ ← field 2 0 59

/-- A **date-time**, a date, or a time. -/
def datetime : Reader Value := do
  (do
    date
    let _ ← opt (do
      let _ ← satisfy fun c => c == 'T' || c == 't' || c == ' '
      time
      let _ ← opt offset)) <|> time
  return .datetime

/-! ### Keys and values -/

/-- One name of a key. -/
def keyName : Reader String := do
  return String.ofList (← basicString <|> literalString <|> run1 isBareChar)

/-- A **key**, with blanks around each of its names. -/
def key : Reader Key := do
  let names ← sepBy1 (do blanks; let name ← keyName; blanks; return name) (char '.')
  guard (names.length < depthLimit)
  match names.getLast? with
  | some name => return ⟨names.dropLast, name⟩
  | none => failure

/-- A value that holds no other values. -/
def scalar : Reader Value :=
  string <|>
  (literal "true".toList *> pure (.boolean true)) <|>
  (literal "false".toList *> pure (.boolean false)) <|>
  datetime <|> decimalFloat <|> specialFloat <|>
  radixInteger 'x' 16 isHexDigit <|>
  radixInteger 'o' 8 (fun c => '0' ≤ c && c ≤ '7') <|>
  radixInteger 'b' 2 (fun c => c == '0' || c == '1') <|>
  decimalInteger

/-- An array of values that `item` reads. A comma may follow the last of them. -/
def array (item : Reader Value) : Reader Value := do
  let _ ← char '['
  let items ← (do
    let items ← sepBy1 (do gap; let v ← item; gap; return v) (char ',')
    let _ ← opt (char ',')
    return items) <|> pure []
  gap
  let _ ← char ']'
  return .array items

/-- A key, which an equals sign and a value that `item` reads have to follow. -/
def keyValue (item : Reader Value) : Reader (Key × Value) := do
  let k ← key
  return (k, ← need (do let _ ← char '='; blanks; item))

/-- A table in braces of values that `item` reads. As an item of an array, entries that contradict
each other do not match. -/
def inline (inArray : Bool) (item : Reader Value) : Reader Value := do
  let _ ← char '\x7b'
  let entries ← sepBy (do let e ← keyValue item; blanks; return e) (char ',')
  blanks
  let t ← match inlineTable entries with
    | .ok t => pure t
    | .error fault => if inArray then failure else ofExcept (.error fault)
  let _ ← char '\x7d'
  return t.toValue

/-- A **value** whose arrays and inline tables are nested at most `depth` deep. -/
def value (inArray : Bool) : Nat → Reader Value
  | 0 => scalar
  | depth + 1 => scalar <|> array (value true depth) <|> inline inArray (value false depth)

/-! ### Statements -/

/-- The header of an array element. -/
def elementHeader : Reader Statement := do
  literal ['[', '[']
  let k ← key
  literal [']', ']']
  return .element k

/-- The header of a table. -/
def tableHeader : Reader Statement := do
  let _ ← char '['
  let k ← key
  let _ ← char ']'
  return .table k

/-- A key and its value. -/
def entry : Reader Statement := do
  let (k, v) ← keyValue (value false (depthLimit - 1))
  return .entry k v

/-- A line: a statement, a comment, or nothing. Only the last line may lack its end. -/
def line : Reader (Option Statement) := do
  blanks
  let statement ← opt (elementHeader <|> tableHeader <|> entry)
  trailing
  return statement

/-- Carries out the statements of the lines that are left, of which there are at most as many as
there are characters `along`. -/
def draftAlong : List Char → Draft → Reader Draft
  | [], d => pure d
  | _ :: along, d => do
    if ← isAtEnd then return d
    match ← need line with
    | none => draftAlong along d
    | some statement => draftAlong along (← ofExcept (d.run statement))

/-- The document that the statements of a text make. -/
def document : Reader Draft := fun input =>
  draftAlong input {} input

/-- The entries of a **well-formed text**, or its first fault. A byte order mark may stand first. -/
def parse (text : String) : Except Fault Entries :=
  let text := text.toList
  match document (if text.head? = some '\uFEFF' then text.tail else text) with
  | .done d _ => .ok d.root.entries
  | .mismatch => .error .malformed
  | .fault fault => .error fault

end ScriptTags.Toml
