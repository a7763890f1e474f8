import ScriptTags.Text.Bytes

/-!
# Lines that define a function

Shell syntax is not parsed. A line defines a function when it has one of two **shapes**:

* `function name …`, the keyword and at least one blank before the name;
* `name ()`, the name and an empty pair of parentheses after it.

Blanks may stand before either shape, between the name and the parentheses, and inside them. Both
shapes at once still make one definition. A line that starts with `#` is a comment, and `function`
glued to anything but a blank gives the line up instead of being read as part of a name.
-/

namespace ScriptTags

/-- Why a line is given up before a name has been read. -/
inductive Abandon where
  /-- The first byte is `#`. -/
  | comment
  /-- `function` is not followed by a blank. -/
  | keywordPrefix
  /-- No name byte stands where the name would start. -/
  | noIdentifier
  deriving DecidableEq, Repr

/-- A **definition**: the name and which of the two shapes confirmed it. -/
structure Definition where
  name : Bytes
  keyword : Bool
  parens : Bool
  deriving DecidableEq, Repr

/-- The **outcome** of classifying a line. -/
inductive LineOutcome where
  | definition (found : Definition)
  /-- A name was read, and neither shape confirmed it. -/
  | noMatch
  | abandoned (reason : Abandon)
  deriving DecidableEq, Repr

namespace Line

/-- The bytes of `function`. -/
def keyword : Bytes :=
  [0x66, 0x75, 0x6E, 0x63, 0x74, 0x69, 0x6F, 0x6E]

/-- Whether `rest` starts with parentheses that hold blanks only. -/
def opensEmptyParens (rest : Bytes) : Bool :=
  match rest with
  | [] => false
  | b :: inner =>
    b == Byte.openParen && (inner.dropWhile Byte.isSpace).head? == some Byte.closeParen

/-- Classifies the part of a line from the name on. -/
def classifyName (keyword : Bool) (body : Bytes) : LineOutcome :=
  let name := body.takeWhile Byte.isIdent
  let parens := opensEmptyParens ((body.dropWhile Byte.isIdent).dropWhile Byte.isSpace)
  if name = [] then .abandoned .noIdentifier
  else if keyword || parens then .definition ⟨name, keyword, parens⟩
  else .noMatch

/-- Classifies the part of a line after its leading blanks. -/
def classifyBody (body : Bytes) : LineOutcome :=
  if keyword.isPrefixOf body then
    let rest := body.drop keyword.length
    if rest.head?.any Byte.isSpace then classifyName true (rest.dropWhile Byte.isSpace)
    else .abandoned .keywordPrefix
  else classifyName false body

/-- **Classifies** a line. -/
def classify (line : Bytes) : LineOutcome :=
  if line.head? = some Byte.hash then .abandoned .comment
  else classifyBody (line.dropWhile Byte.isSpace)

end Line

end ScriptTags
