import ScriptTags.Text.Unprintable

/-!
# Quoted text

A text inside a message is **quoted** so that it can be told apart from the words around it: between
quotation marks, with the usual short escapes, and with every character that cannot be told by sight
written as its code point in braces.
-/

namespace ScriptTags.Text

/-- A code point in braces. -/
def byNumber (c : Char) : List Char :=
  '\\' :: 'u' :: '\x7b' :: Nat.toDigits 16 c.toNat ++ ['\x7d']

/-- The form of a character inside quotation marks. -/
def quoteChar (c : Char) : List Char :=
  if c = '\x00' then ['\\', '0']
  else if c = '\t' then ['\\', 't']
  else if c = '\r' then ['\\', 'r']
  else if c = '\n' then ['\\', 'n']
  else if c = '\\' then ['\\', '\\']
  else if c = '"' then ['\\', '"']
  else if isUnprintable c then byNumber c
  else [c]

/-- A **quoted** text. -/
def quote (text : String) : String :=
  String.ofList ('"' :: text.toList.flatMap quoteChar ++ ['"'])

end ScriptTags.Text
