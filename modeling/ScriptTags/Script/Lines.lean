import ScriptTags.Text.Bytes

/-!
# Physical lines

A line feed **ends** a line, and one carriage return directly before it, or at the end of the last
line, is dropped with it. A final line need not be ended, and empty content has no lines at all.
-/

namespace ScriptTags.Script

/-- The **physical lines** of a script, without their ends. -/
def lines (content : Bytes) : List Bytes :=
  if content = [] then []
  else ((content.dropFinal Byte.lf).splitOn Byte.lf).map (Bytes.dropFinal Byte.cr)

/-- The bytes before the first line feed. -/
def firstLine (content : Bytes) : Bytes :=
  content.takeWhile (· != Byte.lf)

/-- The bytes up to and including the first line feed. -/
def firstLineEnded (content : Bytes) : Bytes :=
  firstLine content ++ (content.drop (firstLine content).length).take 1

end ScriptTags.Script
