import ScriptTags.Path
import ScriptTags.Script.Line
import ScriptTags.Suppression
import ScriptTags.Tag

/-!
# Scanning the lines of a script

A **scanner** reads the lines of a script one by one and appends a tag to a sink for every
definition that no suppression rule vetoes. It carries a buffer for the name it is reading, which
outlives the scan: the same scanner goes on to the next script. Each line extends the buffer by the
name it defines and leaves it empty.
-/

namespace ScriptTags

/-- What a scan counts. -/
structure ScanStats where
  lines : Nat := 0
  tags : Nat := 0
  suppressed : Nat := 0
  deriving DecidableEq, Repr

/-- A **scanner**: its rules, and the name it is reading. -/
structure Scanner where
  rules : Rules
  candidate : List Char := []
  deriving DecidableEq, Repr

/-- The state **between two lines** of a scan. -/
structure Scan where
  candidate : List Char
  stats : ScanStats
  sink : Array Tag
  deriving DecidableEq, Repr

namespace Scan

/-- Counts the tag `name` that `line` defines and adds it to the sink. -/
def emit (s : Scan) (name : String) (line : Bytes) : Scan :=
  { candidate := []
    stats := { s.stats with tags := s.stats.tags + 1 }
    sink := s.sink.push
      { name, line := s.stats.lines, pattern := Utf8.decodeLossy line } }

/-- Counts a definition that a rule vetoes. -/
def suppress (s : Scan) : Scan :=
  { s with candidate := [], stats := { s.stats with suppressed := s.stats.suppressed + 1 } }

/-- Reads one line of the script whose base name is `base`. -/
def step (rules : Rules) (base : String) (s : Scan) (line : Bytes) : Scan :=
  let s := { s with stats := { s.stats with lines := s.stats.lines + 1 } }
  match Line.classify line with
  | .definition found =>
    let name := String.ofList (s.candidate ++ Bytes.toChars found.name)
    if rules.vetoes base name then s.suppress else s.emit name line
  | _ => { s with candidate := [] }

/-- The name buffer is empty after every line. -/
@[simp]
theorem candidate_step (rules : Rules) (base : String) (s : Scan) (line : Bytes) :
    (step rules base s line).candidate = [] := by
  simp only [step]
  split
  · split <;> rfl
  · rfl

end Scan

namespace Scanner

/-- **Scans** the lines of `file` into a sink. -/
def scan (scanner : Scanner) (file : Path) (lines : List Bytes) (sink : Array Tag) :
    Scanner × ScanStats × Array Tag :=
  let done := lines.foldl (Scan.step scanner.rules file.baseName) ⟨scanner.candidate, {}, sink⟩
  ({ scanner with candidate := done.candidate }, done.stats, done.sink)

end Scanner

/-- The tags that a fresh scanner finds in the lines of `file`. -/
def findTags (rules : Rules) (file : Path) (lines : List Bytes) : List Tag :=
  (({ rules := rules : Scanner }).scan file lines #[]).2.2.toList

end ScriptTags
