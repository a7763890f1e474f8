import ScriptTags.Tag
import ScriptTags.Text.Utf8

/-!
# Tag files

The classic **tag file** starts with four pseudo-tags and then has one line for every tag:

```text
name⇥file⇥/^pattern$/;"⇥kind
```

The pattern is the text of the line inside a search command, so a solidus and a reverse solidus in
it are **escaped** by a reverse solidus; nothing else is. A sorted file is ordered by the bytes of
the name, then of the file, then by the line number, and the sort is stable.
-/

namespace ScriptTags.Ctags

/-- The name under which tag files are signed. -/
def programName : String :=
  "shtags"

/-- The version under which tag files are signed. -/
def programVersion : String :=
  "0.3.1"

/-- A tag with the file it belongs to. -/
structure Entry where
  file : String
  tag : Tag
  deriving DecidableEq, Repr

/-- The entries of a list of files, in scan order. -/
def entries (files : List TagFile) : List Entry :=
  files.flatMap fun f => f.tags.map fun tag => ⟨f.file, tag⟩

/-- The **order** of a sorted tag file. -/
protected def Entry.compare : Entry → Entry → Ordering :=
  compareLex (compareOn fun e => Utf8.encode e.tag.name)
    (compareLex (compareOn fun e => Utf8.encode e.file) (compareOn fun e => e.tag.line))

/-- The entries in the order of a sorted tag file. -/
def sortEntries (es : List Entry) : List Entry :=
  es.mergeSort fun a b => (a.compare b).isLE

/-- Escapes one character of a pattern. -/
def escapeChar (c : Char) : List Char :=
  if c = '\\' ∨ c = '/' then ['\\', c] else [c]

/-- **Escapes** a pattern. -/
def escape (pattern : List Char) : List Char :=
  pattern.flatMap escapeChar

/-- The escaped form of a pattern. -/
def escapePattern (pattern : String) : String :=
  String.ofList (escape pattern.toList)

/-- The search command that finds a pattern. -/
def search (pattern : String) : List Char :=
  "/^".toList ++ escape pattern.toList ++ "$/".toList

/-- The line of an entry. -/
def Entry.line (e : Entry) : List Char :=
  e.tag.name.toList ++ '\t' :: e.file.toList ++ '\t' :: search e.tag.pattern ++
    ";\"\t".toList ++ [e.tag.kind.letter]

/-- The pseudo-tags at the head of a tag file. -/
def header (sorted : Bool) : List (List Char) :=
  ["!_TAG_FILE_FORMAT\t2\t/extended format; --format=1 will not append ;\" to lines/".toList,
    "!_TAG_FILE_SORTED\t".toList ++ (if sorted then '1' else '0') ::
      "\t/0=unsorted, 1=sorted, 2=foldcase/".toList,
    "!_TAG_PROGRAM_NAME\t".toList ++ programName.toList ++ "\t//".toList,
    "!_TAG_PROGRAM_VERSION\t".toList ++ programVersion.toList ++ "\t//".toList]

/-- The lines of a tag file. -/
def lines (files : List TagFile) (sorted : Bool) : List (List Char) :=
  let es := entries files
  header sorted ++ (if sorted then sortEntries es else es).map Entry.line

/-- The text of a **tag file**. -/
def text (files : List TagFile) (sorted : Bool) : String :=
  String.ofList ((lines files sorted).flatMap fun l => l ++ ['\n'])

end ScriptTags.Ctags
