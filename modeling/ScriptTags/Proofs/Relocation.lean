import ScriptTags.Proofs.Extraction
import ScriptTags.Proofs.Joining
import ScriptTags.Proofs.Routing

/-!
# Where a script lies

A script is routed by the extension of its path, refused with the text of that extension, and
scanned under the rules for its base name. All three are views of the **file name**, the last
component of the path, and no view of the directories before it is ever taken; only the path that a
result shows is the whole path (`extract_eq_of_fileName?_eq`).

A path that has a file name has the same one behind every directory, whether separators and `.`
follow it or not, and an absolute path stays as it is (`Path.fileName?_join_of_ne_none`). So a
script is worth the same wherever it lies (`extract_join`).
-/

namespace ScriptTags

variable {path other : Path}

theorem Path.baseName_congr (h : path.fileName? = other.fileName?) :
    path.baseName = other.baseName := by
  rw [baseName, baseName, h]

/-- The first line does not know the path, and the extension knows the file name alone, also where
it is named in an error. -/
theorem Config.route_eq_of_fileName?_eq (config : Config) (h : path.fileName? = other.fileName?)
    (content : Bytes) : config.route path content = config.route other content := by
  simp only [route, languageOf?_congr config h, Language.detect, Language.ofPath,
    Path.extensionText?_congr h]

/-- **Extraction sees the file name.** Under paths of one file name a content fails alike or has the
same tags, and a result differs in the path that it shows. -/
theorem extract_eq_of_fileName?_eq (config : Config) (h : path.fileName? = other.fileName?)
    (content : Bytes) :
    extract config path content =
      (extract config other content).map fun file => { file with file := path.display } := by
  have htags : findTags config.rules path (Script.lines content) =
      findTags config.rules other (Script.lines content) := by
    rw [findTags_eq_tags, findTags_eq_tags, Path.baseName_congr h]
  rw [extract, extract, config.route_eq_of_fileName?_eq h, htags]
  cases config.route other content with
  | error e => rfl
  | ok language => cases language; rfl

/-- **Where a script lies does not change its tags.** A path that has a file name and the same path
seen from a directory give the same error, or the same language and the same tags. -/
theorem extract_join (hpath : path.fileName? ≠ none) (dir : Path) (config : Config)
    (content : Bytes) :
    (∃ e, extract config (dir.join path) content = .error e ∧
      extract config path content = .error e) ∨
    ∃ language tags,
      extract config (dir.join path) content = .ok ⟨(dir.join path).display, language, tags⟩ ∧
      extract config path content = .ok ⟨path.display, language, tags⟩ := by
  have hname := Path.fileName?_join_of_ne_none hpath dir
  have hjoin := extract_eq_of_fileName?_eq config hname content
  cases hself : extract config path content with
  | error e =>
    rw [hself] at hjoin
    exact .inl ⟨e, hjoin, rfl⟩
  | ok file =>
    rw [hself] at hjoin
    obtain ⟨language, -, rfl⟩ := extract_eq_ok_iff.mp hself
    exact .inr ⟨language.name, _, hjoin, rfl⟩

/-- A script that names its shell, defines `main`, and defines one function more. -/
def mainAndOther : Bytes :=
  Bytes.ofAscii "#!/bin/sh\nmain()\nf()\n"

/-- A `configure` script that is named with separators and a `.` behind it, in a directory that is
not text: `main` is suppressed, as it is without the directory. -/
theorem extract_join_configure :
    (Path.ofString "./configure//./").fileName? ≠ none ∧
    extract {} (Path.ofString "./configure//./") mainAndOther =
      .ok ⟨"./configure//./", "sh", [⟨"f", .function, 3, "f()"⟩]⟩ ∧
    extract {} (Path.join ⟨[0xFF, Byte.slash]⟩ (Path.ofString "./configure//./")) mainAndOther =
      .ok ⟨"\uFFFD/./configure//./", "sh", [⟨"f", .function, 3, "f()"⟩]⟩ := by
  have hpath : (Path.ofString "./configure//./").fileName? ≠ none := by decide
  have hscript : extract {} (Path.ofString "./configure//./") mainAndOther =
      .ok ⟨"./configure//./", "sh", [⟨"f", .function, 3, "f()"⟩]⟩ := by rfl
  refine ⟨hpath, hscript, ?_⟩
  rcases extract_join hpath ⟨[0xFF, Byte.slash]⟩ {} mainAndOther with
    ⟨e, -, hfail⟩ | ⟨language, tags, hjoin, hok⟩
  · rw [hscript] at hfail
    contradiction
  · rw [hscript] at hok
    obtain ⟨-, rfl, rfl⟩ := TagFile.mk.inj (Except.ok.inj hok)
    exact hjoin

end ScriptTags
