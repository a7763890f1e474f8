import ScriptTags.Disk.Collect
import ScriptTags.Proofs.Decoding
import ScriptTags.Proofs.Runs

/-!
# One notion of a script

A walk asks whether a file is a script (`Config.isScript`) before anything is scanned, and a scan
asks again (`Config.route`). The two look at the first line differently: the walk keeps the line
feed that ends it, the scan cuts it off. The line feed is a blank, so it ends the last word of the
line and starts no other; and since it is an ASCII byte, it leaves the decoding of the line as it
is, cut-off sequences included (`Language.ofShebang?_append_blank`).

So the two answers agree (`Config.isScript_iff_route`), and where the scan says no, it is for
one reason only: no language is known for the extension.
-/

namespace ScriptTags

namespace Language

/-! ### Blanks after a first line -/

/-- The **bytes** that end a word: space, tab, line feed, form feed, and carriage return. -/
def isBlank (b : Byte) : Bool :=
  b == 0x20 || b == 0x09 || b == 0x0A || b == 0x0C || b == 0x0D

theorem isBlank_iff {b : Byte} :
    isBlank b = true ↔ b = 0x20 ∨ b = 0x09 ∨ b = 0x0A ∨ b = 0x0C ∨ b = 0x0D := by
  simp [isBlank, or_assoc]

theorem lt_of_isBlank {b : Byte} (h : isBlank b = true) : b < 0x80 := by
  rcases isBlank_iff.mp h with rfl | rfl | rfl | rfl | rfl <;> decide

theorem endsWord_of_isBlank {b : Byte} (h : isBlank b = true) :
    endsWord (Char.ofUInt8 b) = true := by
  rcases isBlank_iff.mp h with rfl | rfl | rfl | rfl | rfl <;> decide

/-- A character that ends a word sets the words before it off from those after it. -/
theorem words_append_cons {c : Char} (hc : endsWord c = true) (text more : List Char) :
    words (text ++ c :: more) = words text ++ words more := by
  rw [words, List.splitOnP_append_cons _ _ hc, List.filter_append]
  rfl

/-- The words of a first line after its marker. -/
theorem words_decodeLossy_append_blank {b : Byte} (hb : isBlank b = true) (bytes : Bytes) :
    words (Utf8.decodeLossy (bytes ++ [b])).toList = words (Utf8.decodeLossy bytes).toList := by
  have hnil : words (Utf8.decodeLossy []).toList = [] := by
    simp [words, Utf8.decodeLossy, Utf8.scalars, Utf8.scalarsFrom]
  rw [Utf8.toList_decodeLossy_append (lt_of_isBlank hb), words_append_cons (endsWord_of_isBlank hb),
    hnil, List.append_nil]

/-- The marker `#!` does not end in a blank, so a blank at the end of a line cannot complete it. -/
theorem shebang_prefix_append_iff {b : Byte} (hb : isBlank b = true) {line : Bytes} :
    shebang <+: line ++ [b] ↔ shebang <+: line := by
  rw [List.prefix_concat_iff]
  refine or_iff_right fun h => ?_
  have hlast : shebang.getLast? = some b := by rw [h, List.getLast?_concat]
  obtain rfl : b = 0x21 := by simpa [shebang, eq_comm] using hlast
  exact absurd hb (by decide)

/-- **A blank after a first line changes nothing.** -/
theorem ofShebang?_append_blank {b : Byte} (hb : isBlank b = true) (line : Bytes) :
    ofShebang? (line ++ [b]) = ofShebang? line := by
  simp only [ofShebang?, List.isPrefixOf_iff_prefix, shebang_prefix_append_iff hb]
  split
  · next hpre =>
    obtain ⟨rest, rfl⟩ := hpre
    rw [List.append_assoc, List.drop_left, List.drop_left, words_decodeLossy_append_blank hb]
  · rfl

end Language

/-! ### The first line with and without its end -/

namespace Script

/-- The first line ends where the content does, or in a line feed. -/
theorem firstLineEnded_eq (content : Bytes) :
    firstLineEnded content = firstLine content ∨
      firstLineEnded content = firstLine content ++ [Byte.lf] := by
  obtain ⟨line, rest, hline, hrest, rfl⟩ := Bytes.exists_run_append (· != Byte.lf) content
  have hfirst : firstLine (line ++ rest) = line := Bytes.takeWhile_run_append hline hrest
  rw [firstLineEnded, hfirst, List.drop_left]
  cases rest with
  | nil => exact .inl (List.append_nil line)
  | cons b rest =>
    obtain rfl : b = Byte.lf := by simpa using Bytes.stops_cons.mp hrest
    exact .inr rfl

end Script

/-- The walk and the scan read the same interpreter off a first line. -/
theorem Language.ofShebang?_firstLineEnded (content : Bytes) :
    ofShebang? (Script.firstLineEnded content) = ofShebang? (Script.firstLine content) := by
  rcases Script.firstLineEnded_eq content with h | h
  · rw [h]
  · rw [h, ofShebang?_append_blank (by decide)]

/-! ### Routing by the file name -/

theorem Path.extensionText?_congr {path other : Path} (h : path.fileName? = other.fileName?) :
    path.extensionText? = other.extensionText? := by
  rw [extensionText?, extensionText?, extension?, extension?, h]

/-- Extensions are looked up by the file name alone. -/
theorem Config.languageOf?_congr {path other : Path} (config : Config)
    (h : path.fileName? = other.fileName?) :
    config.languageOf? path = config.languageOf? other := by
  rw [languageOf?, languageOf?, Path.extensionText?_congr h]

/-! ### The two answers -/

namespace Config

variable {config : Config} {path : Path} {content : Bytes}

/-- What is built in is part of every configuration: a path that the configuration cannot route by
its extension is refused for that extension. -/
theorem ofPath_of_languageOf?_eq_none (h : config.languageOf? path = none) :
    ∃ extension, Language.ofPath path = .error (.unsupportedLanguage extension) := by
  cases hext : path.extensionText? with
  | none => exact ⟨"none", by rw [Language.ofPath, hext]⟩
  | some extension =>
    rw [languageOf?, hext, Option.bind_some] at h
    split at h
    · contradiction
    · exact ⟨extension, by rw [Language.ofPath, hext]; simp only [Language.ofExtension, h]⟩

theorem route_of_languageOf?_eq_some {language : Language}
    (h : config.languageOf? path = some language) : config.route path content = .ok language := by
  rw [route, h]

/-- A path that cannot be routed by its extension is routed by the first line, and is refused for
its extension if that line names no interpreter. -/
theorem route_of_languageOf?_eq_none (h : config.languageOf? path = none) (content : Bytes) :
    ∃ extension, config.route path content =
      match Language.ofShebang? (Script.firstLine content) with
      | some language => .ok language
      | none => .error (.unsupportedLanguage extension) := by
  obtain ⟨extension, hpath⟩ := ofPath_of_languageOf?_eq_none h
  refine ⟨extension, ?_⟩
  cases hline : Language.ofShebang? (Script.firstLine content) <;>
    simp only [route, h, Language.detect, hpath, hline]

/-- A file is refused for its extension or routed, by whether a walk takes it for a script. -/
theorem route_eq (config : Config) (path : Path) (content : Bytes) :
    (config.isScript path content = true ∧
      ∃ language, config.route path content = .ok language) ∨
    (config.isScript path content = false ∧
      ∃ extension, config.route path content = .error (.unsupportedLanguage extension)) := by
  cases hlang : config.languageOf? path with
  | some language =>
    exact .inl ⟨by rw [isScript, hlang]; rfl, language, route_of_languageOf?_eq_some hlang⟩
  | none =>
    obtain ⟨extension, hroute⟩ := route_of_languageOf?_eq_none hlang content
    rw [hroute, isScript, hlang, Language.ofShebang?_firstLineEnded]
    cases Language.ofShebang? (Script.firstLine content) with
    | some language => exact .inl ⟨rfl, language, rfl⟩
    | none => exact .inr ⟨rfl, extension, rfl⟩

/-- **A walk and a scan agree on what a script is.** -/
theorem isScript_iff_route :
    config.isScript path content = true ↔ ∃ language, config.route path content = .ok language := by
  rcases route_eq config path content with ⟨hscript, hroute⟩ | ⟨hscript, extension, hroute⟩
  · exact iff_of_true hscript hroute
  · rw [hscript, hroute]
    exact iff_of_false (by simp) (by simp)

end Config

end ScriptTags
