import ScriptTags.Proofs.Extraction
import ScriptTags.Proofs.Routing

/-!
# What a configuration can change

A configuration has two lists, and each does one thing. Its **extensions** route paths that nothing
else routes: a path that is routed without them is routed with them, to the same language. Its
**rules** take tags away: what a scan finds under more rules is what it finds under fewer, less what
the added rules veto (`Line.tags_of_subset`). So a **wider** configuration scans more files and
finds fewer tags in each, and only the members of the two lists matter, not their order.
-/

namespace ScriptTags

/-! ### More rules -/

namespace Line

variable {rules more : Rules}

/-- More rules veto more names, and change nothing else about a line. -/
theorem tag?_of_subset (h : rules ⊆ more) (base : String) (number : Nat) (line : Bytes) :
    tag? more base number line =
      (tag? rules base number line).filter fun tag => (⟨base, tag.name⟩ : Rule) ∉ more := by
  rw [tag?, tag?]
  cases classify line with
  | definition found =>
    by_cases hmore : (⟨base, found.text⟩ : Rule) ∈ more
    · by_cases hrules : (⟨base, found.text⟩ : Rule) ∈ rules <;>
        simp [hmore, hrules, Option.filter_some]
    · have hrules : (⟨base, found.text⟩ : Rule) ∉ rules := fun hmem => hmore (h hmem)
      simp [hmore, hrules, Option.filter_some]
  | noMatch => rfl
  | abandoned reason => rfl

/-- **More rules only take tags away**, and exactly those that they veto. -/
theorem tags_of_subset (h : rules ⊆ more) (base : String) (first : Nat) (lines : List Bytes) :
    tags more base first lines =
      (tags rules base first lines).filter fun tag => (⟨base, tag.name⟩ : Rule) ∉ more := by
  simp only [tags, List.filter_filterMap, tag?_of_subset h]

/-- Of the rules, only their set matters. -/
theorem tags_congr (h : rules ⊆ more) (h' : more ⊆ rules) (base : String) (first : Nat)
    (lines : List Bytes) : tags more base first lines = tags rules base first lines := by
  have hmem : ∀ rule, rule ∈ more ↔ rule ∈ rules := fun rule => ⟨@h' rule, @h rule⟩
  simp only [tags, tag?, hmem]

end Line

/-! ### More extensions -/

namespace Config

variable {config wider : Config} {path : Path} {content : Bytes} {language : Language}

theorem route_of_mem_extensions {extension : String} (hmem : extension ∈ config.extensions)
    (hext : path.extensionText? = some extension) (content : Bytes) :
    config.route path content = .ok .sh := by
  refine route_of_languageOf?_eq_some ?_
  rw [languageOf?, hext, Option.bind_some, if_pos (List.contains_iff_mem.mpr hmem)]

/-- A list of extensions says nothing about a path with another extension, or with none. -/
theorem route_eq_or_exists_extension (h : config.extensions ⊆ wider.extensions) (path : Path)
    (content : Bytes) :
    wider.route path content = config.route path content ∨
      ∃ extension ∈ wider.extensions, path.extensionText? = some extension := by
  cases hext : path.extensionText? with
  | none =>
    left
    simp only [route, languageOf?, hext, Option.bind_none]
  | some extension =>
    by_cases hmem : extension ∈ wider.extensions
    · exact .inr ⟨extension, hmem, rfl⟩
    · left
      have hmem' : extension ∉ config.extensions := fun hmem' => hmem (h hmem')
      simp only [route, languageOf?, hext, Option.bind_some, List.contains_iff_mem, hmem, hmem']

/-- **More extensions route more**, and nothing differently. -/
theorem route_of_subset (h : config.extensions ⊆ wider.extensions)
    (hroute : config.route path content = .ok language) :
    wider.route path content = .ok language := by
  obtain heq | ⟨extension, hmem, hext⟩ := route_eq_or_exists_extension h path content
  · rw [heq, hroute]
  · cases language
    exact route_of_mem_extensions hmem hext content

/-- Of the extensions, only their set matters. -/
theorem route_congr (h : config.extensions ⊆ wider.extensions)
    (h' : wider.extensions ⊆ config.extensions) (path : Path) (content : Bytes) :
    wider.route path content = config.route path content := by
  obtain heq | ⟨extension, hmem, hext⟩ := route_eq_or_exists_extension h path content
  · exact heq
  · rw [route_of_mem_extensions hmem hext, route_of_mem_extensions (h' hmem) hext]

end Config

/-! ### Both -/

/-- **A wider configuration scans more files and finds fewer tags.** What is extracted under a
configuration is extracted under a wider one, less the tags that a rule of that one vetoes; what is
extracted only under the wider one has an extension from its list; and configurations that are wider
than each other extract the same, errors included. -/
theorem extract_widened {config wider : Config} (hext : config.extensions ⊆ wider.extensions)
    (hrules : config.rules ⊆ wider.rules) (path : Path) (content : Bytes) :
    (∀ file, extract config path content = .ok file →
      extract wider path content = .ok { file with
        tags := file.tags.filter fun tag => (⟨path.baseName, tag.name⟩ : Rule) ∉ wider.rules }) ∧
    (∀ e file, extract config path content = .error e → extract wider path content = .ok file →
      ∃ extension ∈ wider.extensions, path.extensionText? = some extension) ∧
    (wider.extensions ⊆ config.extensions → wider.rules ⊆ config.rules →
      extract wider path content = extract config path content) := by
  refine ⟨fun file hfile => ?_, fun e file hfail hfile => ?_, fun hext' hrules' => ?_⟩
  · obtain ⟨language, hroute, rfl⟩ := extract_eq_ok_iff.mp hfile
    refine extract_eq_ok_iff.mpr ⟨language, Config.route_of_subset hext hroute, ?_⟩
    rw [Line.tags_of_subset hrules]
  · obtain heq | hext := Config.route_eq_or_exists_extension hext path content
    · -- routed alike, the script would be extracted under both
      obtain ⟨language, hroute, -⟩ := extract_eq_ok_iff.mp hfile
      have hok := extract_eq_ok_iff.mpr ⟨language, heq ▸ hroute, rfl⟩
      rw [hok] at hfail
      contradiction
    · exact hext
  · simp only [extract, Config.route_congr hext hext', findTags_eq_tags,
      Line.tags_congr hrules hrules']

/-- One more extension and one more rule: a tag less in one script, and one script more. -/
theorem extract_widened_ebuild :
    let wider : Config := ⟨["ebuild"], [⟨"a.sh", "f"⟩, ⟨"configure", "main"⟩], none⟩
    let content := Bytes.ofAscii "f()\nfunction g\n"
    Rules.builtin ⊆ wider.rules ∧
    extract {} (Path.ofString "d/a.sh") content =
      .ok ⟨"d/a.sh", "sh", [⟨"f", .function, 1, "f()"⟩, ⟨"g", .function, 2, "function g"⟩]⟩ ∧
    extract wider (Path.ofString "d/a.sh") content =
      .ok ⟨"d/a.sh", "sh", [⟨"g", .function, 2, "function g"⟩]⟩ ∧
    extract {} (Path.ofString "a.ebuild") content = .error (.unsupportedLanguage "ebuild") ∧
    ∃ extension ∈ wider.extensions, (Path.ofString "a.ebuild").extensionText? = some extension := by
  intro wider content
  have hrules : Rules.builtin ⊆ wider.rules := by decide
  have hscript : extract {} (Path.ofString "d/a.sh") content =
      .ok ⟨"d/a.sh", "sh", [⟨"f", .function, 1, "f()"⟩, ⟨"g", .function, 2, "function g"⟩]⟩ := by
    rfl
  have hfail : extract {} (Path.ofString "a.ebuild") content =
      .error (.unsupportedLanguage "ebuild") := by rfl
  exact ⟨hrules, hscript, (extract_widened (List.nil_subset _) hrules _ _).1 _ hscript, hfail,
    (extract_widened (List.nil_subset _) hrules _ _).2.1 _
      ⟨"a.ebuild", "sh", [⟨"f", .function, 1, "f()"⟩, ⟨"g", .function, 2, "function g"⟩]⟩ hfail rfl⟩

end ScriptTags
