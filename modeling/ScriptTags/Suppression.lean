/-!
# Suppression rules

Some lines look like definitions and are not: the `configure` scripts of the GNU build system carry
test programs in C, whose `main ()` has the shape of a shell function. A **rule** vetoes one name in
the files of one base name, and the first rule of a list that matches is the one that vetoes.
-/

namespace ScriptTags

/-- A **suppression rule**: no tag `name` in files whose base name is `file`. -/
structure Rule where
  file : String
  name : String
  deriving DecidableEq, Repr

/-- Whether the rule vetoes `name` in a file with this base name. -/
def Rule.applies (rule : Rule) (base name : String) : Bool :=
  rule.file == base && rule.name == name

/-- An ordered list of rules. -/
abbrev Rules := List Rule

namespace Rules

/-- The built-in rule: no `main` in `configure`. -/
def builtin : Rules :=
  [⟨"configure", "main"⟩]

/-- The first rule that vetoes `name` in a file with this base name. -/
def veto? (rules : Rules) (base name : String) : Option Rule :=
  rules.find? fun rule => rule.applies base name

/-- Whether some rule vetoes `name` in a file with this base name. -/
def vetoes (rules : Rules) (base name : String) : Bool :=
  (rules.veto? base name).isSome

/-- A name is vetoed exactly when the rule that says so is in the list. -/
theorem vetoes_iff {rules : Rules} {base name : String} :
    rules.vetoes base name = true ↔ (⟨base, name⟩ : Rule) ∈ rules := by
  simp only [vetoes, veto?, List.find?_isSome, Rule.applies, Bool.and_eq_true, beq_iff_eq]
  constructor
  · rintro ⟨rule, hmem, rfl, rfl⟩
    exact hmem
  · exact fun h => ⟨_, h, rfl, rfl⟩

end Rules

end ScriptTags
