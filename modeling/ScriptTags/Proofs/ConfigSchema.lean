import Mathlib.Data.List.Forall2
import Mathlib.Data.List.Nodup
import ScriptTags.Config
import ScriptTags.Proofs.DistinctKeys

/-!
# What a configuration may say

A configuration is read entry by entry, and each entry sets a field of what has been read so far.
The keys of a table are distinct, so that no field is set twice, and what is read is what the
entries **give** under each key, wherever they stand (`Gives`): reading is described here without an
order, for a rule (`Settings.readRule_eq_ok_iff`) and for a whole file (`Settings.read_eq_ok_iff`).

`Config.parse_schema` states the schema of a configuration file, in which nothing of the reading is
left: a file is accepted exactly when it follows the schema (`Config.FollowsSchema`), and then its
settings are those that it gives (`Settings.GivenBy`).
-/

namespace ScriptTags

open Toml (Value Entries)

/-! ### Entries -/

section Gives

variable {α : Type} {entries : Entries} {key k : String} {v : Value} {P : Value → α → Prop}
  {standard a : α}

/-- **What entries give under a key**: what their value of this key means, or else the standard. -/
def Gives (entries : Entries) (key : String) (P : Value → α → Prop) (standard a : α) : Prop :=
  (∃ v, (key, v) ∈ entries ∧ P v a) ∨ key ∉ entries.map Prod.fst ∧ a = standard

theorem gives_of_notMem (h : key ∉ entries.map Prod.fst) :
    Gives entries key P standard a ↔ a = standard := by
  constructor
  · rintro (⟨v, hv, -⟩ | ⟨-, ha⟩)
    · exact absurd (List.mem_map_of_mem hv) h
    · exact ha
  · intro ha
    exact .inr ⟨h, ha⟩

/-- A key that stands first, and not again, gives what its value means. -/
theorem gives_cons_self (h : key ∉ entries.map Prod.fst) :
    Gives ((key, v) :: entries) key P standard a ↔ P v a := by
  constructor
  · rintro (⟨v', hv', ha⟩ | ⟨hkey, -⟩)
    · rcases List.mem_cons.mp hv' with heq | hmem
      · rwa [← (Prod.mk.inj heq).2]
      · exact absurd (List.mem_map_of_mem hmem) h
    · exact absurd List.mem_cons_self hkey
  · intro ha
    exact .inl ⟨v, List.mem_cons_self, ha⟩

theorem gives_cons_of_ne (h : key ≠ k) :
    Gives ((k, v) :: entries) key P standard a ↔ Gives entries key P standard a := by
  simp [Gives, h]

/-- The order of the entries does not matter. -/
theorem gives_perm {entries' : Entries} (h : entries'.Perm entries) :
    Gives entries' key P standard a ↔ Gives entries key P standard a := by
  simp only [Gives, h.mem_iff, (h.map Prod.fst).mem_iff]

/-- A key gives something exactly when each value of it has a meaning; under distinct keys there is
at most one. -/
theorem exists_gives_iff (hnodup : (entries.map Prod.fst).Nodup) :
    (∃ a, Gives entries key P standard a) ↔ ∀ v, (key, v) ∈ entries → ∃ a, P v a := by
  constructor
  · rintro ⟨a, ⟨v, hv, ha⟩ | ⟨hkey, -⟩⟩ v' hv'
    · have heq := List.inj_on_of_nodup_map hnodup hv' hv rfl
      exact ⟨a, (Prod.mk.inj heq).2 ▸ ha⟩
    · exact absurd (List.mem_map_of_mem hv') hkey
  · intro h
    by_cases hkey : key ∈ entries.map Prod.fst
    · obtain ⟨⟨k, v⟩, hv, rfl⟩ := List.mem_map.mp hkey
      obtain ⟨a, ha⟩ := h v hv
      exact ⟨a, .inl ⟨v, hv, ha⟩⟩
    · exact ⟨standard, .inr ⟨hkey, rfl⟩⟩

end Gives

/-! ### Items -/

/-- A step that can fail succeeds on a list if it does on each item. -/
theorem mapM_eq_ok_iff {ε α β : Type} {f : α → Except ε β} {l : List α} {l' : List β} :
    l.mapM f = .ok l' ↔ List.Forall₂ (fun a b => f a = .ok b) l l' := by
  induction l generalizing l' with
  | nil => simp [List.mapM_nil, pure, Except.pure, eq_comm]
  | cons a l ih =>
    rw [List.mapM_cons, bind_eq_ok_iff]
    constructor
    · rintro ⟨b, hb, hrest⟩
      obtain ⟨bs, hbs, heq⟩ := bind_eq_ok_iff.mp hrest
      rw [← Except.ok.inj heq]
      exact .cons hb (ih.mp hbs)
    · rintro (_ | ⟨hb, hbs⟩)
      exact ⟨_, hb, bind_eq_ok_iff.mpr ⟨_, ih.mpr hbs, rfl⟩⟩

/-- Items are related to some list exactly when each is related to something. -/
theorem exists_forall₂_iff {α β : Type} {R : α → β → Prop} {l : List α} :
    (∃ l', List.Forall₂ R l l') ↔ ∀ a ∈ l, ∃ b, R a b := by
  induction l with
  | nil => simp
  | cons a l ih =>
    rw [List.forall_mem_cons, ← ih]
    constructor
    · rintro ⟨_, _ | ⟨hab, hrest⟩⟩
      exact ⟨⟨_, hab⟩, ⟨_, hrest⟩⟩
    · rintro ⟨⟨b, hab⟩, ⟨l', hrest⟩⟩
      exact ⟨b :: l', .cons hab hrest⟩

namespace Settings

variable {v : Value} {entries : Entries}

/-! ### Values -/

/-- A string is read from a string only: no other value is turned into text. -/
theorem readString_eq_ok_iff {s : String} : readString v = .ok s ↔ v = .string s := by
  cases v <;> simp [readString]

theorem readBoolean_eq_ok_iff {b : Bool} : readBoolean v = .ok b ↔ v = .boolean b := by
  cases v <;> simp [readBoolean]

/-- An array is read item by item, in its order, in whichever of its two forms it is. -/
theorem readArray_eq_ok_iff {α : Type} {readItem : Value → Except Fault α} {l : List α} :
    readArray readItem v = .ok l ↔
      ∃ items, v.items? = some items ∧ List.Forall₂ (fun v a => readItem v = .ok a) items l := by
  rw [readArray]
  cases v.items? with
  | none => simp
  | some items => simp [mapM_eq_ok_iff]

/-! ### Rules -/

/-- **A value spells a rule**: as a table of the two strings `file` and `name`, in any order and
with nothing else, or as an array that starts with them. -/
inductive SpellsRule : Value → Rule → Prop where
  | table {origin : Toml.Origin} {entries : Entries} {rule : Rule}
    (h : entries.Perm [("file", .string rule.file), ("name", .string rule.name)]) :
    SpellsRule (.table origin entries) rule
  | array {v : Value} {rule : Rule} {more : List Value}
    (h : v.items? = some (.string rule.file :: .string rule.name :: more)) : SpellsRule v rule

/-- An array spells a rule if it starts with two strings; what follows them does not matter. -/
theorem spellsRule_iff_of_items? {items : List Value} {rule : Rule} (h : v.items? = some items) :
    SpellsRule v rule ↔ ∃ more, items = .string rule.file :: .string rule.name :: more := by
  constructor
  · rintro (_ | hmore)
    · contradiction
    · exact ⟨_, Option.some.inj (h.symm.trans hmore)⟩
  · rintro ⟨more, rfl⟩
    exact .array h

/-- The reader of arrays asks for just these two strings. -/
theorem readRuleItems_eq_ok_iff {items : List Value} {rule : Rule} :
    readRuleItems items = .ok rule ↔
      ∃ more, items = .string rule.file :: .string rule.name :: more := by
  constructor
  · intro h
    match items with
    | [] => contradiction
    | [first] =>
      obtain ⟨file, -, hfile⟩ := bind_eq_ok_iff.mp h
      contradiction
    | first :: second :: more =>
      obtain ⟨file, hfile, hrest⟩ := bind_eq_ok_iff.mp h
      obtain ⟨name, hname, hrule⟩ := bind_eq_ok_iff.mp hrest
      rw [← Except.ok.inj hrule, readString_eq_ok_iff.mp hfile, readString_eq_ok_iff.mp hname]
      exact ⟨more, rfl⟩
  · rintro ⟨more, rfl⟩
    rfl

/-- What a string is read to in a draft. -/
def IsDrafted (v : Value) (drafted : Option String) : Prop :=
  ∃ s, v = .string s ∧ drafted = some s

theorem RuleDraft.set_file_eq_ok_iff {draft next : RuleDraft} :
    draft.set ("file", v) = .ok next ↔
      ∃ s, v = .string s ∧ next = { draft with file := some s } := by
  rw [set, if_pos rfl, bind_pure_eq_ok_iff]
  simp only [readString_eq_ok_iff]

theorem RuleDraft.set_name_eq_ok_iff {draft next : RuleDraft} :
    draft.set ("name", v) = .ok next ↔
      ∃ s, v = .string s ∧ next = { draft with name := some s } := by
  have hne : "name" ≠ "file" := by decide
  rw [set, if_neg hne, if_pos rfl, bind_pure_eq_ok_iff]
  simp only [readString_eq_ok_iff]

/-- The entries of a table set each key of a draft once. -/
theorem foldlM_ruleDraft_eq_ok_iff (hnodup : (entries.map Prod.fst).Nodup)
    {draft result : RuleDraft} :
    entries.foldlM RuleDraft.set draft = .ok result ↔
      (∀ e ∈ entries, e.1 = "file" ∨ e.1 = "name") ∧
      Gives entries "file" IsDrafted draft.file result.file ∧
      Gives entries "name" IsDrafted draft.name result.name := by
  induction entries generalizing draft with
  | nil =>
    obtain ⟨file, name⟩ := draft
    obtain ⟨file', name'⟩ := result
    simp [Gives, pure, Except.pure, eq_comm]
  | cons e entries ih =>
    obtain ⟨k, v⟩ := e
    rw [List.map_cons, List.nodup_cons] at hnodup
    obtain ⟨hk, hnodup⟩ := hnodup
    rw [List.foldlM_cons, bind_eq_ok_iff, List.forall_mem_cons]
    by_cases hfile : k = "file"
    · subst hfile
      have hname : "name" ≠ "file" := by decide
      simp only [RuleDraft.set_file_eq_ok_iff, ih hnodup, gives_of_notMem hk, gives_cons_self hk,
        gives_cons_of_ne hname]
      constructor
      · rintro ⟨next, ⟨s, hs, rfl⟩, hknown, hresult, hgives⟩
        exact ⟨⟨.inl trivial, hknown⟩, ⟨s, hs, hresult⟩, hgives⟩
      · rintro ⟨⟨-, hknown⟩, ⟨s, hs, hresult⟩, hgives⟩
        exact ⟨_, ⟨s, hs, rfl⟩, hknown, hresult, hgives⟩
    · by_cases hname : k = "name"
      · subst hname
        have hfile : "file" ≠ "name" := by decide
        simp only [RuleDraft.set_name_eq_ok_iff, ih hnodup, gives_of_notMem hk, gives_cons_self hk,
          gives_cons_of_ne hfile]
        constructor
        · rintro ⟨next, ⟨s, hs, rfl⟩, hknown, hgives, hresult⟩
          exact ⟨⟨.inr trivial, hknown⟩, hgives, ⟨s, hs, hresult⟩⟩
        · rintro ⟨⟨-, hknown⟩, hgives, ⟨s, hs, hresult⟩⟩
          exact ⟨_, ⟨s, hs, rfl⟩, hknown, hgives, hresult⟩
      · simp [RuleDraft.set, hfile, hname]

/-- A key of an empty draft is set to a string exactly when the string stands under the key. -/
theorem gives_isDrafted_iff {key s : String} :
    Gives entries key IsDrafted none (some s) ↔ (key, .string s) ∈ entries := by
  constructor
  · rintro (⟨v, hv, s', rfl, hs⟩ | ⟨-, hnone⟩)
    · rwa [Option.some.inj hs]
    · contradiction
  · intro h
    exact .inl ⟨_, h, s, rfl, rfl⟩

/-- A draft makes a rule only if both of its keys have been set. -/
theorem RuleDraft.finish_eq_ok_iff {draft : RuleDraft} {rule : Rule} :
    draft.finish = .ok rule ↔ draft = ⟨some rule.file, some rule.name⟩ := by
  obtain ⟨_ | file, _ | name⟩ := draft <;> obtain ⟨file', name'⟩ := rule <;> simp [finish]

/-- **A table of a rule** has the two keys and no others. -/
theorem readRuleEntries_eq_ok_iff (hnodup : (entries.map Prod.fst).Nodup) {rule : Rule} :
    readRuleEntries entries = .ok rule ↔
      entries.Perm [("file", .string rule.file), ("name", .string rule.name)] := by
  have hread : readRuleEntries entries = .ok rule ↔
      (∀ e ∈ entries, e.1 = "file" ∨ e.1 = "name") ∧
        ("file", .string rule.file) ∈ entries ∧ ("name", .string rule.name) ∈ entries := by
    simp only [readRuleEntries, bind_eq_ok_iff, RuleDraft.finish_eq_ok_iff, exists_eq_right,
      foldlM_ruleDraft_eq_ok_iff hnodup, gives_isDrafted_iff]
  have hpair : [("file", Value.string rule.file), ("name", Value.string rule.name)].Nodup := by
    simp
  rw [hread, List.perm_ext_iff_of_nodup (List.Nodup.of_map Prod.fst hnodup) hpair]
  constructor
  · rintro ⟨hknown, hfile, hname⟩ e
    constructor
    · intro he
      -- an entry is known by its key
      rcases hknown e he with hkey | hkey
      · exact List.mem_cons.mpr (.inl (List.inj_on_of_nodup_map hnodup he hfile hkey))
      · exact List.mem_cons_of_mem _
          (List.mem_singleton.mpr (List.inj_on_of_nodup_map hnodup he hname hkey))
    · intro he
      rcases List.mem_cons.mp he with rfl | he
      · exact hfile
      · exact List.mem_singleton.mp he ▸ hname
  · intro h
    refine ⟨fun e he => ?_, (h _).mpr List.mem_cons_self, (h _).mpr (by simp)⟩
    rcases List.mem_cons.mp ((h e).mp he) with rfl | he
    · exact .inl rfl
    · exact .inr (congrArg Prod.fst (List.mem_singleton.mp he))

/-- **A rule is read from what spells it**, and from nothing else. -/
theorem readRule_eq_ok_iff (hv : v.HasDistinctKeys) {rule : Rule} :
    readRule v = .ok rule ↔ SpellsRule v rule := by
  have hother : v.items? = none → (∀ origin entries, v ≠ .table origin entries) →
      ¬ SpellsRule v rule := by
    rintro hitems htable (_ | hmore)
    · exact htable _ _ rfl
    · rw [hitems] at hmore
      contradiction
  cases v with
  | table origin entries =>
    rw [readRule, readRuleEntries_eq_ok_iff (Value.hasDistinctKeys_table_iff.mp hv).nodup]
    constructor
    · exact .table
    · rintro (h | hmore)
      · exact h
      · contradiction
  | array items =>
    rw [readRule, readRuleItems_eq_ok_iff, spellsRule_iff_of_items? rfl]
  | tables latestFirst =>
    rw [readRule, readRuleItems_eq_ok_iff, spellsRule_iff_of_items? rfl]
  | _ =>
    exact iff_of_false (by simp [readRule]) (hother rfl fun _ _ => by simp)

/-! ### Files -/

/-- A value that is an array of strings. -/
def IsStrings (v : Value) (l : List String) : Prop :=
  v.items? = some (l.map .string)

/-- A value that is an array of rules. -/
def SpellsRules (v : Value) (rules : List Rule) : Prop :=
  ∃ items, v.items? = some items ∧ List.Forall₂ SpellsRule items rules

theorem readArray_readString_eq_ok_iff {l : List String} :
    readArray readString v = .ok l ↔ IsStrings v l := by
  have hitems : ∀ items, List.Forall₂ (fun v s => readString v = .ok s) items l ↔
      items = l.map .string := by
    intro items
    simp only [readString_eq_ok_iff]
    rw [← List.forall₂_map_right_iff, List.forall₂_eq_eq_eq]
  simp only [readArray_eq_ok_iff, hitems, exists_eq_right, IsStrings]

/-- An array of rules is read from an array of what spells them, each in its own way. -/
theorem readArray_readRule_eq_ok_iff (hv : v.HasDistinctKeys) {rules : List Rule} :
    readArray readRule v = .ok rules ↔ SpellsRules v rules := by
  rw [readArray_eq_ok_iff]
  refine exists_congr fun items => and_congr_right fun hitems => ?_
  have hdistinct : ∀ item ∈ items, item.HasDistinctKeys := hv.of_items? hitems
  clear hitems
  induction items generalizing rules with
  | nil => simp
  | cons item items ih =>
    rw [List.forall_mem_cons] at hdistinct
    cases rules with
    | nil => simp
    | cons rule rules =>
      rw [List.forall₂_cons, List.forall₂_cons]
      exact and_congr (readRule_eq_ok_iff hdistinct.1) (ih hdistinct.2)

/-- **The settings that entries give.** -/
structure GivenBy (s : Settings) (entries : Entries) : Prop where
  keys : ∀ e ∈ entries, e.1 = "extensions" ∨ e.1 = "default_suppressions" ∨ e.1 = "suppress"
  extensions : Gives entries "extensions" IsStrings [] s.extensions
  defaultSuppressions :
    Gives entries "default_suppressions" (fun v b => v = .boolean b) true s.defaultSuppressions
  suppress : Gives entries "suppress" SpellsRules [] s.suppress

section Set

variable {settings next result : Settings}

theorem set_extensions_eq_ok_iff :
    settings.set ("extensions", v) = .ok next ↔
      ∃ l, IsStrings v l ∧ next = { settings with extensions := l } := by
  rw [set, if_pos rfl, bind_pure_eq_ok_iff]
  simp only [readArray_readString_eq_ok_iff]

theorem set_defaultSuppressions_eq_ok_iff :
    settings.set ("default_suppressions", v) = .ok next ↔
      ∃ b, v = .boolean b ∧ next = { settings with defaultSuppressions := b } := by
  have hne : "default_suppressions" ≠ "extensions" := by decide
  rw [set, if_neg hne, if_pos rfl, bind_pure_eq_ok_iff]
  simp only [readBoolean_eq_ok_iff]

theorem set_suppress_eq_ok_iff (hv : v.HasDistinctKeys) :
    settings.set ("suppress", v) = .ok next ↔
      ∃ rules, SpellsRules v rules ∧ next = { settings with suppress := rules } := by
  have hne : "suppress" ≠ "extensions" := by decide
  have hne' : "suppress" ≠ "default_suppressions" := by decide
  rw [set, if_neg hne, if_neg hne', if_pos rfl, bind_pure_eq_ok_iff]
  simp only [readArray_readRule_eq_ok_iff hv]

/-- The entries of a configuration set each of its fields once. -/
theorem foldlM_set_eq_ok_iff (h : entries.HaveDistinctKeys) :
    entries.foldlM set settings = .ok result ↔
      (∀ e ∈ entries, e.1 = "extensions" ∨ e.1 = "default_suppressions" ∨ e.1 = "suppress") ∧
      Gives entries "extensions" IsStrings settings.extensions result.extensions ∧
      Gives entries "default_suppressions" (fun v b => v = .boolean b)
        settings.defaultSuppressions result.defaultSuppressions ∧
      Gives entries "suppress" SpellsRules settings.suppress result.suppress := by
  induction entries generalizing settings with
  | nil =>
    obtain ⟨extensions, defaultSuppressions, suppress⟩ := settings
    obtain ⟨extensions', defaultSuppressions', suppress'⟩ := result
    simp [Gives, pure, Except.pure, eq_comm]
  | cons e entries ih =>
    obtain ⟨k, v⟩ := e
    obtain ⟨hk, hv, hentries⟩ := h.of_cons
    rw [List.foldlM_cons, bind_eq_ok_iff, List.forall_mem_cons]
    by_cases hextensions : k = "extensions"
    · subst hextensions
      have hne : "default_suppressions" ≠ "extensions" := by decide
      have hne' : "suppress" ≠ "extensions" := by decide
      simp only [set_extensions_eq_ok_iff, ih hentries, gives_of_notMem hk, gives_cons_self hk,
        gives_cons_of_ne hne, gives_cons_of_ne hne']
      constructor
      · rintro ⟨next, ⟨l, hl, rfl⟩, hknown, hresult, hothers⟩
        exact ⟨⟨.inl trivial, hknown⟩, hresult ▸ hl, hothers⟩
      · rintro ⟨⟨-, hknown⟩, hl, hothers⟩
        exact ⟨_, ⟨_, hl, rfl⟩, hknown, rfl, hothers⟩
    · by_cases hdefault : k = "default_suppressions"
      · subst hdefault
        have hne : "extensions" ≠ "default_suppressions" := by decide
        have hne' : "suppress" ≠ "default_suppressions" := by decide
        simp only [set_defaultSuppressions_eq_ok_iff, ih hentries, gives_of_notMem hk,
          gives_cons_self hk, gives_cons_of_ne hne, gives_cons_of_ne hne']
        constructor
        · rintro ⟨next, ⟨b, hb, rfl⟩, hknown, hextensions, hresult, hsuppress⟩
          exact ⟨⟨.inr (.inl trivial), hknown⟩, hextensions, hresult ▸ hb, hsuppress⟩
        · rintro ⟨⟨-, hknown⟩, hextensions, hb, hsuppress⟩
          exact ⟨_, ⟨_, hb, rfl⟩, hknown, hextensions, rfl, hsuppress⟩
      · by_cases hsuppress : k = "suppress"
        · subst hsuppress
          have hne : "extensions" ≠ "suppress" := by decide
          have hne' : "default_suppressions" ≠ "suppress" := by decide
          simp only [set_suppress_eq_ok_iff hv, ih hentries, gives_of_notMem hk, gives_cons_self hk,
            gives_cons_of_ne hne, gives_cons_of_ne hne']
          constructor
          · rintro ⟨next, ⟨rules, hrules, rfl⟩, hknown, hextensions, hdefault, hresult⟩
            exact ⟨⟨.inr (.inr trivial), hknown⟩, hextensions, hdefault, hresult ▸ hrules⟩
          · rintro ⟨⟨-, hknown⟩, hextensions, hdefault, hrules⟩
            exact ⟨_, ⟨_, hrules, rfl⟩, hknown, hextensions, hdefault, rfl⟩
        · simp [set, hextensions, hdefault, hsuppress]

/-- **Settings are read from the entries that give them.** -/
theorem read_eq_ok_iff (h : entries.HaveDistinctKeys) :
    read entries = .ok result ↔ result.GivenBy entries := by
  rw [read, foldlM_set_eq_ok_iff h]
  constructor
  · rintro ⟨hkeys, hextensions, hdefault, hsuppress⟩
    exact ⟨hkeys, hextensions, hdefault, hsuppress⟩
  · intro hgiven
    exact ⟨hgiven.keys, hgiven.extensions, hgiven.defaultSuppressions, hgiven.suppress⟩

/-- Entries in another order give the same settings. -/
theorem GivenBy.perm {entries' : Entries} (h : entries'.Perm entries) :
    result.GivenBy entries' ↔ result.GivenBy entries := by
  have hkeys : (∀ e ∈ entries', e.1 = "extensions" ∨ e.1 = "default_suppressions" ∨
      e.1 = "suppress") ↔
      ∀ e ∈ entries, e.1 = "extensions" ∨ e.1 = "default_suppressions" ∨ e.1 = "suppress" :=
    forall_congr' fun e => imp_congr_left h.mem_iff
  constructor
  · intro hgiven
    exact ⟨hkeys.mp hgiven.keys, (gives_perm h).mp hgiven.extensions,
      (gives_perm h).mp hgiven.defaultSuppressions, (gives_perm h).mp hgiven.suppress⟩
  · intro hgiven
    exact ⟨hkeys.mpr hgiven.keys, (gives_perm h).mpr hgiven.extensions,
      (gives_perm h).mpr hgiven.defaultSuppressions, (gives_perm h).mpr hgiven.suppress⟩

end Set

end Settings

namespace Config

variable {text : String} {origin : Path} {entries : Entries} {config : Config}

/-- **The schema of a configuration**: the keys that it may have, and what may stand under them. -/
structure FollowsSchema (entries : Entries) : Prop where
  keys : ∀ e ∈ entries, e.1 = "extensions" ∨ e.1 = "default_suppressions" ∨ e.1 = "suppress"
  extensions : ∀ v, ("extensions", v) ∈ entries → ∃ l : List String, v.items? = some (l.map .string)
  defaultSuppressions : ∀ v, ("default_suppressions", v) ∈ entries → ∃ b, v = .boolean b
  suppress : ∀ v, ("suppress", v) ∈ entries →
    ∃ items, v.items? = some items ∧ ∀ item ∈ items, ∃ rule, Settings.SpellsRule item rule

/-- Entries give settings exactly when they follow the schema. -/
theorem exists_givenBy_iff (hnodup : (entries.map Prod.fst).Nodup) :
    (∃ s : Settings, s.GivenBy entries) ↔ FollowsSchema entries := by
  have hrules : ∀ v, (∃ rules, Settings.SpellsRules v rules) ↔
      ∃ items, v.items? = some items ∧ ∀ item ∈ items, ∃ rule, Settings.SpellsRule item rule := by
    intro v
    simp only [Settings.SpellsRules]
    rw [exists_comm]
    simp only [exists_and_left, exists_forall₂_iff]
  constructor
  · rintro ⟨s, hs⟩
    refine ⟨hs.keys, (exists_gives_iff hnodup).mp ⟨_, hs.extensions⟩,
      (exists_gives_iff hnodup).mp ⟨_, hs.defaultSuppressions⟩, fun v hv => (hrules v).mp ?_⟩
    exact (exists_gives_iff hnodup).mp ⟨_, hs.suppress⟩ v hv
  · intro h
    obtain ⟨extensions, hextensions⟩ := (exists_gives_iff hnodup).mpr h.extensions
    obtain ⟨b, hdefault⟩ := (exists_gives_iff hnodup).mpr h.defaultSuppressions
    obtain ⟨rules, hsuppress⟩ :=
      (exists_gives_iff hnodup).mpr fun v hv => (hrules v).mpr (h.suppress v hv)
    exact ⟨⟨extensions, b, rules⟩, h.keys, hextensions, hdefault, hsuppress⟩

/-- **A configuration is read from the settings that its text gives.** -/
theorem parse_eq_ok_iff (h : Toml.parse text = .ok entries) :
    parse text origin = .ok config ↔ ∃ s : Settings, s.GivenBy entries ∧ config = ofSettings s := by
  have hread : ofEntries entries = .ok config ↔
      ∃ s : Settings, s.GivenBy entries ∧ config = ofSettings s := by
    rw [ofEntries, bind_pure_eq_ok_iff]
    simp only [Settings.read_eq_ok_iff (Toml.haveDistinctKeys_of_parse h)]
  rw [← hread]
  simp only [parse, h]
  cases ofEntries entries <;> simp

/-- An extension is kept without full stops before it, and not at all if nothing else is left. -/
theorem of_mem_extensions_ofSettings {s : Settings} {extension : String}
    (h : extension ∈ (ofSettings s).extensions) :
    extension ≠ "" ∧ extension.toList.head? ≠ some '.' := by
  obtain ⟨hmem, hne⟩ := List.mem_filter.mp h
  obtain ⟨given, -, rfl⟩ := List.mem_map.mp hmem
  refine ⟨bne_iff_ne.mp hne, fun hdot => ?_⟩
  have hnot := List.head?_dropWhile_not (· == '.') given.toList
  rw [bareExtension, String.toList_ofList] at hdot
  rw [hdot] at hnot
  contradiction

/-- **The configurations that are accepted.** A text of TOML is accepted exactly when it follows the
schema. Its rules are then the built-in one, unless that is turned off, and those of the text in
their order; its extensions are those of the text in their order, without leading full stops and
without those of which nothing is left. Texts that differ in the order of their keys are accepted
alike, and give the same configuration. -/
theorem parse_schema (h : Toml.parse text = .ok entries) (origin : Path) :
    ((∃ config, parse text origin = .ok config) ↔ FollowsSchema entries) ∧
    (∀ config, parse text origin = .ok config →
      ∃ s : Settings, s.GivenBy entries ∧
        config.rules =
          (if s.defaultSuppressions then [⟨"configure", "main"⟩] else []) ++ s.suppress ∧
        config.extensions =
          ((s.extensions.map fun e => String.ofList (e.toList.dropWhile (· == '.'))).filter
            (· ≠ "")) ∧
        (∀ e ∈ config.extensions, e ≠ "" ∧ e.toList.head? ≠ some '.') ∧
        config.source = none) ∧
    (∀ text' origin' entries', Toml.parse text' = .ok entries' → entries'.Perm entries →
      (parse text' origin').toOption = (parse text origin).toOption) := by
  refine ⟨?_, fun config hconfig => ?_, fun text' origin' entries' h' hperm => ?_⟩
  · rw [← exists_givenBy_iff (Toml.haveDistinctKeys_of_parse h).nodup]
    constructor
    · rintro ⟨config, hconfig⟩
      obtain ⟨s, hs, -⟩ := (parse_eq_ok_iff h).mp hconfig
      exact ⟨s, hs⟩
    · rintro ⟨s, hs⟩
      exact ⟨ofSettings s, (parse_eq_ok_iff h).mpr ⟨s, hs, rfl⟩⟩
  · obtain ⟨s, hs, rfl⟩ := (parse_eq_ok_iff h).mp hconfig
    refine ⟨s, hs, rfl, ?_, fun e he => of_mem_extensions_ofSettings he, rfl⟩
    refine List.filter_congr fun e _ => ?_
    by_cases he : e = "" <;> simp [he]
  · have hsame : ∀ config, parse text' origin' = .ok config ↔ parse text origin = .ok config := by
      intro config
      simp only [parse_eq_ok_iff h, parse_eq_ok_iff h', Settings.GivenBy.perm hperm]
    refine Option.ext fun config => ?_
    rw [toOption_eq_some_iff, toOption_eq_some_iff]
    exact hsame config

/-- Rules in both spellings, and extensions of which one is dropped. -/
theorem parse_schema_bothSpellings :
    let text := "suppress = [[\"a.sh\", \"f\", 1], \x7bname = \"g\", file = \"b.sh\"\x7d]\n" ++
      "extensions = [\"..ebuild\", \"..\"]\n"
    (∃ entries, Toml.parse text = .ok entries ∧ FollowsSchema entries) ∧
    (parse text (Path.ofString "a.toml")).toOption =
      some ⟨["ebuild"], [⟨"configure", "main"⟩, ⟨"a.sh", "f"⟩, ⟨"b.sh", "g"⟩], none⟩ := by
  intro text
  have hparse : (Toml.parse text).toOption.isSome = true := by decide +kernel
  have hconfig : (parse text (Path.ofString "a.toml")).toOption =
      some ⟨["ebuild"], [⟨"configure", "main"⟩, ⟨"a.sh", "f"⟩, ⟨"b.sh", "g"⟩], none⟩ := by
    decide +kernel
  obtain ⟨entries, hentries⟩ := Option.isSome_iff_exists.mp hparse
  have h := toOption_eq_some_iff.mp hentries
  refine ⟨⟨entries, h, ?_⟩, hconfig⟩
  exact (parse_schema h (Path.ofString "a.toml")).1.mp ⟨_, toOption_eq_some_iff.mp hconfig⟩

end Config

end ScriptTags
