import ScriptTags.Proofs.Readers
import ScriptTags.Toml.Grammar

/-!
# The keys of a table are distinct

A key stands in a table at most once, whatever headers, dotted keys and braces have made of the
table. Every change of a table keeps this (`Table.HasDistinctKeys.update`): an entry is added only
where its key is not there yet, and a table on the way of a path is put back under its own key. So
it holds of each value that the grammar reads (`value_yields`), and, statement by statement, of the
whole document (`haveDistinctKeys_of_parse`).
-/

namespace ScriptTags.Toml

/-- **The keys of a value's tables are distinct**, at every level. -/
inductive Value.HasDistinctKeys : Value → Prop where
  | string (s : String) : HasDistinctKeys (.string s)
  | integer (i : Int) : HasDistinctKeys (.integer i)
  | float (x : Binary64) : HasDistinctKeys (.float x)
  | boolean (b : Bool) : HasDistinctKeys (.boolean b)
  | datetime : HasDistinctKeys .datetime
  | array {items : List Value} (h : ∀ v ∈ items, HasDistinctKeys v) : HasDistinctKeys (.array items)
  | tables {latestFirst : List Value} (h : ∀ v ∈ latestFirst, HasDistinctKeys v) :
    HasDistinctKeys (.tables latestFirst)
  | table {origin : Origin} {entries : Entries} (hkeys : (entries.map Prod.fst).Nodup)
    (hvalues : ∀ e ∈ entries, HasDistinctKeys e.2) : HasDistinctKeys (.table origin entries)

/-- The keys of these entries are distinct, and so are those of their values. -/
structure Entries.HaveDistinctKeys (entries : Entries) : Prop where
  nodup : (entries.map Prod.fst).Nodup
  values : ∀ e ∈ entries, e.2.HasDistinctKeys

/-- A table has distinct keys if its entries have. -/
theorem Value.hasDistinctKeys_table_iff {origin : Origin} {entries : Entries} :
    (Value.table origin entries).HasDistinctKeys ↔ entries.HaveDistinctKeys := by
  constructor
  · rintro (_ | _ | _ | _ | _ | _ | _ | ⟨hkeys, hvalues⟩)
    exact ⟨hkeys, hvalues⟩
  · intro h
    exact .table h.nodup h.values

/-- An array of tables has distinct keys if each of its tables has. -/
theorem Value.hasDistinctKeys_tables_iff {latestFirst : List Value} :
    (Value.tables latestFirst).HasDistinctKeys ↔ ∀ v ∈ latestFirst, v.HasDistinctKeys := by
  constructor
  · rintro (_ | _ | _ | _ | _ | _ | h)
    exact h
  · exact .tables

/-- The items of an array have distinct keys, in whichever of its two forms it is. -/
theorem Value.HasDistinctKeys.of_items? {v : Value} {items : List Value} (hv : v.HasDistinctKeys)
    (h : v.items? = some items) : ∀ item ∈ items, item.HasDistinctKeys := by
  cases hv with
  | array hitems => exact Option.some.inj h ▸ hitems
  | tables htables =>
    rw [← Option.some.inj h]
    intro item hitem
    exact htables item (List.mem_reverse.mp hitem)
  | _ => contradiction

namespace Entries.HaveDistinctKeys

variable {entries : Entries} {key : String} {value : Value}

theorem nil : Entries.HaveDistinctKeys [] :=
  ⟨List.nodup_nil, fun e he => by contradiction⟩

/-- The first entry taken apart from the others: none of them has its key. -/
theorem of_cons (h : Entries.HaveDistinctKeys ((key, value) :: entries)) :
    key ∉ entries.map Prod.fst ∧ value.HasDistinctKeys ∧ entries.HaveDistinctKeys := by
  obtain ⟨hnodup, hvalues⟩ := h
  rw [List.map_cons, List.nodup_cons] at hnodup
  rw [List.forall_mem_cons] at hvalues
  exact ⟨hnodup.1, hvalues.1, hnodup.2, hvalues.2⟩

theorem of_lookup (h : entries.HaveDistinctKeys) (hlookup : entries.lookup key = some value) :
    value.HasDistinctKeys := by
  obtain ⟨before, after, rfl, -⟩ := List.lookup_eq_some_iff.mp hlookup
  exact h.values (key, value) (by simp)

/-- An entry may be added if its key is not there yet. -/
theorem push (h : entries.HaveDistinctKeys) (hkey : entries.lookup key = none)
    (hvalue : value.HasDistinctKeys) : Entries.HaveDistinctKeys (entries ++ [(key, value)]) := by
  have hnotMem : key ∉ entries.map Prod.fst := by
    intro hmem
    obtain ⟨e, he, rfl⟩ := List.mem_map.mp hmem
    exact absurd (List.lookup_eq_none_iff.mp hkey e he) (by simp)
  constructor
  · rw [List.map_append, List.map_singleton, List.nodup_append]
    refine ⟨h.nodup, List.pairwise_singleton _ _, fun k hk k' hk' heq => ?_⟩
    have hk' : k' = key := List.mem_singleton.mp hk'
    exact hnotMem (hk' ▸ heq ▸ hk)
  · intro e he
    rcases List.mem_append.mp he with hold | hnew
    · exact h.values e hold
    · obtain rfl := List.mem_singleton.mp hnew
      exact hvalue

/-- Another value for a key changes no key. -/
theorem replace (h : entries.HaveDistinctKeys) (hvalue : value.HasDistinctKeys) :
    Entries.HaveDistinctKeys
      (entries.map fun e => if e.1 == key then (key, value) else e) := by
  constructor
  · have hkeys : (entries.map fun e => if e.1 == key then (key, value) else e).map Prod.fst =
        entries.map Prod.fst := by
      rw [List.map_map]
      refine List.map_congr_left fun e _ => ?_
      by_cases he : e.1 = key <;> simp [he]
    rw [hkeys]
    exact h.nodup
  · intro e he
    obtain ⟨old, hold, rfl⟩ := List.mem_map.mp he
    split
    · exact hvalue
    · exact h.values old hold

theorem filter (h : entries.HaveDistinctKeys) (p : String × Value → Bool) :
    Entries.HaveDistinctKeys (entries.filter p) :=
  ⟨h.nodup.sublist (List.filter_sublist.map Prod.fst),
    fun e he => h.values e (List.mem_filter.mp he).1⟩

end Entries.HaveDistinctKeys

namespace Table

variable {t t' : Table} {route : Route} {walked path : List String} {key : String}

/-- The keys of a table are distinct, and so are those of its values. -/
abbrev HasDistinctKeys (t : Table) : Prop :=
  t.entries.HaveDistinctKeys

theorem HasDistinctKeys.toValue (h : t.HasDistinctKeys) : t.toValue.HasDistinctKeys :=
  Value.hasDistinctKeys_table_iff.mpr h

/-- **A change keeps keys distinct** if what it does at the end of its path does. -/
theorem HasDistinctKeys.update {change : Table → Except Fault Table}
    (hchange : ∀ last last', last.HasDistinctKeys → change last = .ok last' → last'.HasDistinctKeys)
    (ht : t.HasDistinctKeys) (h : t.update route walked path change = .ok t') :
    t'.HasDistinctKeys := by
  induction path generalizing walked t t' with
  | nil => exact hchange t t' ht h
  | cons key path ih =>
    rw [Table.update] at h
    split at h
    · next hkey =>
      obtain ⟨child, hchild, hpush⟩ := bind_eq_ok_iff.mp h
      have hdistinct := ih (t := ⟨route.origin, []⟩) Entries.HaveDistinctKeys.nil hchild
      rw [← Except.ok.inj hpush]
      exact Entries.HaveDistinctKeys.push ht hkey hdistinct.toValue
    · next origin entries hkey =>
      have hentries := Value.hasDistinctKeys_table_iff.mp (ht.of_lookup hkey)
      dsimp only at h
      split at h
      · cases h
      · split at h
        · cases h
        · obtain ⟨child, hchild, hreplace⟩ := bind_eq_ok_iff.mp h
          rw [← Except.ok.inj hreplace]
          exact ht.replace (ih (t := ⟨origin, entries⟩) hentries hchild).toValue
    · next origin entries earlier hkey =>
      have htables := Value.hasDistinctKeys_tables_iff.mp (ht.of_lookup hkey)
      rw [List.forall_mem_cons] at htables
      have hentries := Value.hasDistinctKeys_table_iff.mp htables.1
      obtain ⟨child, hchild, hreplace⟩ := bind_eq_ok_iff.mp h
      have hdistinct := ih (t := ⟨origin, entries⟩) hentries hchild
      rw [← Except.ok.inj hreplace]
      exact ht.replace (.tables (List.forall_mem_cons.mpr ⟨hdistinct.toValue, htables.2⟩))
    · contradiction

/-- **An entry** is added at the end of its path only where its key is not there yet. -/
theorem HasDistinctKeys.insert {names : Option (List String)} {value : Value}
    (hvalue : value.HasDistinctKeys) (ht : t.HasDistinctKeys)
    (h : t.insert route names path key value = .ok t') : t'.HasDistinctKeys := by
  refine ht.update (fun last last' hlast hlast' => ?_) h
  split at hlast'
  · contradiction
  · split at hlast'
    · contradiction
    · next hkey =>
      rw [← Except.ok.inj hlast']
      exact hlast.push (Option.not_isSome_iff_eq_none.mp hkey) hvalue

/-- **A header** adds a table whose key is not there yet, or opens one that stands only on the way
to others; the latter moves to the end. -/
theorem HasDistinctKeys.openTable (ht : t.HasDistinctKeys) (h : t.openTable path key = .ok t') :
    t'.HasDistinctKeys := by
  refine ht.update (fun last last' hlast hlast' => ?_) h
  split at hlast'
  · next hkey =>
    rw [← Except.ok.inj hlast']
    exact hlast.push hkey (.table List.nodup_nil fun e he => by contradiction)
  · next entries hkey =>
    have hentries := Value.hasDistinctKeys_table_iff.mp (hlast.of_lookup hkey)
    rw [← Except.ok.inj hlast']
    refine (hlast.filter _).push ?_ (.table hentries.nodup hentries.values)
    rw [List.lookup_eq_none_iff]
    intro e he
    rw [bne_comm]
    exact (List.mem_filter.mp he).2
  · contradiction

/-- **A header of an array** adds an empty table to the array of its key, or starts that array. -/
theorem HasDistinctKeys.openElement (ht : t.HasDistinctKeys) (h : t.openElement path key = .ok t') :
    t'.HasDistinctKeys := by
  have helement : (Value.table .header []).HasDistinctKeys :=
    .table List.nodup_nil fun e he => by contradiction
  refine ht.update (fun last last' hlast hlast' => ?_) h
  split at hlast'
  · next hkey =>
    rw [← Except.ok.inj hlast']
    exact hlast.push hkey (.tables (by simpa using helement))
  · next latestFirst hkey =>
    have htables := Value.hasDistinctKeys_tables_iff.mp (hlast.of_lookup hkey)
    rw [← Except.ok.inj hlast']
    exact hlast.replace (.tables (List.forall_mem_cons.mpr ⟨helement, htables⟩))
  · contradiction

end Table

/-- Braces insert one entry after the other. -/
theorem hasDistinctKeys_of_inlineTable {entries : List (Key × Value)} {t : Table}
    (hvalues : ∀ e ∈ entries, e.2.HasDistinctKeys) (h : inlineTable entries = .ok t) :
    t.HasDistinctKeys :=
  foldlM_induction (P := Table.HasDistinctKeys)
    (fun _ ht e he _ ht' => Table.HasDistinctKeys.insert (hvalues e he) ht ht')
    Entries.HaveDistinctKeys.nil h

/-- **A statement** keeps the keys of the document distinct. -/
theorem Draft.hasDistinctKeys_run {d d' : Draft} {statement : Statement}
    (hvalue : ∀ key value, statement = .entry key value → value.HasDistinctKeys)
    (hd : d.root.HasDistinctKeys) (h : d.run statement = .ok d') : d'.root.HasDistinctKeys := by
  cases statement with
  | entry key value =>
    obtain ⟨root, hroot, hd'⟩ := bind_eq_ok_iff.mp h
    rw [← Except.ok.inj hd']
    exact hd.update
      (fun last last' hlast hlast' => hlast.insert (hvalue key value rfl) hlast') hroot
  | table key =>
    obtain ⟨root, hroot, hd'⟩ := bind_eq_ok_iff.mp h
    rw [← Except.ok.inj hd']
    exact hd.openTable hroot
  | element key =>
    obtain ⟨root, hroot, hd'⟩ := bind_eq_ok_iff.mp h
    rw [← Except.ok.inj hd']
    exact hd.openElement hroot

/-! ### What the grammar reads -/

open Reader

theorem integer_yields (negative : Bool) (base : Nat) (digits : List Char) :
    (integer negative base digits).Yields Value.HasDistinctKeys :=
  yields_bind fun _ => yields_pure (.integer _)

theorem radixInteger_yields (mark : Char) (base : Nat) (isDigit : Char → Bool) :
    (radixInteger mark base isDigit).Yields Value.HasDistinctKeys :=
  yields_bind fun _ => yields_bind fun _ => integer_yields _ _ _

/-- Values without parts have no keys at all. -/
theorem scalar_yields : scalar.Yields Value.HasDistinctKeys := by
  have hstring : string.Yields Value.HasDistinctKeys :=
    yields_bind fun _ => yields_pure (.string _)
  have hboolean : ∀ text b, (literal text *> pure (.boolean b)).Yields Value.HasDistinctKeys :=
    fun _ b => yields_seqRight (yields_pure (.boolean b))
  have hdatetime : datetime.Yields Value.HasDistinctKeys :=
    yields_bind fun _ => yields_pure .datetime
  have hfloat : decimalFloat.Yields Value.HasDistinctKeys :=
    yields_bind fun _ => yields_bind fun _ => yields_bind fun _ => yields_bind fun _ =>
      yields_bind fun _ => yields_bind fun _ => yields_pure (.float _)
  have hspecial : specialFloat.Yields Value.HasDistinctKeys :=
    yields_bind fun _ => (yields_bind fun _ => yields_pure (.float _)).orElse
      (yields_bind fun _ => yields_pure (.float _))
  have hdecimal : decimalInteger.Yields Value.HasDistinctKeys :=
    yields_bind fun _ => yields_bind fun _ => integer_yields _ _ _
  exact hstring.orElse <| (hboolean _ _).orElse <| (hboolean _ _).orElse <| hdatetime.orElse <|
    hfloat.orElse <| hspecial.orElse <| (radixInteger_yields _ _ _).orElse <|
    (radixInteger_yields _ _ _).orElse <| (radixInteger_yields _ _ _).orElse hdecimal

variable {item : Reader Value}

theorem array_yields (hitem : item.Yields Value.HasDistinctKeys) :
    (array item).Yields Value.HasDistinctKeys := by
  have hpadded : (do gap; let v ← item; gap; return v).Yields Value.HasDistinctKeys :=
    yields_bind fun _ => hitem.bind fun _ hv => yields_bind fun _ => yields_pure hv
  have hitems : (do
      let items ← sepBy1 (do gap; let v ← item; gap; return v) (char ',')
      let _ ← opt (char ',')
      return items).Yields fun items => ∀ v ∈ items, v.HasDistinctKeys :=
    hpadded.sepBy1.bind fun _ hvs => yields_bind fun _ => yields_pure hvs
  exact yields_bind fun _ => (hitems.orElse (yields_pure fun v hv => by contradiction)).bind
    fun _ hvs => yields_bind fun _ => yields_bind fun _ => yields_pure (.array hvs)

/-- The value of an entry is read by the reader of values. -/
theorem keyValue_yields (hitem : item.Yields Value.HasDistinctKeys) :
    (keyValue item).Yields fun e => e.2.HasDistinctKeys := by
  have hvalue : (do let _ ← char '='; blanks; item).Yields Value.HasDistinctKeys :=
    yields_bind fun _ => yields_bind fun _ => hitem
  exact yields_bind fun _ => hvalue.need.bind fun _ hv => yields_pure hv

/-- A table in braces has distinct keys if the values in it have. -/
theorem inline_yields (inArray : Bool) (hitem : item.Yields Value.HasDistinctKeys) :
    (inline inArray item).Yields Value.HasDistinctKeys := by
  have hentry : (do let e ← keyValue item; blanks; return e).Yields
      fun e => e.2.HasDistinctKeys :=
    (keyValue_yields hitem).bind fun _ he => yields_bind fun _ => yields_pure he
  refine yields_bind fun _ => hentry.sepBy.bind fun entries hentries => yields_bind fun _ => ?_
  -- entries that contradict each other make no table, in an array or not
  cases htable : inlineTable entries with
  | error fault =>
    cases inArray with
    | true => exact (yields_failure (P := fun _ => False)).bind fun t ht => ht.elim
    | false =>
      have hnone : (ofExcept (.error fault : Except Fault Table)).Yields fun _ => False :=
        yields_ofExcept fun t h => by contradiction
      exact hnone.bind fun t ht => ht.elim
  | ok t =>
    refine (yields_pure (P := Table.HasDistinctKeys) ?_).bind fun t ht =>
      yields_bind fun _ => yields_pure ht.toValue
    exact hasDistinctKeys_of_inlineTable hentries htable

/-- **Every value that is read** has distinct keys. -/
theorem value_yields (inArray : Bool) (depth : Nat) :
    (value inArray depth).Yields Value.HasDistinctKeys := by
  induction depth generalizing inArray with
  | zero => exact scalar_yields
  | succ depth ih =>
    exact scalar_yields.orElse ((array_yields (ih true)).orElse (inline_yields inArray (ih false)))

/-- An entry that a line of the document makes has a value with distinct keys. -/
theorem line_yields :
    line.Yields fun statement => ∀ key value, statement = some (.entry key value) →
      value.HasDistinctKeys := by
  have hstatement : (elementHeader <|> tableHeader <|> entry).Yields fun statement =>
      ∀ key value, statement = .entry key value → value.HasDistinctKeys := by
    refine Yields.orElse ?_ (Yields.orElse ?_ ?_)
    · refine yields_bind fun _ => yields_bind fun _ => yields_bind fun _ => yields_pure ?_
      intro key value h
      contradiction
    · refine yields_bind fun _ => yields_bind fun _ => yields_bind fun _ => yields_pure ?_
      intro key value h
      contradiction
    · refine (keyValue_yields (value_yields false _)).bind fun e he => yields_pure ?_
      rintro key value h
      obtain ⟨-, rfl⟩ := Statement.entry.inj h
      exact he
  refine yields_bind fun _ => hstatement.opt.bind fun o ho => yields_bind fun _ => yields_pure ?_
  intro key value h
  exact ho _ h key value rfl

/-- **Statement by statement**, the keys of the document stay distinct. -/
theorem draftAlong_yields (along : List Char) {d : Draft} (hd : d.root.HasDistinctKeys) :
    (draftAlong along d).Yields fun d' => d'.root.HasDistinctKeys := by
  induction along generalizing d with
  | nil => exact yields_pure hd
  | cons c along ih =>
    refine yields_bind fun atEnd => ?_
    cases atEnd with
    | true => exact yields_pure hd
    | false =>
      refine line_yields.need.bind fun statement hstatement => ?_
      cases statement with
      | none => exact ih hd
      | some statement =>
        have hrun : (ofExcept (d.run statement)).Yields fun d' => d'.root.HasDistinctKeys :=
          yields_ofExcept fun d' h => d.hasDistinctKeys_run
            (fun key value heq => hstatement key value (congrArg some heq)) hd h
        exact hrun.bind fun d' hd' => ih hd'

/-- **The entries of a well-formed text** have distinct keys, at every level. -/
theorem haveDistinctKeys_of_parse {text : String} {entries : Entries}
    (h : parse text = .ok entries) : entries.HaveDistinctKeys := by
  rw [parse] at h
  split at h
  · next d rest hdone =>
    rw [← Except.ok.inj h]
    exact draftAlong_yields _ (d := {}) Entries.HaveDistinctKeys.nil _ d rest hdone
  · contradiction
  · contradiction

end ScriptTags.Toml
