import Mathlib.Data.Prod.Lex
import ScriptTags.Output.Ctags
import ScriptTags.Proofs.Encoding
import ScriptTags.Proofs.Sorting

/-!
# Sorted tag files are canonical

Readers search a sorted tag file by halves, and people compare one with the next. Both rely on its
order, which is that of the **keys** of the entries (`Ctags.Entry.key`): the bytes of the name, then
those of the file, then the number of the line. The order of the scan is left in one place only,
among entries of the same key.

If each file is scanned to one result and each line has one tag, entries of the same key are
**equal** (`Ctags.eq_of_key_eq`), and nothing of the order of the scan is left: permuted lists of
files have one sorted list of entries (`Ctags.sortEntries_eq_of_perm`).
-/

namespace ScriptTags

namespace Ctags

/-- The **key** of an entry: the bytes of its name, those of its file, and its line. Keys are
ordered lexicographically. -/
def Entry.key (e : Entry) : Bytes ×ₗ Bytes ×ₗ Nat :=
  toLex (Utf8.encode e.tag.name, toLex (Utf8.encode e.file, e.tag.line))

variable {a b e : Entry} {es : List Entry} {files : List TagFile}

theorem Entry.key_eq_iff :
    a.key = b.key ↔ a.tag.name = b.tag.name ∧ a.file = b.file ∧ a.tag.line = b.tag.line := by
  simp only [key, toLex_inj, Prod.mk.injEq, Utf8.encode_injective.eq_iff]

theorem compare_bytes_eq_lt_iff {bytes bytes' : Bytes} :
    compare bytes bytes' = .lt ↔ bytes < bytes' :=
  compare_list_eq_lt_iff (fun _ _ => Std.compare_eq_lt) bytes bytes'

/-- Entries are compared by their keys. -/
theorem Entry.isLE_compare_iff : (a.compare b).isLE = true ↔ a.key ≤ b.key := by
  simp only [Entry.compare, compareLex, compareOn, Ordering.isLE_then_iff_or, key,
    Prod.Lex.toLex_le_toLex, compare_bytes_eq_lt_iff, Std.LawfulEqOrd.compare_eq_iff_eq,
    Std.isLE_compare]

/-- Entries that compare equal have the same key. -/
theorem Entry.compare_eq_eq_iff : a.compare b = .eq ↔ a.key = b.key := by
  simp only [Entry.compare, compareLex, compareOn, Ordering.then_eq_eq,
    Std.LawfulEqOrd.compare_eq_iff_eq, key, toLex_inj, Prod.mk.injEq]

instance : Std.TransCmp Entry.compare := by
  unfold Entry.compare
  infer_instance

/-! ### What sorting does -/

theorem sortEntries_perm (es : List Entry) : (sortEntries es).Perm es :=
  List.mergeSort_perm es _

theorem pairwise_sortEntries (es : List Entry) :
    (sortEntries es).Pairwise fun a b => a.key ≤ b.key :=
  (pairwise_mergeSort_isLE es).imp Entry.isLE_compare_iff.mp

/-- Entries of the same key keep their order. -/
theorem filter_sortEntries (es : List Entry) (k : Bytes ×ₗ Bytes ×ₗ Nat) :
    ((sortEntries es).filter fun e => e.key = k) = es.filter fun e => e.key = k := by
  refine filter_mergeSort_isLE (fun a b ha hb => ?_) es
  rw [decide_eq_true_eq] at ha hb
  have heq : a.compare b = .eq := Entry.compare_eq_eq_iff.mpr (ha.trans hb.symm)
  rw [heq]
  rfl

/-- Sorting forgets the order of entries that their keys tell apart. -/
theorem sortEntries_eq_of_perm {es' : List Entry} (h : es'.Perm es)
    (hkey : ∀ a ∈ es, ∀ b ∈ es, a.key = b.key → a = b) : sortEntries es' = sortEntries es := by
  have hperm : (sortEntries es').Perm (sortEntries es) :=
    (sortEntries_perm es').trans (h.trans (sortEntries_perm es).symm)
  refine hperm.eq_of_pairwise (fun a b ha hb hab hba => ?_) (pairwise_mergeSort_isLE es')
    (pairwise_mergeSort_isLE es)
  have heq : a.compare b = .eq := Std.OrientedCmp.isLE_antisymm hab hba
  have ha' : a ∈ es := (sortEntries_perm es).mem_iff.mp (hperm.mem_iff.mp ha)
  have hb' : b ∈ es := (sortEntries_perm es).mem_iff.mp hb
  exact hkey a ha' b hb' (Entry.compare_eq_eq_iff.mp heq)

/-! ### The entries of files -/

/-- An entry is a tag of a file together with the name of that file. -/
theorem mem_entries_iff : e ∈ entries files ↔ ∃ f ∈ files, e.file = f.file ∧ e.tag ∈ f.tags := by
  simp only [entries, List.mem_flatMap, List.mem_map]
  constructor
  · rintro ⟨f, hf, tag, htag, rfl⟩
    exact ⟨f, hf, rfl, htag⟩
  · rintro ⟨f, hf, hfile, htag⟩
    exact ⟨f, hf, e.tag, htag, by rw [← hfile]⟩

/-- **Keys tell entries apart**, if each file is scanned to one result and each of its lines has one
tag. -/
theorem eq_of_key_eq (hsame : ∀ f ∈ files, ∀ g ∈ files, f.file = g.file → f = g)
    (hlines : ∀ f ∈ files, f.tags.Pairwise fun t u => t.line ≠ u.line) (ha : a ∈ entries files)
    (hb : b ∈ entries files) (h : a.key = b.key) : a = b := by
  obtain ⟨-, hfile, hline⟩ := Entry.key_eq_iff.mp h
  obtain ⟨f, hf, haf, hatag⟩ := mem_entries_iff.mp ha
  obtain ⟨g, hg, hbg, hbtag⟩ := mem_entries_iff.mp hb
  obtain rfl : f = g := hsame f hf g hg (by rw [← haf, ← hbg, hfile])
  have hsymm : Std.Symm fun t u : Tag => t.line ≠ u.line := ⟨fun _ _ => Ne.symm⟩
  have htag : a.tag = b.tag := by
    by_contra hne
    exact (hlines f hf).forall hatag hbtag hne hline
  obtain ⟨aFile, aTag⟩ := a
  obtain ⟨bFile, bTag⟩ := b
  rw [Entry.mk.injEq]
  exact ⟨hfile, htag⟩

/-- The text of a tag file: the pseudo-tags and the lines of the entries, each ended by a line
feed. -/
theorem toList_text (files : List TagFile) (sorted : Bool) :
    (text files sorted).toList =
      ((header sorted).flatMap fun l => l ++ ['\n']) ++
        ((if sorted then sortEntries (entries files) else entries files).flatMap fun e =>
          e.line ++ ['\n']) := by
  simp only [text, lines, String.toList_ofList, List.flatMap_append, List.flatMap_map]

/-- **Sorted tag files are canonical.** The lines of a sorted tag file are those of the unsorted
one, rearranged so that their keys do not decrease and entries of the same key keep their order. If
each file is scanned to one result and each line of it has one tag, then the sorted tag file does
not depend on the order of the files. -/
theorem text_sorted_canonical (files : List TagFile) :
    (∃ order : List Entry,
      order.Perm (entries files) ∧
      (order.Pairwise fun a b => a.key ≤ b.key) ∧
      (∀ k, (order.filter fun e => e.key = k) = (entries files).filter fun e => e.key = k) ∧
      (text files true).toList = ((header true).flatMap fun l => l ++ ['\n']) ++
        order.flatMap (fun e => e.line ++ ['\n']) ∧
      (text files false).toList = ((header false).flatMap fun l => l ++ ['\n']) ++
        (entries files).flatMap (fun e => e.line ++ ['\n'])) ∧
    ((∀ f ∈ files, ∀ g ∈ files, f.file = g.file → f = g) →
      (∀ f ∈ files, f.tags.Pairwise fun t u => t.line ≠ u.line) →
      ∀ files' : List TagFile, files'.Perm files → text files' true = text files true) := by
  constructor
  · exact ⟨sortEntries (entries files), sortEntries_perm _, pairwise_sortEntries _,
      filter_sortEntries _, toList_text files true, toList_text files false⟩
  · intro hsame hlines files' hperm
    have hentries : (entries files').Perm (entries files) := hperm.flatMap_right _
    have hsort : sortEntries (entries files') = sortEntries (entries files) :=
      sortEntries_eq_of_perm hentries fun a ha b hb h => eq_of_key_eq hsame hlines ha hb h
    rw [← String.toList_inj, toList_text, toList_text, if_pos rfl, if_pos rfl, hsort]

/-- Two scripts with a name in common, of which one is given twice. -/
def scriptsInCommon : List TagFile :=
  [⟨"b.sh", "sh", [⟨"zeta", .function, 1, "zeta()"⟩, ⟨"alpha", .function, 2, "alpha()"⟩]⟩,
    ⟨"b.sh", "sh", [⟨"zeta", .function, 1, "zeta()"⟩, ⟨"alpha", .function, 2, "alpha()"⟩]⟩,
    ⟨"a.sh", "sh", [⟨"alpha", .function, 9, "alpha()"⟩]⟩]

/-- The order in which these are given shows in the order of the scan only. -/
theorem text_sorted_canonical_scriptsInCommon :
    (∀ f ∈ scriptsInCommon, ∀ g ∈ scriptsInCommon, f.file = g.file → f = g) ∧
    (∀ f ∈ scriptsInCommon, f.tags.Pairwise fun t u => t.line ≠ u.line) ∧
    text scriptsInCommon.reverse true = text scriptsInCommon true ∧
    entries scriptsInCommon.reverse ≠ entries scriptsInCommon := by
  have hsame : ∀ f ∈ scriptsInCommon, ∀ g ∈ scriptsInCommon, f.file = g.file → f = g := by
    decide
  have hlines : ∀ f ∈ scriptsInCommon, f.tags.Pairwise fun t u => t.line ≠ u.line := by decide
  exact ⟨hsame, hlines, (text_sorted_canonical scriptsInCommon).2 hsame hlines _
    (List.reverse_perm scriptsInCommon), by decide⟩

end Ctags

end ScriptTags
