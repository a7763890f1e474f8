import Mathlib.Data.List.Pairwise

/-!
# Sorting by a comparison

Paths and entries are sorted by a **comparison** of their keys, and both comparisons are built from
those of numbers, list by list and level by level. What a sort by any such comparison does is stated
here once: its result increases (`pairwise_mergeSort_isLE`), and elements that the comparison does
not tell apart come out in the order in which they went in (`filter_mergeSort_isLE`).
-/

namespace ScriptTags

/-- The order of lists that sorting compares by is the lexicographic one. -/
theorem compare_list_eq_lt_iff {α : Type} [Ord α] [LT α] [Std.LawfulEqOrd α]
    (h : ∀ a b : α, compare a b = .lt ↔ a < b) (l l' : List α) : compare l l' = .lt ↔ l < l' := by
  induction l generalizing l' with
  | nil => cases l' <;> simp
  | cons a l ih =>
    cases l' with
    | nil => simp
    | cons b l' =>
      rw [List.compare_cons_cons, Ordering.then_eq_lt, List.cons_lt_cons_iff, h, ih,
        Std.LawfulEqOrd.compare_eq_iff_eq]

section Comparison

variable {α : Type} {cmp : α → α → Ordering} [Std.TransCmp cmp]

theorem isLE_total (a b : α) : ((cmp a b).isLE || (cmp b a).isLE) = true := by
  have hswap : cmp b a = (cmp a b).swap := Std.OrientedCmp.eq_swap
  rw [hswap]
  cases cmp a b <;> rfl

/-- A sorted list increases. -/
theorem pairwise_mergeSort_isLE (l : List α) :
    (l.mergeSort fun a b => (cmp a b).isLE).Pairwise fun a b => (cmp a b).isLE = true :=
  List.pairwise_mergeSort (fun _ _ _ => Std.TransCmp.isLE_trans) isLE_total l

/-- **Sorting is stable**: elements that the comparison does not tell apart keep their order. -/
theorem filter_mergeSort_isLE {p : α → Bool}
    (hp : ∀ a b, p a = true → p b = true → (cmp a b).isLE = true) (l : List α) :
    (l.mergeSort fun a b => (cmp a b).isLE).filter p = l.filter p := by
  have hequal : (l.filter p).Pairwise fun a b => (cmp a b).isLE = true :=
    List.pairwise_of_forall_mem_list fun a ha b hb =>
      hp a b (List.mem_filter.mp ha).2 (List.mem_filter.mp hb).2
  have hsub : (l.filter p).Sublist (l.mergeSort fun a b => (cmp a b).isLE) :=
    List.sublist_mergeSort (fun _ _ _ => Std.TransCmp.isLE_trans) isLE_total hequal
      List.filter_sublist
  -- the two sides have one length, so that one cannot be a proper part of the other
  have hfiltered := hsub.filter p
  rw [List.filter_filter] at hfiltered
  simp only [Bool.and_self] at hfiltered
  have hlength := ((List.mergeSort_perm l fun a b => (cmp a b).isLE).filter p).length_eq
  exact (hfiltered.eq_of_length hlength.symm).symm

end Comparison

end ScriptTags
