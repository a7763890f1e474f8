/-!
# Pieces between separators

Paths are cut at solidi, tag files at line feeds, and their lines at tabs. What a cut gives is free
of the separator and comes out of what was cut (`of_mem_splitOn`), and a cut gives back the parts
that separators end, if none of them holds one (`splitOn_flatMap_ended`).
-/

namespace ScriptTags

variable {α : Type} [BEq α] [LawfulBEq α] {separator : α} {text piece : List α}

/-- The pieces of a text come out of it, and no separator is left in them. -/
theorem of_mem_splitOn (h : piece ∈ text.splitOn separator) : separator ∉ piece ∧ piece ⊆ text := by
  induction text generalizing piece with
  | nil =>
    rw [List.splitOn_nil, List.mem_singleton] at h
    subst h
    simp
  | cons first text ih =>
    rw [List.splitOn_cons_eq_if_modifyHead] at h
    obtain ⟨front, others, hsplit⟩ :=
      List.exists_cons_of_ne_nil (List.splitOn_ne_nil separator text)
    rw [hsplit] at h ih
    split at h
    · rcases List.mem_cons.mp h with rfl | hmem
      · simp
      · obtain ⟨hnot, hsub⟩ := ih hmem
        exact ⟨hnot, List.Subset.trans hsub (List.subset_cons_self first text)⟩
    · next hfirst =>
      have hne : separator ≠ first := fun heq => hfirst (by simp [heq])
      rw [List.modifyHead_cons, List.mem_cons] at h
      rcases h with rfl | hmem
      · obtain ⟨hnot, hsub⟩ := ih List.mem_cons_self
        exact ⟨by simp [hne, hnot], List.cons_subset_cons first hsub⟩
      · obtain ⟨hnot, hsub⟩ := ih (List.mem_cons_of_mem front hmem)
        exact ⟨hnot, List.Subset.trans hsub (List.subset_cons_self first text)⟩

/-- Parts that a separator ends are what a cut gives back, with an empty piece behind the last. -/
theorem splitOn_flatMap_ended {parts : List (List α)} (h : ∀ part ∈ parts, separator ∉ part) :
    (parts.flatMap fun part => part ++ [separator]).splitOn separator = parts ++ [[]] := by
  induction parts with
  | nil => exact List.splitOn_nil separator
  | cons part parts ih =>
    rw [List.forall_mem_cons] at h
    rw [List.flatMap_cons, List.append_assoc, List.singleton_append,
      List.splitOn_append_cons_self_of_not_mem h.1, ih h.2]
    rfl

end ScriptTags
