import ScriptTags.Text.Bytes

/-!
# Runs of bytes

Readers of byte strings take the longest run of a byte class and go on after it. A **run** and what
**stops** it are described here without a reader: every byte string is a run and what stops it
(`Bytes.exists_run_append`), and whatever is taken apart in this way is what the reader takes apart
(`Bytes.takeWhile_run_append`, `Bytes.dropWhile_run_append`).
-/

namespace ScriptTags.Bytes

/-- A **run** of the class `p`: every byte is in the class. -/
def IsRun (p : Byte → Bool) (run : Bytes) : Prop :=
  ∀ b ∈ run, p b = true

/-- What **stops** a run of the class `p`: the end, or a byte outside the class. -/
def Stops (p : Byte → Bool) (rest : Bytes) : Prop :=
  ∀ b ∈ rest.head?, p b = false

instance (p : Byte → Bool) (run : Bytes) : Decidable (IsRun p run) :=
  decidable_of_iff (run.all p = true) List.all_eq_true

variable {p : Byte → Bool} {run rest : Bytes}

theorem isRun_takeWhile (p : Byte → Bool) (bytes : Bytes) : IsRun p (bytes.takeWhile p) := by
  have hall := List.all_takeWhile (p := p) (l := bytes)
  exact List.all_eq_true.mp hall

theorem stops_dropWhile (p : Byte → Bool) (bytes : Bytes) : Stops p (bytes.dropWhile p) := by
  intro b hb
  have hnot := List.head?_dropWhile_not p bytes
  rw [Option.mem_def.mp hb] at hnot
  simpa using hnot

/-- Every byte string splits into a run of the class and what stops it. -/
theorem exists_run_append (p : Byte → Bool) (bytes : Bytes) :
    ∃ run rest, IsRun p run ∧ Stops p rest ∧ bytes = run ++ rest :=
  ⟨bytes.takeWhile p, bytes.dropWhile p, isRun_takeWhile p bytes,
    stops_dropWhile p bytes, List.takeWhile_append_dropWhile.symm⟩

/-- Seen from the end, every byte string splits into a run of the class and what stops it. -/
theorem exists_append_run (p : Byte → Bool) (bytes : Bytes) :
    ∃ front run, IsRun p run ∧ (∀ b ∈ front.getLast?, p b = false) ∧ bytes = front ++ run := by
  obtain ⟨run, rest, hrun, hrest, hbytes⟩ := exists_run_append p bytes.reverse
  refine ⟨rest.reverse, run.reverse, fun b hb => hrun b (List.mem_reverse.mp hb), ?_, ?_⟩
  · rw [List.getLast?_reverse]
    exact hrest
  · rw [← List.reverse_append, ← hbytes, List.reverse_reverse]

theorem stops_cons {b : Byte} : Stops p (b :: rest) ↔ p b = false := by
  simp [Stops]

theorem Stops.takeWhile_eq_nil (h : Stops p rest) : rest.takeWhile p = [] := by
  cases rest with
  | nil => rfl
  | cons b rest => simp [stops_cons.mp h]

theorem Stops.dropWhile_eq_self (h : Stops p rest) : rest.dropWhile p = rest := by
  cases rest with
  | nil => rfl
  | cons b rest => simp [stops_cons.mp h]

/-- A run that is stopped is the longest one. -/
theorem takeWhile_run_append (hrun : IsRun p run) (hrest : Stops p rest) :
    (run ++ rest).takeWhile p = run := by
  rw [List.takeWhile_append_of_pos hrun, hrest.takeWhile_eq_nil, List.append_nil]

/-- What stops a run is what is left after the longest one. -/
theorem dropWhile_run_append (hrun : IsRun p run) (hrest : Stops p rest) :
    (run ++ rest).dropWhile p = rest := by
  rw [List.dropWhile_append_of_pos hrun, hrest.dropWhile_eq_self]

/-! ### Readers stop where a class is left

What stops a class stops every smaller one. So a reader of the class, or of a smaller one, gets no
further than to what stops it, and what it reads before does not depend on that. -/

/-- What stops a class stops every smaller one. -/
theorem Stops.mono {q : Byte → Bool} (h : Stops p rest) (hqp : ∀ b, q b = true → p b = true) :
    Stops q rest := by
  intro b hb
  rw [Bool.eq_false_iff]
  intro hq
  exact Bool.eq_false_iff.mp (h b hb) (hqp b hq)

/-- A run is not longer for what stops it. -/
theorem Stops.takeWhile_append (h : Stops p rest) (bytes : Bytes) :
    (bytes ++ rest).takeWhile p = bytes.takeWhile p := by
  induction bytes with
  | nil => exact h.takeWhile_eq_nil
  | cons b bytes ih => rw [List.cons_append, List.takeWhile_cons, List.takeWhile_cons, ih]

/-- What stops a run is still there after it. -/
theorem Stops.dropWhile_append (h : Stops p rest) (bytes : Bytes) :
    (bytes ++ rest).dropWhile p = bytes.dropWhile p ++ rest := by
  induction bytes with
  | nil => exact h.dropWhile_eq_self
  | cons b bytes ih =>
    rw [List.cons_append, List.dropWhile_cons, List.dropWhile_cons, ih]
    split <;> rfl

theorem Stops.head?_append_eq_some_iff {b : Byte} (h : Stops p rest) (hb : p b = true)
    (bytes : Bytes) : (bytes ++ rest).head? = some b ↔ bytes.head? = some b := by
  cases bytes with
  | nil =>
    refine iff_of_false (fun hhead => ?_) (by simp)
    rw [h b hhead] at hb
    contradiction
  | cons first bytes => rfl

/-- A run of the class stands in front exactly when it stands in front of what stops the class. -/
theorem Stops.prefix_append_iff (h : Stops p rest) (hrun : IsRun p run) (bytes : Bytes) :
    run <+: bytes ++ rest ↔ run <+: bytes := by
  constructor
  · rintro ⟨tail, htail⟩
    have hlongest : run ++ tail.takeWhile p = bytes.takeWhile p := by
      rw [← List.takeWhile_append_of_pos hrun, htail, h.takeWhile_append]
    exact List.IsPrefix.trans ⟨tail.takeWhile p, hlongest⟩ (List.takeWhile_prefix p)
  · exact fun hpre => hpre.trans (List.prefix_append bytes rest)

/-- A nonempty run of one class stops every class that is disjoint from it. -/
theorem IsRun.stops_append {q : Byte → Bool} (hrun : IsRun p run) (hne : run ≠ [])
    (hdisj : ∀ b, p b = true → q b = false) (rest : Bytes) : Stops q (run ++ rest) := by
  obtain ⟨b, tail, rfl⟩ := List.exists_cons_of_ne_nil hne
  exact stops_cons.mpr (hdisj b (hrun b List.mem_cons_self))

end ScriptTags.Bytes
