import ScriptTags.Script.Cursor

/-!
# How a cursor moves

A cursor is asked for one **operation** after another, and the position is what it carries from one
to the next. A position is a 64-bit word. Where an operation takes a distance from outside, the
distance is added to the position first and clamped to the end of the bytes after that, so the sum
may leave the word: it does so exactly when the operation does not **fit** (`Cursor.Fits`).

An operation that fits moves the cursor forward over the bytes it reads, in a program with overflow
checks as in one without (`Cursor.Valid.exists_movesBy`). One that does not fit stops the former; in
the latter it moves the cursor back, or reads a byte that has been read before, and still leaves the
position within the bytes (`Cursor.Valid.after`). So a run keeps what a cursor promises exactly when
every operation on it fits (`Cursor.run_keeps_iff`), and this is all that can go wrong.
-/

namespace ScriptTags.Cursor

/-- The **operations** of a cursor. -/
inductive Operation where
  | peek
  | peekAt (offset : UInt64)
  | bump
  | advance (n : UInt64)
  | startsWith (literal : Bytes)
  | takeWhile (p : Byte → Bool)
  | skipWhitespace
  | rest

/-- The cursor **after** an operation. -/
def after (o : Overflow) (c : Cursor) : Operation → Except Panic Cursor
  | .peek | .startsWith _ | .rest => .ok c
  | .peekAt offset => (c.peekAt o offset).map fun _ => c
  | .bump => .ok c.bump.2
  | .advance n => c.advance o n
  | .takeWhile p => .ok (c.takeWhile p).2
  | .skipWhitespace => .ok c.skipWhitespace

/-- The cursor after a **run** of operations. -/
def run (o : Overflow) (c : Cursor) (operations : List Operation) : Except Panic Cursor :=
  operations.foldlM (after o) c

/-- The bytes that an operation **consumes**: those it returns and those it is told to pass over. -/
def consumes (c : Cursor) : Operation → Bytes
  | .peek | .peekAt _ | .startsWith _ | .rest => []
  | .bump => c.bump.1.toList
  | .advance n => c.rest.take n.toNat
  | .takeWhile p => (c.takeWhile p).1
  | .skipWhitespace => (c.takeWhile Byte.isSpace).1

/-- The bytes that a run consumes, operation by operation, as long as nothing stops it. -/
def consumed (o : Overflow) : Cursor → List Operation → Bytes
  | _, [] => []
  | c, operation :: operations =>
    c.consumes operation ++
      match c.after o operation with
      | .ok c' => c'.consumed o operations
      | .error _ => []

/-- The **distance** that is added to the position before anything is clamped. -/
def Operation.distance : Operation → Nat
  | .peekAt offset => offset.toNat
  | .advance n => n.toNat
  | _ => 0

/-- An operation **fits** when the position and its distance add up to a word. -/
def Fits (c : Cursor) (operation : Operation) : Prop :=
  c.pos.toNat + operation.distance < UInt64.size

instance (c : Cursor) (operation : Operation) : Decidable (c.Fits operation) :=
  inferInstanceAs (Decidable (c.pos.toNat + operation.distance < UInt64.size))

/-- **What a cursor promises** of an operation that leads from `c` to `c'`: it moves forward within
the bytes and over what it consumes; advancing leaves what the distance leaves of the unread bytes;
and looking ahead finds the unread byte at the offset, if there is one. -/
structure Promised (o : Overflow) (c : Cursor) (operation : Operation) (c' : Cursor) : Prop where
  after_eq : c.after o operation = .ok c'
  pos_le : c.pos ≤ c'.pos
  pos_le_length : c'.pos.toNat ≤ c.bytes.length
  consumes_append_rest : c.consumes operation ++ c'.rest = c.rest
  length_rest_advance : ∀ n, operation = .advance n →
    c'.rest.length = c.rest.length - n.toNat
  peekAt_eq : ∀ offset, operation = .peekAt offset →
    c.peekAt o offset = .ok c.rest[offset.toNat]?

/-- An operation **keeps** the promise: nothing stops it, and it does what is promised. -/
def Keeps (o : Overflow) (c : Cursor) (operation : Operation) : Prop :=
  ∃ c', c.Promised o operation c'

/-- What holds of every operation **along** a run, at the cursor that it meets. -/
def Along (o : Overflow) (P : Cursor → Operation → Prop) : Cursor → List Operation → Prop
  | _, [] => True
  | c, operation :: operations =>
    P c operation ∧ ∀ c', c.after o operation = .ok c' → Along o P c' operations

/-- A **valid** cursor: the length of its bytes is a word, and it stands within them. -/
structure Valid (c : Cursor) : Prop where
  length_lt : c.bytes.length < UInt64.size
  pos_le : c.pos.toNat ≤ c.bytes.length

variable {o : Overflow} {c c' : Cursor} {k : Nat} {n : UInt64} {operation : Operation}
  {operations : List Operation}

/-! ### Words -/

theorem length_rest (c : Cursor) : c.rest.length = c.bytes.length - c.pos.toNat :=
  List.length_drop

/-- A sum that leaves the word comes out below the position. -/
theorem toNat_add_lt_of_not_fits (h : UInt64.size ≤ c.pos.toNat + n.toNat) :
    (c.pos + n).toNat < c.pos.toNat := by
  have hpos := c.pos.toNat_lt_size
  have hn := n.toNat_lt_size
  rw [UInt64.toNat_add]
  simp only [UInt64.size] at h hpos hn
  omega

theorem Valid.toNat_size (h : c.Valid) : c.size.toNat = c.bytes.length :=
  UInt64.toNat_ofNat_of_lt' h.length_lt

/-- Advancing clamps a sum to the length, whether the sum has wrapped around or not. -/
theorem Valid.toNat_min_size (h : c.Valid) (sum : UInt64) :
    (min sum c.size).toNat =
      if sum.toNat ≤ c.bytes.length then sum.toNat else c.bytes.length := by
  have hmin : min sum c.size = if sum ≤ c.size then sum else c.size := rfl
  simp only [hmin, UInt64.le_iff_toNat_le, h.toNat_size]
  split
  · rfl
  · exact h.toNat_size

/-! ### Forward moves -/

/-- The cursor `c'` stands `k` unread bytes **further on** in the same bytes. -/
structure MovesBy (c c' : Cursor) (k : Nat) : Prop where
  bytes_eq : c'.bytes = c.bytes
  pos_eq : c'.pos.toNat = c.pos.toNat + k
  le_length_rest : k ≤ c.rest.length

theorem movesBy_zero (c : Cursor) : c.MovesBy c 0 :=
  ⟨rfl, rfl, Nat.zero_le _⟩

/-- The position is moved by as many bytes as there are unread bytes to move over. -/
theorem Valid.movesBy_add (h : c.Valid) (hk : k ≤ c.rest.length) :
    c.MovesBy { c with pos := c.pos + UInt64.ofNat k } k := by
  have hlength := h.length_lt
  have hpos := h.pos_le
  have hrest := c.length_rest
  have hword : (UInt64.ofNat k).toNat = k := UInt64.toNat_ofNat_of_lt' (by omega)
  refine ⟨rfl, ?_, hk⟩
  rw [Overflow.toNat_add_of_lt (by omega), hword]

/-- A move leaves what it has not consumed. -/
theorem MovesBy.rest_eq (h : c.MovesBy c' k) : c'.rest = c.rest.drop k := by
  rw [rest, rest, h.bytes_eq, h.pos_eq, List.drop_drop]

theorem MovesBy.valid (h : c.MovesBy c' k) (hc : c.Valid) : c'.Valid := by
  have hlength := hc.length_lt
  have hpos := hc.pos_le
  have hrest := c.length_rest
  have hk := h.le_length_rest
  have hpos' := h.pos_eq
  exact ⟨by rwa [h.bytes_eq], by rw [h.bytes_eq]; omega⟩

/-- Reading a run of bytes moves over the run. -/
theorem Valid.movesBy_takeWhile (h : c.Valid) (p : Byte → Bool) :
    c.MovesBy (c.takeWhile p).2 (c.takeWhile p).1.length :=
  h.movesBy_add (List.takeWhile_prefix p).length_le

/-- Looking ahead by a distance that fits finds the unread byte there. -/
theorem peekAt_of_fits (o : Overflow) (h : c.pos.toNat + n.toNat < UInt64.size) :
    c.peekAt o n = .ok c.rest[n.toNat]? := by
  rw [peekAt, o.add_of_lt h, rest, List.getElem?_drop, ← Overflow.toNat_add_of_lt h]
  rfl

/-- Advancing by a distance that fits moves over as many unread bytes, or over all there are. -/
theorem Valid.exists_advance_of_fits (h : c.Valid) (o : Overflow)
    (hfits : c.pos.toNat + n.toNat < UInt64.size) :
    ∃ c', c.advance o n = .ok c' ∧ c.MovesBy c' (c.rest.take n.toNat).length := by
  have hsum := Overflow.toNat_add_of_lt hfits
  have hpos := h.pos_le
  have hrest := c.length_rest
  have htaken : (c.rest.take n.toNat).length = min n.toNat c.rest.length := List.length_take
  refine ⟨{ c with pos := min (c.pos + n) c.size }, by rw [advance, o.add_of_lt hfits]; rfl, rfl,
    ?_, (List.take_prefix n.toNat c.rest).length_le⟩
  rw [h.toNat_min_size, hsum, htaken]
  split <;> omega

/-- **What an operation does** if it fits: nothing stops it, it moves over as many unread bytes as
it consumes, and these are the next ones. -/
theorem Valid.exists_movesBy (h : c.Valid) (o : Overflow) (hfits : c.Fits operation) :
    ∃ c' k, c.after o operation = .ok c' ∧ c.MovesBy c' k ∧
      c.consumes operation = c.rest.take k := by
  have htake : ∀ p : Byte → Bool, (c.takeWhile p).1 = c.rest.take (c.takeWhile p).1.length :=
    fun p => List.prefix_iff_eq_take.mp (List.takeWhile_prefix p)
  cases operation with
  | peek | startsWith _ | rest => exact ⟨c, 0, rfl, c.movesBy_zero, rfl⟩
  | peekAt offset =>
    exact ⟨c, 0, by rw [after, peekAt_of_fits o hfits]; rfl, c.movesBy_zero, rfl⟩
  | takeWhile p => exact ⟨_, _, rfl, h.movesBy_takeWhile p, htake p⟩
  | skipWhitespace => exact ⟨_, _, rfl, h.movesBy_takeWhile Byte.isSpace, htake Byte.isSpace⟩
  | bump =>
    have hpeek : c.peek = c.rest[0]? := by rw [peek, rest, List.getElem?_drop, Nat.add_zero]
    rw [after, consumes, bump, hpeek]
    cases hrest : c.rest with
    | nil => exact ⟨c, 0, rfl, c.movesBy_zero, rfl⟩
    | cons b more =>
      have hone : 1 ≤ c.rest.length := by rw [hrest]; simp
      exact ⟨_, 1, rfl, h.movesBy_add hone, rfl⟩
  | advance n =>
    obtain ⟨c', hadvance, hmoves⟩ := h.exists_advance_of_fits o hfits
    exact ⟨c', _, hadvance, hmoves, List.prefix_iff_eq_take.mp (List.take_prefix n.toNat c.rest)⟩

/-- An operation that does not fit is a look ahead or an advance. -/
theorem exists_of_not_fits (h : ¬ c.Fits operation) :
    (∃ offset, operation = .peekAt offset ∧ UInt64.size ≤ c.pos.toNat + offset.toNat) ∨
      ∃ n, operation = .advance n ∧ UInt64.size ≤ c.pos.toNat + n.toNat := by
  rw [Fits, Nat.not_lt] at h
  have hpos := c.pos.toNat_lt_size
  cases operation with
  | peekAt offset => exact .inl ⟨offset, rfl, h⟩
  | advance n => exact .inr ⟨n, rfl, h⟩
  | peek | bump | startsWith _ | takeWhile _ | skipWhitespace | rest =>
    exact absurd h (Nat.not_le.mpr hpos)

theorem peekAt_wraps (c : Cursor) (n : UInt64) :
    c.peekAt .wraps n = .ok c.bytes[(c.pos + n).toNat]? :=
  rfl

theorem advance_wraps (c : Cursor) (n : UInt64) :
    c.advance .wraps n = .ok { c with pos := min (c.pos + n) c.size } :=
  rfl

theorem peekAt_stops_of_le (h : UInt64.size ≤ c.pos.toNat + n.toNat) :
    c.peekAt .stops n = .error .overflow := by
  rw [peekAt, Overflow.stops_add_of_le h]
  rfl

theorem advance_stops_of_le (h : UInt64.size ≤ c.pos.toNat + n.toNat) :
    c.advance .stops n = .error .overflow := by
  rw [advance, Overflow.stops_add_of_le h]
  rfl

/-- An operation that does not fit stops a program with overflow checks. -/
theorem after_stops_of_not_fits (h : ¬ c.Fits operation) :
    c.after .stops operation = .error .overflow := by
  obtain ⟨offset, rfl, hlarge⟩ | ⟨n, rfl, hlarge⟩ := exists_of_not_fits h
  · rw [after, peekAt_stops_of_le hlarge]
    rfl
  · exact advance_stops_of_le hlarge

/-- Nothing stops a program without overflow checks. -/
theorem exists_after_wraps (c : Cursor) (operation : Operation) :
    ∃ c', c.after .wraps operation = .ok c' := by
  cases operation <;> exact ⟨_, rfl⟩

/-! ### What always holds -/

/-- **An operation keeps a cursor valid** if nothing stops it, and leaves its bytes alone. -/
theorem Valid.after (h : c.Valid) (hafter : c.after o operation = .ok c') :
    c'.Valid ∧ c'.bytes = c.bytes := by
  by_cases hfits : c.Fits operation
  · obtain ⟨c₁, k, hafter₁, hmoves, -⟩ := h.exists_movesBy o hfits
    obtain rfl : c₁ = c' := Except.ok.inj (hafter₁.symm.trans hafter)
    exact ⟨hmoves.valid h, hmoves.bytes_eq⟩
  cases o with
  | stops =>
    rw [after_stops_of_not_fits hfits] at hafter
    contradiction
  | wraps =>
    obtain ⟨offset, rfl, -⟩ | ⟨n, rfl, -⟩ := exists_of_not_fits hfits
    · obtain rfl : c = c' := Except.ok.inj hafter
      exact ⟨h, rfl⟩
    · obtain rfl : { c with pos := min (c.pos + n) c.size } = c' := Except.ok.inj hafter
      refine ⟨⟨h.length_lt, ?_⟩, rfl⟩
      rw [h.toNat_min_size]
      split
      · assumption
      · exact Nat.le_refl _

/-- A run is its first operation and the run of the others. -/
theorem run_cons_eq_ok_iff :
    c.run o (operation :: operations) = .ok c' ↔
      ∃ c₁, c.after o operation = .ok c₁ ∧ c₁.run o operations = .ok c' := by
  rw [run, List.foldlM_cons]
  cases c.after o operation with
  | error panic => simp [bind, Except.bind]
  | ok c₁ => simp [bind, Except.bind, run]

/-- **A run keeps a cursor valid** if nothing stops it, whatever its operations are. -/
theorem Valid.run (h : c.Valid) (hrun : c.run o operations = .ok c') :
    c'.Valid ∧ c'.bytes = c.bytes := by
  induction operations generalizing c with
  | nil =>
    obtain rfl : c = c' := Except.ok.inj hrun
    exact ⟨h, rfl⟩
  | cons operation operations ih =>
    obtain ⟨c₁, hafter, hrest⟩ := run_cons_eq_ok_iff.mp hrun
    obtain ⟨hvalid, hbytes⟩ := h.after hafter
    obtain ⟨hvalid', hbytes'⟩ := ih hvalid hrest
    exact ⟨hvalid', hbytes'.trans hbytes⟩

/-- A run of bytes is cut out between two positions, the second not before the first and not behind
the end. -/
theorem Valid.takeWhile_eq_slice (h : c.Valid) (p : Byte → Bool) :
    c.pos ≤ (c.takeWhile p).2.pos ∧ (c.takeWhile p).2.pos.toNat ≤ c.bytes.length ∧
      (c.takeWhile p).1 = (c.bytes.take (c.takeWhile p).2.pos.toNat).drop c.pos.toNat := by
  have hmoves := h.movesBy_takeWhile p
  have hle := (hmoves.valid h).pos_le
  refine ⟨?_, hle, ?_⟩
  · rw [UInt64.le_iff_toNat_le, hmoves.pos_eq]
    exact Nat.le_add_right _ _
  · rw [hmoves.pos_eq, List.drop_take, Nat.add_sub_cancel_left]
    exact List.prefix_iff_eq_take.mp (List.takeWhile_prefix p)

/-- **What stops a run**: in a program with overflow checks, an operation that does not fit. -/
theorem Valid.exists_run_iff (h : c.Valid) (operations : List Operation) :
    (∃ c', c.run o operations = .ok c') ↔ o = .wraps ∨ Along o Fits c operations := by
  induction operations generalizing c with
  | nil => exact iff_of_true ⟨c, rfl⟩ (.inr trivial)
  | cons operation operations ih =>
    simp only [run_cons_eq_ok_iff]
    constructor
    · rintro ⟨c', c₁, hafter, hrest⟩
      rcases (ih (h.after hafter).1).mp ⟨c', hrest⟩ with rfl | hfits
      · exact .inl rfl
      by_cases hfirst : c.Fits operation
      · refine .inr ⟨hfirst, fun c₂ hafter₂ => ?_⟩
        obtain rfl : c₁ = c₂ := Except.ok.inj (hafter.symm.trans hafter₂)
        exact hfits
      · cases o with
        | wraps => exact .inl rfl
        | stops =>
          rw [after_stops_of_not_fits hfirst] at hafter
          contradiction
    · intro hgoes
      obtain ⟨c₁, hafter⟩ : ∃ c₁, c.after o operation = .ok c₁ := by
        rcases hgoes with rfl | hfits
        · exact c.exists_after_wraps operation
        · obtain ⟨c₁, k, hafter, -⟩ := h.exists_movesBy o hfits.1
          exact ⟨c₁, hafter⟩
      obtain ⟨c', hrest⟩ := (ih (h.after hafter).1).mpr (hgoes.imp_right fun hfits =>
        hfits.2 c₁ hafter)
      exact ⟨c', c₁, hafter, hrest⟩

/-! ### What holds if operations fit -/

/-- An operation whose sum is a machine word keeps the promise. -/
theorem Valid.keeps_of_fits (h : c.Valid) (hfits : c.Fits operation) : c.Keeps o operation := by
  obtain ⟨c', k, hafter, hmoves, hconsumes⟩ := h.exists_movesBy o hfits
  have happend : c.consumes operation ++ c'.rest = c.rest := by
    rw [hconsumes, hmoves.rest_eq, List.take_append_drop]
  refine ⟨c', hafter, ?_, hmoves.bytes_eq ▸ (hmoves.valid h).pos_le, happend, ?_, ?_⟩
  · rw [UInt64.le_iff_toNat_le, hmoves.pos_eq]
    exact Nat.le_add_right _ _
  · rintro n rfl
    have hlength := congrArg List.length happend
    rw [List.length_append, consumes, List.length_take] at hlength
    omega
  · rintro offset rfl
    exact peekAt_of_fits o hfits

/-- An operation that does not fit breaks the promise. With overflow checks it stops the program;
without them an advance goes back, and a look ahead sees a byte before the position. -/
theorem Valid.not_keeps_of_not_fits (h : c.Valid) (hfits : ¬ c.Fits operation) :
    ¬ c.Keeps o operation := by
  rintro ⟨c', hkeeps⟩
  have hpos := h.pos_le
  cases o with
  | stops =>
    have hafter := hkeeps.after_eq
    rw [after_stops_of_not_fits hfits] at hafter
    contradiction
  | wraps =>
    obtain ⟨offset, rfl, hlarge⟩ | ⟨n, rfl, hlarge⟩ := exists_of_not_fits hfits
    · have hback := toNat_add_lt_of_not_fits hlarge
      have hlength := h.length_lt
      have hrest := c.length_rest
      have hseen : c.bytes[(c.pos + offset).toNat]? ≠ none := by
        rw [ne_eq, List.getElem?_eq_none_iff]
        omega
      have hnone : c.rest[offset.toNat]? = none := List.getElem?_eq_none_iff.mpr (by omega)
      have hpeekAt := hkeeps.peekAt_eq offset rfl
      rw [peekAt_wraps, hnone] at hpeekAt
      exact hseen (Except.ok.inj hpeekAt)
    · have hback := toNat_add_lt_of_not_fits hlarge
      have hforward := UInt64.le_iff_toNat_le.mp hkeeps.pos_le
      obtain rfl : { c with pos := min (c.pos + n) c.size } = c' := Except.ok.inj hkeeps.after_eq
      rw [h.toNat_min_size, if_pos (by omega)] at hforward
      omega

/-- **Operations that fit keep the promise, and no others do.** -/
theorem Valid.keeps_iff_fits (h : c.Valid) (operation : Operation) :
    c.Keeps o operation ↔ c.Fits operation :=
  ⟨fun hkeeps => Decidable.byContradiction fun hfits => h.not_keeps_of_not_fits hfits hkeeps,
    h.keeps_of_fits⟩

/-- A property holds along a run if it holds at its first operation and along the others. -/
theorem along_cons {P : Cursor → Operation → Prop} (hafter : c.after o operation = .ok c')
    (hfirst : P c operation) (hothers : Along o P c' operations) :
    Along o P c (operation :: operations) := by
  refine ⟨hfirst, fun c₁ hafter₁ => ?_⟩
  obtain rfl : c' = c₁ := Except.ok.inj (hafter.symm.trans hafter₁)
  exact hothers

/-- On a run, what every valid cursor has is met at every operation. -/
theorem Valid.along_congr {P Q : Cursor → Operation → Prop} (h : c.Valid)
    (hPQ : ∀ c : Cursor, c.Valid → ∀ operation, P c operation ↔ Q c operation)
    (operations : List Operation) : Along o P c operations ↔ Along o Q c operations := by
  induction operations generalizing c with
  | nil => exact Iff.rfl
  | cons operation operations ih =>
    exact and_congr (hPQ c h operation)
      (forall_congr' fun c' => imp_congr_right fun hafter => ih (h.after hafter).1)

/-- What a run consumes and what it leaves are the unread bytes, if it keeps the promise. -/
theorem consumed_append_rest (h : Along o (Keeps o) c operations)
    (hrun : c.run o operations = .ok c') : c.consumed o operations ++ c'.rest = c.rest := by
  induction operations generalizing c with
  | nil =>
    obtain rfl : c = c' := Except.ok.inj hrun
    rfl
  | cons operation operations ih =>
    obtain ⟨c₁, hafter, hrest⟩ := run_cons_eq_ok_iff.mp hrun
    obtain ⟨⟨c₂, hkeeps⟩, halong⟩ := h
    obtain rfl : c₁ = c₂ := Except.ok.inj (hafter.symm.trans hkeeps.after_eq)
    have hconsumed : c.consumed o (operation :: operations) =
        c.consumes operation ++ c₁.consumed o operations := by
      rw [consumed, hafter]
    rw [hconsumed, List.append_assoc, ih (halong c₁ hafter) hrest, hkeeps.consumes_append_rest]

/-- **A cursor keeps its promise as long as sums fit a word.** Where a run of operations ends, the
cursor stands within its bytes, what is before it and what is unread make up the bytes, and a run of
bytes is cut out inside them. The operations of a run all keep the promise of a cursor exactly when
they all fit; then nothing stops the run, and what has been consumed and what is unread make up the
bytes. A run with an operation that does not fit is stopped exactly if the program has overflow
checks. -/
theorem run_keeps_iff (o : Overflow) {bytes : Bytes} (hlength : bytes.length < UInt64.size)
    (operations : List Operation) :
    let start : Cursor := { bytes }
    (∀ c, start.run o operations = .ok c →
      c.bytes = bytes ∧ c.pos.toNat ≤ bytes.length ∧ bytes.take c.pos.toNat ++ c.rest = bytes ∧
      ∀ p, c.pos ≤ (c.takeWhile p).2.pos ∧ (c.takeWhile p).2.pos.toNat ≤ bytes.length ∧
        (c.takeWhile p).1 = (bytes.take (c.takeWhile p).2.pos.toNat).drop c.pos.toNat) ∧
    (Along o (Keeps o) start operations ↔ Along o Fits start operations) ∧
    (Along o Fits start operations →
      ∃ c, start.run o operations = .ok c ∧ start.consumed o operations ++ c.rest = bytes) ∧
    ((∃ c, start.run o operations = .ok c) ↔ o = .wraps ∨ Along o Fits start operations) := by
  intro start
  have hstart : start.Valid := ⟨hlength, Nat.zero_le _⟩
  have hiff : Along o (Keeps o) start operations ↔ Along o Fits start operations :=
    hstart.along_congr (fun _ hc => hc.keeps_iff_fits) operations
  have hends := hstart.exists_run_iff (o := o) operations
  refine ⟨fun c hrun => ?_, hiff, fun hfits => ?_, hends⟩
  · obtain ⟨hc, hbytes⟩ : c.Valid ∧ c.bytes = bytes := hstart.run hrun
    refine ⟨hbytes, hbytes ▸ hc.pos_le, ?_, fun p => hbytes ▸ hc.takeWhile_eq_slice p⟩
    rw [rest, hbytes, List.take_append_drop]
  · obtain ⟨c, hrun⟩ := hends.mpr (.inr hfits)
    exact ⟨c, hrun, consumed_append_rest (hiff.mpr hfits) hrun⟩

/-- A distance that just fits: behind three bytes, the greatest word less three. -/
theorem run_keeps_iff_advance :
    let start : Cursor := { bytes := Bytes.ofAscii "ab c" }
    let operations : List Operation := [.bump, .peekAt 1, .takeWhile Byte.isIdent, .skipWhitespace,
      .peekAt 0, .advance 0xFFFFFFFFFFFFFFFC]
    start.bytes.length < UInt64.size ∧ Along .stops Fits start operations ∧
    ∃ c, start.run .stops operations = .ok c ∧
      start.consumed .stops operations ++ c.rest = Bytes.ofAscii "ab c" := by
  intro start operations
  have hlength : start.bytes.length < UInt64.size := by decide
  have hadvance : ({ bytes := Bytes.ofAscii "ab c", pos := 3 } : Cursor).after .stops
      (.advance 0xFFFFFFFFFFFFFFFC) = .ok { bytes := Bytes.ofAscii "ab c", pos := 4 } := by
    rw [after, advance, Overflow.add_of_lt .stops (by decide)]
    rfl
  have hfits : Along .stops Fits start operations :=
    along_cons rfl (by decide) (along_cons rfl (by decide) (along_cons rfl (by decide)
      (along_cons rfl (by decide) (along_cons rfl (by decide) (along_cons hadvance (by decide)
        trivial)))))
  exact ⟨hlength, hfits, (run_keeps_iff .stops hlength operations).2.2.1 hfits⟩

/-- **A cursor that stops or moves back.** Behind one byte, a look ahead and an advance by the
greatest word stop a program with overflow checks. Without them the look ahead sees the byte that
has been read, and the advance goes back to the start, where that byte is unread again. -/
theorem not_keeps_greatest_advance :
    let start : Cursor := { bytes := Bytes.ofAscii "ab" }
    let behind : Cursor := { bytes := Bytes.ofAscii "ab", pos := 1 }
    (∀ o, start.run o [.bump] = .ok behind) ∧
    behind.rest[(0xFFFFFFFFFFFFFFFF : UInt64).toNat]? = none ∧
    behind.peekAt .stops 0xFFFFFFFFFFFFFFFF = .error .overflow ∧
    behind.peekAt .wraps 0xFFFFFFFFFFFFFFFF = .ok (some 0x61) ∧
    behind.advance .stops 0xFFFFFFFFFFFFFFFF = .error .overflow ∧
    behind.advance .wraps 0xFFFFFFFFFFFFFFFF = .ok start ∧
    ∀ o, ¬ Along o (Keeps o) start [.bump, .peekAt 0xFFFFFFFFFFFFFFFF] ∧
      ¬ Along o (Keeps o) start [.bump, .advance 0xFFFFFFFFFFFFFFFF] := by
  intro start behind
  have hbehind : behind.Valid := ⟨by decide, by decide⟩
  -- the sum of one and the greatest word is zero
  have hseen : behind.bytes[(behind.pos + 0xFFFFFFFFFFFFFFFF).toNat]? = some 0x61 := by decide
  have hback : ({ behind with pos := min (behind.pos + 0xFFFFFFFFFFFFFFFF) behind.size } : Cursor) =
      start := by decide
  refine ⟨fun o => rfl, by decide, peekAt_stops_of_le (by decide), ?_,
    advance_stops_of_le (by decide), ?_, fun o => ?_⟩
  · rw [peekAt_wraps, hseen]
  · rw [advance_wraps, hback]
  have hbump : start.after o .bump = .ok behind := rfl
  have hpeekAt : ¬ behind.Fits (.peekAt 0xFFFFFFFFFFFFFFFF) := by decide
  have hadvance : ¬ behind.Fits (.advance 0xFFFFFFFFFFFFFFFF) := by decide
  exact ⟨fun h => hbehind.not_keeps_of_not_fits hpeekAt (h.2 behind hbump).1,
    fun h => hbehind.not_keeps_of_not_fits hadvance (h.2 behind hbump).1⟩

end ScriptTags.Cursor
