import ScriptTags.Text.Utf8

/-!
# ASCII bytes cut a decoding

The UTF-8 reader carries a pending sequence from byte to byte, but no ASCII byte can go on with one:
the range that a pending sequence waits for lies above `0x7F` (`WaitsAboveAscii`, an invariant of
every step). So an ASCII byte closes what is pending just as the end of the text would, and then
stands for itself. A byte string with an ASCII byte in it is therefore decoded in **three parts**:
what stands before that byte, the byte, and what stands after it (`toList_decodeLossy_append`).

Nor can the reader **make up** an ASCII character: the code points that complete a pending sequence
are scalar values above the ASCII range (`Pending.Promising`, another invariant), and so is the
replacement character. A byte string and its decoding have the same ASCII characters
(`mem_decodeLossy_iff`).
-/

namespace ScriptTags.Utf8

/-- A state that waits for bytes above the ASCII range only. -/
def WaitsAboveAscii (state : Option Pending) : Prop :=
  ∀ p ∈ state, 0x80 ≤ p.low

variable {state : Option Pending} {b : Byte}

theorem waitsAboveAscii_none : WaitsAboveAscii none := by
  simp [WaitsAboveAscii]

theorem waitsAboveAscii_some {missing bits : Nat} {low high : Byte} (h : 0x80 ≤ low) :
    WaitsAboveAscii (some ⟨missing, low, high, bits⟩) := by
  intro p hp
  obtain rfl := Option.some.inj hp
  exact h

theorem waitsAboveAscii_ite {c : Prop} [Decidable c] {x y : Progress} (hx : WaitsAboveAscii x.2)
    (hy : WaitsAboveAscii y.2) : WaitsAboveAscii (if c then x else y).2 := by
  split <;> assumption

/-- No first byte of a sequence lets an ASCII byte come second. -/
theorem waitsAboveAscii_start (b : Byte) : WaitsAboveAscii (start b).2 := by
  rw [start]
  repeat' apply waitsAboveAscii_ite
  all_goals first
    | exact waitsAboveAscii_none
    | exact waitsAboveAscii_some (by decide)

/-- Every step keeps the invariant. -/
theorem WaitsAboveAscii.step (state : Option Pending) (b : Byte) :
    WaitsAboveAscii (step state b).2 := by
  cases state with
  | none => exact waitsAboveAscii_start b
  | some p =>
    simp only [Utf8.step, Pending.next]
    split
    · split
      · exact waitsAboveAscii_none
      · exact waitsAboveAscii_some (by decide)
    · exact waitsAboveAscii_start b

theorem start_ascii (hb : b < 0x80) : start b = ([some (Char.ofUInt8 b)], none) := by
  rw [start, if_pos hb]

/-- An ASCII byte ends what is pending as the end of the text does, and stands for itself. -/
theorem step_ascii (hstate : WaitsAboveAscii state) (hb : b < 0x80) :
    step state b = (scalarsFrom state [] ++ [some (Char.ofUInt8 b)], none) := by
  cases state with
  | none => exact start_ascii hb
  | some p =>
    have hlow : ¬ (p.low ≤ b ∧ b ≤ p.high) := fun h =>
      absurd (UInt8.lt_of_lt_of_le hb (hstate p rfl)) (UInt8.not_lt.mpr h.1)
    simp only [step, Pending.next, if_neg hlow, start_ascii hb, scalarsFrom, List.singleton_append]

theorem scalarsFrom_append_ascii (hstate : WaitsAboveAscii state) (hb : b < 0x80)
    (bytes rest : Bytes) :
    scalarsFrom state (bytes ++ b :: rest) =
      scalarsFrom state bytes ++ some (Char.ofUInt8 b) :: scalars rest := by
  induction bytes generalizing state with
  | nil =>
    rw [List.nil_append, scalarsFrom, step_ascii hstate hb, List.append_assoc]
    rfl
  | cons first bytes ih =>
    rw [List.cons_append, scalarsFrom, scalarsFrom, ih (WaitsAboveAscii.step state first),
      List.append_assoc]

theorem scalars_append_ascii (hb : b < 0x80) (bytes rest : Bytes) :
    scalars (bytes ++ b :: rest) = scalars bytes ++ some (Char.ofUInt8 b) :: scalars rest :=
  scalarsFrom_append_ascii waitsAboveAscii_none hb bytes rest

/-- **An ASCII byte cuts a decoding**: what stands before it and what stands after it are decoded
apart. -/
theorem toList_decodeLossy_append (hb : b < 0x80) (bytes rest : Bytes) :
    (decodeLossy (bytes ++ b :: rest)).toList =
      (decodeLossy bytes).toList ++ Char.ofUInt8 b :: (decodeLossy rest).toList := by
  simp [decodeLossy, scalars_append_ascii hb]

/-! ### No ASCII character is made up -/

/-- Whatever `missing` continuation bytes follow, the code point that starts with `bits` is a scalar
value **above the ASCII range**. -/
def AboveAscii : Nat → Nat → Prop
  | 0, bits => 0x80 ≤ bits ∧ bits.isValidChar
  | missing + 1, bits => ∀ low < 64, AboveAscii missing (bits * 64 + low)

theorem AboveAscii.le_toNat {bits : Nat} (h : AboveAscii 0 bits) :
    0x80 ≤ (Char.ofNat bits).toNat := by
  obtain ⟨habove, hvalid⟩ := h
  have htoNat : (Char.ofNat bits).toNat = bits := by
    rw [Char.ofNat, dif_pos hvalid]
    exact UInt32.toNat_ofNatLT
  omega

/-- A pending sequence that only a character above the ASCII range can complete. -/
def Pending.Promising (p : Pending) : Prop :=
  ∀ b, p.low ≤ b → b ≤ p.high → AboveAscii (p.missing - 1) (p.bits * 64 + b.toNat % 64)

variable {c : Char} {bytes : Bytes}

/-- Every first byte leaves a promising sequence, if it leaves one. -/
theorem promising_start (b : Byte) : ∀ p ∈ (start b).2, p.Promising := by
  rw [start]
  repeat'
    refine iteInduction (motive := fun x : Progress => ∀ p ∈ x.2, p.Promising) (fun hb => ?_)
      (fun hb => ?_)
  all_goals
    intro p hp b' hlow hhigh
    cases hp
  all_goals
    simp only [UInt8.lt_iff_toNat_lt, UInt8.le_iff_toNat_le, ← UInt8.toNat_inj,
      UInt8.reduceToNat] at *
    simp only [AboveAscii, Nat.isValidChar, Nat.reduceSub]
    intros
    omega

/-- A first byte completes a character only if it is an ASCII byte. -/
theorem mem_start : some c ∈ (start b).1 → b < 0x80 ∧ c = Char.ofUInt8 b := by
  rw [start]
  repeat'
    refine iteInduction
      (motive := fun x : Progress => some c ∈ x.1 → b < 0x80 ∧ c = Char.ofUInt8 b)
      (fun hb => ?_) (fun hb => ?_)
  · exact fun h => ⟨hb, by simpa using h⟩
  all_goals simp

namespace Pending.Promising

variable {p : Pending}

/-- A byte that goes on with a promising sequence leaves one. -/
theorem next (hp : p.Promising) (b : Byte) : ∀ q ∈ (p.next b).2, q.Promising := by
  rw [Pending.next]
  split
  · next hrange =>
    have hbits := hp b hrange.1 hrange.2
    dsimp only
    split
    · simp
    · next hmissing =>
      rintro q ⟨⟩ b' - -
      obtain ⟨missing, hm⟩ : ∃ missing, p.missing - 1 = missing + 1 :=
        Nat.exists_eq_add_one_of_ne_zero (by omega)
      rw [hm] at hbits ⊢
      exact hbits _ (Nat.mod_lt _ (by decide))
  · exact promising_start b

/-- A byte that completes a promising sequence makes a character above the ASCII range, and a byte
that breaks it stands for itself. -/
theorem mem_next (hp : p.Promising) (h : some c ∈ (p.next b).1) :
    0x80 ≤ c.toNat ∨ b < 0x80 ∧ c = Char.ofUInt8 b := by
  rw [Pending.next] at h
  split at h
  · next hrange =>
    have hbits := hp b hrange.1 hrange.2
    dsimp only at h
    split at h
    · next hmissing =>
      obtain rfl : c = Char.ofNat (p.bits * 64 + b.toNat % 64) := by simpa using h
      rw [Nat.sub_eq_zero_of_le hmissing] at hbits
      exact .inl hbits.le_toNat
    · simp at h
  · exact .inr (mem_start (by simpa using h))

end Pending.Promising

/-- The characters of a byte string lie above the ASCII range or stand there as bytes. -/
theorem mem_scalarsFrom (hstate : ∀ p ∈ state, p.Promising)
    (h : some c ∈ scalarsFrom state bytes) :
    0x80 ≤ c.toNat ∨ ∃ b ∈ bytes, b < 0x80 ∧ c = Char.ofUInt8 b := by
  induction bytes generalizing state with
  | nil => cases state <;> simp [scalarsFrom] at h
  | cons b bytes ih =>
    have hchar : some c ∈ (step state b).1 → 0x80 ≤ c.toNat ∨ b < 0x80 ∧ c = Char.ofUInt8 b := by
      cases state with
      | none => exact fun h => .inr (mem_start h)
      | some p => exact (hstate p rfl).mem_next
    have hnext : ∀ p ∈ (step state b).2, p.Promising := by
      cases state with
      | none => exact promising_start b
      | some p => exact (hstate p rfl).next b
    rw [scalarsFrom, List.mem_append] at h
    rcases h with h | h
    · exact (hchar h).imp_right fun hb => ⟨b, List.mem_cons_self, hb⟩
    · refine (ih hnext h).imp_right ?_
      rintro ⟨b', hmem, hb'⟩
      exact ⟨b', List.mem_cons_of_mem b hmem, hb'⟩

theorem toNat_ofUInt8 (b : Byte) : (Char.ofUInt8 b).toNat = b.toNat :=
  UInt8.toNat_toUInt32 b

/-- **ASCII characters come from ASCII bytes**, each from its own. -/
theorem mem_decodeLossy_iff (hb : b < 0x80) :
    Char.ofUInt8 b ∈ (decodeLossy bytes).toList ↔ b ∈ bytes := by
  constructor
  · intro h
    have hlt : (Char.ofUInt8 b).toNat < 0x80 := by
      rw [toNat_ofUInt8]
      exact UInt8.lt_iff_toNat_lt.mp hb
    rw [decodeLossy, String.toList_ofList, List.mem_map] at h
    obtain ⟨scalar, hscalar, hchar⟩ := h
    cases scalar with
    | none =>
      rw [← hchar] at hlt
      exact absurd hlt (by decide)
    | some c =>
      obtain rfl : c = Char.ofUInt8 b := hchar
      rcases mem_scalarsFrom (by simp) hscalar with habove | ⟨b', hmem, -, heq⟩
      · omega
      · have hsame : b = b' := by
          rw [← UInt8.toNat_inj, ← toNat_ofUInt8, heq, toNat_ofUInt8]
        rwa [hsame]
  · intro h
    obtain ⟨before, after, rfl⟩ := List.append_of_mem h
    simp [toList_decodeLossy_append hb]

end ScriptTags.Utf8
