/-!
# Sums of machine words

Positions and counts are 64-bit words, and a sum of two of them may leave the word. What then
happens depends on how the program is built: with overflow checks it stops there, without them it
goes on with the sum modulo `2 ^ 64`. Functions that add words take this as a parameter, and what is
proved of them holds of both programs unless it says which.
-/

namespace ScriptTags

/-- What becomes of a sum that **leaves the word**: it stops the program, or it wraps around. -/
inductive Overflow where
  | stops
  | wraps
  deriving DecidableEq, Repr

/-- Why a program **stops** in the middle of an operation. -/
inductive Panic where
  | overflow
  deriving DecidableEq, Repr

/-- The sum of two words. -/
def Overflow.add (o : Overflow) (a b : UInt64) : Except Panic UInt64 :=
  match o with
  | stops => if a.toNat + b.toNat < UInt64.size then .ok (a + b) else .error .overflow
  | wraps => .ok (a + b)

namespace Overflow

variable {a b : UInt64}

/-- A sum that stays in the word is exact. -/
theorem toNat_add_of_lt (h : a.toNat + b.toNat < UInt64.size) :
    (a + b).toNat = a.toNat + b.toNat := by
  rw [UInt64.toNat_add]
  exact Nat.mod_eq_of_lt h

/-- A sum that stays in the word is the same in every program. -/
theorem add_of_lt (o : Overflow) (h : a.toNat + b.toNat < UInt64.size) :
    o.add a b = .ok (a + b) := by
  cases o with
  | stops => exact if_pos h
  | wraps => rfl

/-- A sum that leaves the word stops a program with overflow checks. -/
theorem stops_add_of_le (h : UInt64.size ≤ a.toNat + b.toNat) :
    stops.add a b = .error .overflow :=
  if_neg (Nat.not_lt.mpr h)

end Overflow

end ScriptTags
