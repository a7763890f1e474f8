import ScriptTags.Proofs.Decoding
import ScriptTags.Proofs.Runs

/-!
# What decoding makes of encoded and of broken text

The reader of UTF-8 has two sides that the library relies on. On the bytes of a text it is exact:
**decoding undoes encoding** (`decodeLossy_encode`), one character after another
(`scalars_encodeChar_append`). On any bytes at all it keeps the border between ASCII and the rest: a
decoding starts with an ASCII character only if the bytes start with it, since a byte above the
ASCII range is decoded to a character above that range or to a replacement
(`exists_decodeLossy_cons`).

Both together describe the bytes of a decoding. An ASCII run at the front stays what it is
(`encode_decodeLossy_run_append`), and what stops that run still stops it
(`stops_encode_decodeLossy`).
-/

namespace ScriptTags

/-- **ASCII bytes.** -/
def Byte.isAscii (b : Byte) : Bool :=
  decide (b < 0x80)

theorem Byte.isAscii_iff {b : Byte} : b.isAscii = true ↔ b < 0x80 :=
  decide_eq_true_iff

namespace Utf8

open Bytes (IsRun Stops)

variable {k : Nat} {p : Pending} {low high b : Byte} {c : Char} {rest bytes : Bytes}

/-! ### The bytes of one character -/

theorem scalars_cons_of_start (h : start b = ([], some p)) (rest : Bytes) :
    scalars (b :: rest) = scalarsFrom (some p) rest := by
  rw [scalars, scalarsFrom, step, h, List.nil_append]

/-- The first of two bytes; the least ones would make overlong forms. -/
theorem start_two : ∀ k < 32, 2 ≤ k →
    start (UInt8.ofNat (k + 192)) = ([], some ⟨1, 0x80, 0xBF, k⟩) := by
  decide

theorem start_three : ∀ k < 16, start (UInt8.ofNat (k + 224)) =
    ([], some ⟨2, if k = 0 then 0xA0 else 0x80, if k = 13 then 0x9F else 0xBF, k⟩) := by
  decide

theorem start_four : ∀ k < 5, start (UInt8.ofNat (k + 240)) =
    ([], some ⟨3, if k = 0 then 0x90 else 0x80, if k = 4 then 0x8F else 0xBF, k⟩) := by
  decide

/-- A continuation byte in the expected range adds its six bits. -/
theorem next_continuation (hk : k < 64) (hlow : p.low.toNat ≤ k + 128)
    (hhigh : k + 128 ≤ p.high.toNat) :
    p.next (UInt8.ofNat (k + 128)) =
      if p.missing ≤ 1 then ([some (Char.ofNat (p.bits * 64 + k))], none)
      else ([], some ⟨p.missing - 1, 0x80, 0xBF, p.bits * 64 + k⟩) := by
  have htoNat : (UInt8.ofNat (k + 128)).toNat = k + 128 := by
    rw [UInt8.toNat_ofNat', Nat.mod_eq_of_lt (by omega)]
  have hrange : p.low ≤ UInt8.ofNat (k + 128) ∧ UInt8.ofNat (k + 128) ≤ p.high := by
    rw [UInt8.le_iff_toNat_le, UInt8.le_iff_toNat_le, htoNat]
    exact ⟨hlow, hhigh⟩
  have hbits : (k + 128) % 64 = k := by omega
  rw [Pending.next, if_pos hrange, htoNat, hbits]

theorem scalarsFrom_last (hk : k < 64) (bits : Nat) (rest : Bytes) :
    scalarsFrom (some ⟨1, 0x80, 0xBF, bits⟩) (UInt8.ofNat (k + 128) :: rest) =
      some (Char.ofNat (bits * 64 + k)) :: scalars rest := by
  have hhigh : k + 128 ≤ 191 := by omega
  have hnext := next_continuation (p := ⟨1, 0x80, 0xBF, bits⟩) hk (Nat.le_add_left 128 k) hhigh
  rw [scalarsFrom, step, hnext, if_pos (Nat.le_refl 1)]
  rfl

theorem scalarsFrom_next (hk : k < 64) (hlow : low.toNat ≤ k + 128) (hhigh : k + 128 ≤ high.toNat)
    (missing bits : Nat) (rest : Bytes) :
    scalarsFrom (some ⟨missing + 2, low, high, bits⟩) (UInt8.ofNat (k + 128) :: rest) =
      scalarsFrom (some ⟨missing + 1, 0x80, 0xBF, bits * 64 + k⟩) rest := by
  rw [scalarsFrom, step, next_continuation hk hlow hhigh, if_neg (by simp)]
  rfl

variable {v : Nat}

/-- A character of two bytes is read back from them. -/
theorem scalars_two (hmin : 0x80 ≤ v) (hmax : v ≤ 0x7FF) (rest : Bytes) :
    scalars (UInt8.ofNat (v / 64 % 32 + 192) :: UInt8.ofNat (v % 64 + 128) :: rest) =
      some (Char.ofNat v) :: scalars rest := by
  have hbits : v / 64 % 32 * 64 + v % 64 = v := by omega
  rw [scalars_cons_of_start (start_two _ (by omega) (by omega)), scalarsFrom_last (by omega), hbits]

/-- A character of three bytes is read back from them, if it is no surrogate. -/
theorem scalars_three (hmin : 0x800 ≤ v) (hmax : v ≤ 0xFFFF) (hvalid : v < 0xD800 ∨ 0xDFFF < v)
    (rest : Bytes) :
    scalars (UInt8.ofNat (v / 4096 % 16 + 224) :: UInt8.ofNat (v / 64 % 64 + 128) ::
      UInt8.ofNat (v % 64 + 128) :: rest) = some (Char.ofNat v) :: scalars rest := by
  have hbits : (v / 4096 % 16 * 64 + v / 64 % 64) * 64 + v % 64 = v := by omega
  have hlow : (if v / 4096 % 16 = 0 then 0xA0 else 0x80 : Byte).toNat ≤ v / 64 % 64 + 128 := by
    split
    · change 160 ≤ _
      omega
    · exact Nat.le_add_left 128 _
  have hhigh : v / 64 % 64 + 128 ≤ (if v / 4096 % 16 = 13 then 0x9F else 0xBF : Byte).toNat := by
    split
    · change _ ≤ 159
      omega
    · change _ ≤ 191
      omega
  rw [scalars_cons_of_start (start_three _ (by omega)), scalarsFrom_next (by omega) hlow hhigh,
    scalarsFrom_last (by omega), hbits]

/-- A character of four bytes is read back from them, if it is in the range of Unicode. -/
theorem scalars_four (hmin : 0x10000 ≤ v) (hmax : v < 0x110000) (rest : Bytes) :
    scalars (UInt8.ofNat (v / 262144 % 8 + 240) :: UInt8.ofNat (v / 4096 % 64 + 128) ::
      UInt8.ofNat (v / 64 % 64 + 128) :: UInt8.ofNat (v % 64 + 128) :: rest) =
        some (Char.ofNat v) :: scalars rest := by
  have hbits : ((v / 262144 % 8 * 64 + v / 4096 % 64) * 64 + v / 64 % 64) * 64 + v % 64 = v := by
    omega
  have hlow : (if v / 262144 % 8 = 0 then 0x90 else 0x80 : Byte).toNat ≤ v / 4096 % 64 + 128 := by
    split
    · change 144 ≤ _
      omega
    · exact Nat.le_add_left 128 _
  have hhigh : v / 4096 % 64 + 128 ≤ (if v / 262144 % 8 = 4 then 0x8F else 0xBF : Byte).toNat := by
    split
    · change _ ≤ 143
      omega
    · change _ ≤ 191
      omega
  have hnext : v / 64 % 64 + 128 ≤ 191 := by omega
  rw [scalars_cons_of_start (start_four _ (by omega)), scalarsFrom_next (by omega) hlow hhigh,
    scalarsFrom_next (by omega) (Nat.le_add_left 128 _) hnext, scalarsFrom_last (by omega), hbits]

theorem encodeChar_ofUInt8 (hb : b < 0x80) : String.utf8EncodeChar (Char.ofUInt8 b) = [b] := by
  have hval : (Char.ofUInt8 b).val.toNat = b.toNat := toNat_ofUInt8 b
  have hle : b.toNat ≤ 127 := Nat.le_of_lt_succ (UInt8.lt_iff_toNat_lt.mp hb)
  rw [String.utf8EncodeChar.eq_1, hval, if_pos hle, UInt8.ofNat_toNat]

/-- An ASCII character is a byte. -/
theorem exists_eq_ofUInt8 (hc : c.toNat < 0x80) : ∃ b : Byte, b < 0x80 ∧ c = Char.ofUInt8 b := by
  have htoNat : (UInt8.ofNat c.toNat).toNat = c.toNat := by
    rw [UInt8.toNat_ofNat', Nat.mod_eq_of_lt (by omega)]
  refine ⟨UInt8.ofNat c.toNat, ?_, ?_⟩
  · rw [UInt8.lt_iff_toNat_lt, htoNat]
    exact hc
  · rw [← Char.ofNat_toNat (Char.ofUInt8 _), toNat_ofUInt8, htoNat, Char.ofNat_toNat]

/-- **The bytes of a character are read back**, whatever follows them. The ranges that the reader
expects keep out what no character is encoded as, and they let every character in. -/
theorem scalars_encodeChar_append (c : Char) (rest : Bytes) :
    scalars (String.utf8EncodeChar c ++ rest) = some c :: scalars rest := by
  by_cases hascii : c.toNat < 0x80
  · obtain ⟨b, hb, rfl⟩ := exists_eq_ofUInt8 hascii
    rw [encodeChar_ofUInt8 hb]
    exact scalars_append_ascii hb [] rest
  · have hvalid : c.toNat < 0xD800 ∨ 0xDFFF < c.toNat ∧ c.toNat < 0x110000 := c.valid
    have hchar : Char.ofNat c.toNat = c := Char.ofNat_toNat c
    have hval : c.val.toNat = c.toNat := rfl
    rw [String.utf8EncodeChar.eq_1, hval, if_neg (by omega)]
    split
    · rw [List.cons_append, List.singleton_append, scalars_two (by omega) (by omega), hchar]
    split
    · rw [List.cons_append, List.cons_append, List.singleton_append,
        scalars_three (by omega) (by omega) (by omega), hchar]
    · rw [List.cons_append, List.cons_append, List.cons_append, List.singleton_append,
        scalars_four (by omega) (by omega), hchar]

/-- The first byte of a character above the ASCII range lies above it. -/
theorem exists_encodeChar_cons (hc : 0x80 ≤ c.toNat) :
    ∃ b tail, String.utf8EncodeChar c = b :: tail ∧ ¬ b < 0x80 := by
  have hread := scalars_encodeChar_append c []
  cases hencode : String.utf8EncodeChar c with
  | nil =>
    rw [hencode] at hread
    contradiction
  | cons b tail =>
    refine ⟨b, tail, rfl, fun hb => ?_⟩
    -- an ASCII byte would be read back as an ASCII character
    rw [hencode, List.cons_append, ← List.nil_append (b :: _), scalars_append_ascii hb] at hread
    obtain rfl : Char.ofUInt8 b = c := Option.some.inj (List.cons.inj hread).1
    rw [toNat_ofUInt8] at hc
    exact absurd (UInt8.lt_iff_toNat_lt.mp hb) (Nat.not_lt.mpr hc)

theorem scalars_encode (text : List Char) :
    scalars (text.flatMap String.utf8EncodeChar) = text.map some := by
  induction text with
  | nil => rfl
  | cons c text ih => rw [List.flatMap_cons, scalars_encodeChar_append, ih, List.map_cons]

/-- **Decoding undoes encoding.** -/
theorem decodeLossy_encode (text : String) : decodeLossy (encode text) = text := by
  rw [decodeLossy, encode, scalars_encode, List.map_map]
  exact (congrArg String.ofList (List.map_id _)).trans String.ofList_toList

/-- Texts with the same bytes are the same. -/
theorem encode_injective : Function.Injective encode :=
  Function.LeftInverse.injective decodeLossy_encode

/-- Characters made from ASCII bytes, one to a byte, have these bytes. -/
theorem encode_toChars (h : IsRun Byte.isAscii bytes) :
    encode (String.ofList (Bytes.toChars bytes)) = bytes := by
  rw [encode, String.toList_ofList]
  induction bytes with
  | nil => rfl
  | cons b bytes ih =>
    obtain ⟨hb, h⟩ := List.forall_mem_cons.mp h
    rw [Bytes.toChars, List.map_cons, List.flatMap_cons,
      encodeChar_ofUInt8 (Byte.isAscii_iff.mp hb), ← Bytes.toChars, ih h]
    rfl

/-- A text is read back from its bytes by strict decoding as well. -/
theorem decode?_encode (text : String) : decode? (encode text) = some text := by
  have hmap : ∀ chars : List Char, (chars.map some).mapM id = some chars := by
    intro chars
    induction chars with
    | nil => rfl
    | cons c chars ih =>
      rw [List.map_cons, List.mapM_cons, ih]
      rfl
  rw [decode?, encode, scalars_encode, hmap, Option.map_some, String.ofList_toList]

/-! ### What a decoding starts with -/

/-- A pending sequence brings no ASCII character to light first. -/
theorem exists_scalarsFrom_cons (hp : p.Promising) (bytes : Bytes) :
    ∃ scalar others, scalarsFrom (some p) bytes = scalar :: others ∧
      ∀ c ∈ scalar, 0x80 ≤ c.toNat := by
  induction bytes generalizing p with
  | nil => exact ⟨none, [], rfl, by simp⟩
  | cons b bytes ih =>
    have hnext := hp.next b
    rw [scalarsFrom, step]
    by_cases hrange : p.low ≤ b ∧ b ≤ p.high
    · have hbits := hp b hrange.1 hrange.2
      rw [Pending.next, if_pos hrange] at hnext ⊢
      by_cases hmissing : p.missing ≤ 1
      · -- the sequence is complete, and its character lies above the ASCII range
        rw [Nat.sub_eq_zero_of_le hmissing] at hbits
        simp only [if_pos hmissing]
        refine ⟨some (Char.ofNat (p.bits * 64 + b.toNat % 64)), _, rfl, fun c hc => ?_⟩
        rw [← Option.mem_some.mp hc]
        exact hbits.le_toNat
      · simp only [if_neg hmissing] at hnext ⊢
        exact ih (hnext _ rfl)
    · rw [Pending.next, if_neg hrange]
      exact ⟨none, _, rfl, by simp⟩

theorem start_above (hb : ¬ b < 0x80) :
    start b = ([none], none) ∨ ∃ p, start b = ([], some p) := by
  rw [start, if_neg hb]
  repeat' refine iteInduction (motive := fun x : Progress => x = ([none], none) ∨
    ∃ p, x = ([], some p)) (fun _ => ?_) (fun _ => ?_)
  all_goals first
    | exact .inl rfl
    | exact .inr ⟨_, rfl⟩

/-- **A byte above the ASCII range** is decoded to a character above that range first. -/
theorem exists_decodeLossy_cons (hb : ¬ b < 0x80) (rest : Bytes) :
    ∃ c others, (decodeLossy (b :: rest)).toList = c :: others ∧ 0x80 ≤ c.toNat := by
  obtain ⟨scalar, others, hscalars, habove⟩ : ∃ scalar others,
      scalars (b :: rest) = scalar :: others ∧ ∀ c ∈ scalar, 0x80 ≤ c.toNat := by
    rw [scalars, scalarsFrom, step]
    have hpending := promising_start b
    rcases start_above hb with hstart | ⟨p, hstart⟩
    · rw [hstart]
      exact ⟨none, _, rfl, by simp⟩
    · rw [hstart] at hpending ⊢
      exact exists_scalarsFrom_cons (hpending p rfl) rest
  refine ⟨scalar.getD replacement, others.map fun c => c.getD replacement, ?_, ?_⟩
  · rw [decodeLossy, String.toList_ofList, hscalars, List.map_cons]
  · cases scalar with
    | none => decide
    | some c => exact habove c rfl

/-- An ASCII byte is decoded to itself. -/
theorem toList_decodeLossy_cons (hb : b < 0x80) (rest : Bytes) :
    (decodeLossy (b :: rest)).toList = Char.ofUInt8 b :: (decodeLossy rest).toList :=
  toList_decodeLossy_append hb [] rest

theorem toList_decodeLossy_eq_nil_iff : (decodeLossy bytes).toList = [] ↔ bytes = [] := by
  cases bytes with
  | nil => simp [decodeLossy, scalars, scalarsFrom]
  | cons b bytes =>
    refine iff_of_false (fun hnil => ?_) (List.cons_ne_nil b bytes)
    by_cases hb : b < 0x80
    · rw [toList_decodeLossy_cons hb] at hnil
      contradiction
    · obtain ⟨c, others, hdecode, -⟩ := exists_decodeLossy_cons hb bytes
      rw [hdecode] at hnil
      contradiction

theorem ofUInt8_inj {b' : Byte} : Char.ofUInt8 b = Char.ofUInt8 b' ↔ b = b' := by
  refine ⟨fun h => ?_, congrArg Char.ofUInt8⟩
  rw [← UInt8.toNat_inj, ← toNat_ofUInt8, h, toNat_ofUInt8]

/-- A text starts with an ASCII character exactly when its bytes start with that character. -/
theorem head?_decodeLossy_eq_some_iff (hb : b < 0x80) :
    (decodeLossy bytes).toList.head? = some (Char.ofUInt8 b) ↔ bytes.head? = some b := by
  cases bytes with
  | nil => simp [decodeLossy, scalars, scalarsFrom]
  | cons first bytes =>
    by_cases hfirst : first < 0x80
    · rw [toList_decodeLossy_cons hfirst, List.head?_cons, List.head?_cons, Option.some_inj,
        Option.some_inj, ofUInt8_inj]
    · obtain ⟨c, others, hdecode, hc⟩ := exists_decodeLossy_cons hfirst bytes
      rw [hdecode, List.head?_cons, List.head?_cons, Option.some_inj, Option.some_inj]
      refine iff_of_false ?_ ?_
      · rintro rfl
        rw [toNat_ofUInt8] at hc
        exact absurd (UInt8.lt_iff_toNat_lt.mp hb) (Nat.not_lt.mpr hc)
      · rintro rfl
        exact hfirst hb

/-- The bytes of a text start with an ASCII byte exactly when the text starts with it. -/
theorem head?_encode_eq_some_iff {text : String} (hb : b < 0x80) :
    (encode text).head? = some b ↔ text.toList.head? = some (Char.ofUInt8 b) := by
  rw [← head?_decodeLossy_eq_some_iff hb, decodeLossy_encode]

/-! ### The bytes of a decoding -/

/-- An ASCII run at the front stays what it is. -/
theorem encode_decodeLossy_run_append {run : Bytes} (hrun : IsRun Byte.isAscii run) (rest : Bytes) :
    encode (decodeLossy (run ++ rest)) = run ++ encode (decodeLossy rest) := by
  induction run with
  | nil => rfl
  | cons b run ih =>
    obtain ⟨hb, hrun⟩ := List.forall_mem_cons.mp hrun
    have hascii := Byte.isAscii_iff.mp hb
    rw [encode, List.cons_append, toList_decodeLossy_cons hascii, List.flatMap_cons,
      encodeChar_ofUInt8 hascii, ← encode, ih hrun]
    rfl

/-- What stops an ASCII run still stops it. -/
theorem stops_encode_decodeLossy (h : Stops Byte.isAscii rest) :
    Stops Byte.isAscii (encode (decodeLossy rest)) := by
  cases rest with
  | nil => simp [encode, decodeLossy, scalars, scalarsFrom, Stops]
  | cons b rest =>
    have hb : ¬ b < 0x80 := fun hlt => by
      rw [Bytes.stops_cons, Byte.isAscii_iff.mpr hlt] at h
      contradiction
    obtain ⟨c, others, hdecode, hc⟩ := exists_decodeLossy_cons hb rest
    obtain ⟨first, tail, hencode, hfirst⟩ := exists_encodeChar_cons hc
    rw [encode, hdecode, List.flatMap_cons, hencode, List.cons_append, Bytes.stops_cons]
    exact decide_eq_false hfirst

/-- Bytes with an ASCII text are the bytes of that text. -/
theorem encode_decodeLossy_of_isRun (h : IsRun Byte.isAscii (encode (decodeLossy bytes))) :
    encode (decodeLossy bytes) = bytes := by
  obtain ⟨run, rest, hrun, hrest, rfl⟩ := Bytes.exists_run_append Byte.isAscii bytes
  rw [encode_decodeLossy_run_append hrun] at h ⊢
  have hnil : encode (decodeLossy rest) = [] := by
    have hstops := stops_encode_decodeLossy hrest
    cases heq : encode (decodeLossy rest) with
    | nil => rfl
    | cons b tail =>
      rw [heq, Bytes.stops_cons, h b (by simp [heq])] at hstops
      contradiction
  have htext : decodeLossy rest = decodeLossy [] := by
    rw [← decodeLossy_encode (decodeLossy rest), hnil]
  have hrest' : rest = [] := by
    rw [← toList_decodeLossy_eq_nil_iff, htext, toList_decodeLossy_eq_nil_iff]
  rw [hnil, hrest']

/-- An ASCII text is decoded from its own bytes only. -/
theorem decodeLossy_eq_iff {text : String} (h : IsRun Byte.isAscii (encode text)) :
    decodeLossy bytes = text ↔ bytes = encode text := by
  constructor
  · rintro rfl
    exact (encode_decodeLossy_of_isRun h).symm
  · rintro rfl
    exact decodeLossy_encode text

end Utf8

end ScriptTags
