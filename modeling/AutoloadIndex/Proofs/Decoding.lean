import AutoloadIndex.Proofs.Slices
import AutoloadIndex.Text.Utf8

set_option autoImplicit false

/-!
Decoding the UTF-8 form of a text gives the text back, so whatever is known about the characters of
a source holds for a file with its bytes.
-/

namespace AutoloadIndex.Text

section Sequences

variable {a b c d : UInt8}

theorem isTail_iff : isTail b = true ↔ 128 ≤ b.toNat ∧ b.toNat ≤ 191 := by
  simp [isTail, UInt8.le_iff_toNat_le]

theorem opensThree_iff : opensThree a b = true ↔
    a.toNat = 224 ∧ 160 ≤ b.toNat ∧ b.toNat ≤ 191 ∨ a.toNat = 237 ∧ 128 ≤ b.toNat ∧ b.toNat ≤ 159 ∨
      225 ≤ a.toNat ∧ a.toNat ≤ 239 ∧ a.toNat ≠ 237 ∧ 128 ≤ b.toNat ∧ b.toNat ≤ 191 := by
  unfold opensThree
  simp only [beq_iff_eq, ← UInt8.toNat_inj, UInt8.reduceToNat]
  split
  · simp [UInt8.le_iff_toNat_le]
    omega
  · split <;> simp [UInt8.le_iff_toNat_le, isTail] <;> omega

theorem opensFour_iff : opensFour a b = true ↔
    a.toNat = 240 ∧ 144 ≤ b.toNat ∧ b.toNat ≤ 191 ∨ a.toNat = 244 ∧ 128 ≤ b.toNat ∧ b.toNat ≤ 143 ∨
      241 ≤ a.toNat ∧ a.toNat ≤ 243 ∧ 128 ≤ b.toNat ∧ b.toNat ≤ 191 := by
  unfold opensFour
  simp only [beq_iff_eq, ← UInt8.toNat_inj, UInt8.reduceToNat]
  split
  · simp [UInt8.le_iff_toNat_le]
    omega
  · split <;> simp [UInt8.le_iff_toNat_le, isTail] <;> omega

theorem decode_ascii (ascii : a < 0x80) (rest : List UInt8) :
    decode (a :: rest) = Char.ofNat a.toNat :: decode rest := by
  rw [decode.eq_def]
  cases rest <;> simp [ascii, decode]

theorem decode_two (lead : 194 ≤ a.toNat ∧ a.toNat ≤ 223) (tail : isTail b = true)
    (rest : List UInt8) : decode (a :: b :: rest) = twoBytes a b :: decode rest := by
  have notAscii : ¬ a < 0x80 := by
    rw [UInt8.lt_iff_toNat_lt]
    exact Nat.not_lt.mpr (by simp; omega)
  have isLead : 0xC2 ≤ a ∧ a ≤ 0xDF := by
    simpa [UInt8.le_iff_toNat_le] using lead
  rw [decode.eq_def]
  simp [notAscii, isLead, tail]

theorem decode_three (opens : opensThree a b = true) (tail : isTail c = true) (rest : List UInt8) :
    decode (a :: b :: c :: rest) = threeBytes a b c :: decode rest := by
  have lead := opensThree_iff.mp opens
  have notAscii : ¬ a < 0x80 := by
    rw [UInt8.lt_iff_toNat_lt]
    exact Nat.not_lt.mpr (by simp; omega)
  have notTwo : ¬ a ≤ 0xDF := by
    rw [UInt8.le_iff_toNat_le]
    exact Nat.not_le.mpr (by simp; omega)
  rw [decode.eq_def]
  simp [notAscii, notTwo, opens, tail]

theorem decode_four (opens : opensFour a b = true) (tail : isTail c = true)
    (last : isTail d = true) (rest : List UInt8) :
    decode (a :: b :: c :: d :: rest) = fourBytes a b c d :: decode rest := by
  have lead := opensFour_iff.mp opens
  have notAscii : ¬ a < 0x80 := by
    rw [UInt8.lt_iff_toNat_lt]
    exact Nat.not_lt.mpr (by simp; omega)
  have notTwo : ¬ a ≤ 0xDF := by
    rw [UInt8.le_iff_toNat_le]
    exact Nat.not_le.mpr (by simp; omega)
  have notThree : opensThree a b = false := by
    rw [Bool.eq_false_iff, ne_eq, opensThree_iff]
    omega
  rw [decode.eq_def]
  simp [notAscii, notTwo, notThree, opens, tail, last]

end Sequences

theorem decode_encoded (c : Char) (rest : List UInt8) :
    decode (String.utf8EncodeChar c ++ rest) = c :: decode rest := by
  have valid : c.val.toNat < 55296 ∨ 57343 < c.val.toNat ∧ c.val.toNat < 1114112 := c.valid
  have isChar : Char.ofNat c.val.toNat = c := Char.ofNat_toNat c
  have byte : ∀ {n : Nat}, n < 256 → (UInt8.ofNat n).toNat = n := UInt8.toNat_ofNat_of_lt'
  unfold String.utf8EncodeChar
  generalize c.val.toNat = value at *
  have tail : ∀ n, isTail (UInt8.ofNat (n % 64 + 128)) = true := by
    intro n
    rw [isTail_iff, byte (by omega)]
    omega
  dsimp only
  split
  case isTrue small =>
    have ascii : UInt8.ofNat value < 0x80 := by
      rw [UInt8.lt_iff_toNat_lt, byte (by omega)]
      exact Nat.lt_succ_of_le small
    rw [List.singleton_append, decode_ascii ascii, byte (by omega), isChar]
  split
  case isTrue small =>
    have lead : 194 ≤ (UInt8.ofNat (value / 64 % 32 + 192)).toNat ∧
        (UInt8.ofNat (value / 64 % 32 + 192)).toNat ≤ 223 := by
      rw [byte (by omega)]
      omega
    rw [List.cons_append, List.singleton_append, decode_two lead (tail _), twoBytes, tailBits,
      byte (by omega), byte (by omega)]
    rw [show (value / 64 % 32 + 192) % 32 * 64 + (value % 64 + 128) % 64 = value by omega, isChar]
  split
  case isTrue small =>
    have opens : opensThree (UInt8.ofNat (value / 4096 % 16 + 224))
        (UInt8.ofNat (value / 64 % 64 + 128)) = true := by
      rw [opensThree_iff, byte (by omega), byte (by omega)]
      omega
    rw [List.cons_append, List.cons_append, List.singleton_append, decode_three opens (tail _),
      threeBytes, tailBits, tailBits, byte (by omega), byte (by omega), byte (by omega)]
    rw [show (value / 4096 % 16 + 224) % 16 * 4096 + (value / 64 % 64 + 128) % 64 * 64 +
      (value % 64 + 128) % 64 = value by omega, isChar]
  case isFalse wide =>
    have opens : opensFour (UInt8.ofNat (value / 262144 % 8 + 240))
        (UInt8.ofNat (value / 4096 % 64 + 128)) = true := by
      rw [opensFour_iff, byte (by omega), byte (by omega)]
      omega
    rw [List.cons_append, List.cons_append, List.cons_append, List.singleton_append,
      decode_four opens (tail _) (tail _), fourBytes, tailBits, tailBits, tailBits,
      byte (by omega), byte (by omega), byte (by omega), byte (by omega)]
    rw [show (value / 262144 % 8 + 240) % 8 * 262144 + (value / 4096 % 64 + 128) % 64 * 4096 +
      (value / 64 % 64 + 128) % 64 * 64 + (value % 64 + 128) % 64 = value by omega, isChar]

theorem decode_bytes (text : List Char) : decode (bytes text) = text := by
  induction text with
  | nil => rfl
  | cons c rest inductionHypothesis =>
      have first : bytes (c :: rest) = String.utf8EncodeChar c ++ bytes rest := rfl
      rw [first, decode_encoded, inductionHypothesis]

end AutoloadIndex.Text
