import Cpe464.Framework.Bytes
import Mathlib.Algebra.BigOperators.Group.List.Defs
import Mathlib.Algebra.Ring.Int.Defs

/-!
# Ones' complement sums

The sum of the little-endian 16-bit words of a memory, an odd byte at its end being a low byte,
with the carries folded back in. Folding keeps the sum modulo 65535, and one byte is worth less
than that, so a change of one byte always shows.

The standard sums big-endian words with an end-around carry. That is the same sum times 256 modulo
65535, so the two agree on whether all bits of the sum are set. A checksum that is stored in the
other byte order fills the sum up only when its two bytes are equal.
-/

namespace Cpe464

/-- The sum of the words of a memory. -/
def wordSum : List UInt8 → Nat
  | a :: b :: bytes => a.toNat + 256 * b.toNat + wordSum bytes
  | [a] => a.toNat
  | [] => 0

/-- Fold the carries of a sum back in, twice. -/
def foldCarries (sum : Nat) : Nat :=
  let folded := sum / 65536 + sum % 65536
  (folded + folded / 65536) % 65536

/-- What a byte at an index counts in the sum. -/
def byteWeight (i : Nat) : Nat := if i % 2 = 0 then 1 else 256

private theorem byteWeight_zero : byteWeight 0 = 1 := rfl

private theorem byteWeight_one : byteWeight 1 = 256 := rfl

private theorem byteWeight_add_two (i : Nat) : byteWeight (i + 2) = byteWeight i := by
  simp [byteWeight]

theorem wordSum_le (bytes : List UInt8) : wordSum bytes ≤ 65535 * ((bytes.length + 1) / 2) := by
  fun_induction wordSum bytes with
  | case1 a b bytes ih =>
    have ha := a.toNat_lt
    have hb := b.toNat_lt
    simp only [List.length_cons]
    omega
  | case2 a =>
    have ha := a.toNat_lt
    simp only [List.length_cons, List.length_nil]
    omega
  | case3 => simp

theorem wordSum_append (front back : List UInt8) (h : front.length % 2 = 0) :
    wordSum (front ++ back) = wordSum front + wordSum back := by
  fun_induction wordSum front with
  | case1 a b front ih =>
    have hrest := ih (by simp only [List.length_cons] at h; omega)
    rw [List.cons_append, List.cons_append, wordSum, hrest, Nat.add_assoc (_ + _)]
  | case2 a => simp at h
  | case3 => rw [List.nil_append, Nat.zero_add]

theorem wordSum_toLE (v : Nat) : wordSum (toLE 2 v) = v % 65536 := ofLE_toLE 2 v

/-- Replacing a byte moves the sum by the difference at the byte's weight. -/
theorem wordSum_set (bytes : List UInt8) (i : Nat) (b : UInt8) (h : i < bytes.length) :
    wordSum (bytes.set i b) + byteWeight i * (byteAt bytes i).toNat =
      wordSum bytes + byteWeight i * b.toNat := by
  fun_induction wordSum bytes generalizing i with
  | case1 x y bytes ih =>
    match i with
    | 0 =>
      simp only [List.set_cons_zero, wordSum, byteAt_cons_zero, byteWeight_zero]
      omega
    | 1 =>
      simp only [List.set_cons_succ, List.set_cons_zero, wordSum, byteAt_cons_succ,
        byteAt_cons_zero, byteWeight_one]
      omega
    | i + 2 =>
      simp only [List.length_cons, Nat.add_lt_add_iff_right] at h
      have := ih i h
      simp only [List.set_cons_succ, wordSum, byteAt_cons_succ, byteWeight_add_two]
      omega
  | case2 x =>
    obtain rfl : i = 0 := by simpa using h
    simp only [List.set_cons_zero, wordSum, byteAt_cons_zero, byteWeight_zero]
    omega
  | case3 => simp at h

/-- Folding keeps a sum of 32 bits modulo 65535. -/
theorem foldCarries_mod (sum : Nat) (h : sum < 2 ^ 32) :
    foldCarries sum % 65535 = sum % 65535 := by
  have hfolded : (sum / 65536 + sum % 65536) % 65535 = sum % 65535 := by omega
  have hsmall : sum / 65536 + sum % 65536 ≤ 131070 := by omega
  unfold foldCarries
  generalize sum / 65536 + sum % 65536 = folded at *
  show (folded + folded / 65536) % 65536 % 65535 = sum % 65535
  by_cases hcarry : folded < 65536
  · rw [Nat.div_eq_of_lt hcarry, Nat.add_zero, Nat.mod_eq_of_lt hcarry, hfolded]
  · have hone : folded / 65536 = 1 := by omega
    have hrest : (folded + 1) % 65536 = folded - 65535 := by omega
    rw [hone, hrest, ← Nat.mod_eq_sub_mod (by omega), hfolded]

theorem foldCarries_lt (sum : Nat) : foldCarries sum < 65536 := Nat.mod_lt _ (by decide)

theorem foldCarries_set_ne (bytes : List UInt8) (i : Nat) (b : UInt8) (h : i < bytes.length)
    (hlen : bytes.length ≤ 65536) (hne : b ≠ byteAt bytes i) :
    foldCarries (wordSum (bytes.set i b)) ≠ foldCarries (wordSum bytes) := by
  intro heq
  have hsum := wordSum_le bytes
  have hsum' := wordSum_le (bytes.set i b)
  rw [List.length_set] at hsum'
  have hset := wordSum_set bytes i b h
  have hmod := foldCarries_mod (wordSum bytes) (by omega)
  have hmod' := foldCarries_mod (wordSum (bytes.set i b)) (by omega)
  rw [heq] at hmod'
  have hnew := b.toNat_lt
  have hold := (byteAt bytes i).toNat_lt
  have hdiff : b.toNat ≠ (byteAt bytes i).toNat := fun h => hne (UInt8.toNat.inj h)
  unfold byteWeight at hset
  by_cases hparity : i % 2 = 0
  · rw [if_pos hparity] at hset
    omega
  · rw [if_neg hparity] at hset
    omega

/-! ## Byte order -/

/-- The sum of two words, with the carry added at the low end. -/
def onesAdd (x y : Nat) : Nat := (x + y) % 65536 + (x + y) / 65536

/-- The ones' complement sum of the big-endian words of a memory, which a zero byte pads to an even
length. -/
def bigEndianSum : List UInt8 → Nat
  | a :: b :: bytes => onesAdd (256 * a.toNat + b.toNat) (bigEndianSum bytes)
  | [a] => 256 * a.toNat
  | [] => 0

theorem onesAdd_lt {x y : Nat} (hx : x < 65536) (hy : y < 65536) : onesAdd x y < 65536 := by
  unfold onesAdd
  omega

theorem onesAdd_mod (x y : Nat) : onesAdd x y % 65535 = (x + y) % 65535 := by
  unfold onesAdd
  omega

theorem onesAdd_eq_zero_iff (x y : Nat) : onesAdd x y = 0 ↔ x = 0 ∧ y = 0 := by
  unfold onesAdd
  omega

theorem bigEndianSum_lt (bytes : List UInt8) : bigEndianSum bytes < 65536 := by
  fun_induction bigEndianSum bytes with
  | case1 a b bytes ih =>
    have ha := a.toNat_lt
    have hb := b.toNat_lt
    exact onesAdd_lt (by omega) ih
  | case2 a =>
    have ha := a.toNat_lt
    omega
  | case3 => decide

/-- Neither sum is zero unless all bytes are. -/
theorem bigEndianSum_eq_zero_iff (bytes : List UInt8) :
    bigEndianSum bytes = 0 ↔ wordSum bytes = 0 := by
  fun_induction bigEndianSum bytes with
  | case1 a b bytes ih =>
    rw [onesAdd_eq_zero_iff, ih, wordSum]
    omega
  | case2 a =>
    rw [wordSum]
    omega
  | case3 => exact Iff.rfl

/-- Swapping the bytes of a word multiplies it by 256 modulo 65535. -/
theorem bigEndianSum_mod (bytes : List UInt8) :
    bigEndianSum bytes % 65535 = 256 * wordSum bytes % 65535 := by
  fun_induction bigEndianSum bytes with
  | case1 a b bytes ih =>
    rw [onesAdd_mod, Nat.add_mod, ih, ← Nat.add_mod, wordSum]
    omega
  | case2 a => rw [wordSum]
  | case3 => rfl

theorem foldCarries_eq_zero_iff (sum : Nat) (h : sum < 2 ^ 32) :
    foldCarries sum = 0 ↔ sum = 0 := by
  have hfolded : sum / 65536 + sum % 65536 = 0 ↔ sum = 0 := by omega
  have hsmall : sum / 65536 + sum % 65536 ≤ 131070 := by omega
  unfold foldCarries
  generalize sum / 65536 + sum % 65536 = folded at *
  show (folded + folded / 65536) % 65536 = 0 ↔ sum = 0
  rw [← hfolded]
  by_cases hcarry : folded < 65536
  · rw [Nat.div_eq_of_lt hcarry, Nat.add_zero, Nat.mod_eq_of_lt hcarry]
  · have hone : folded / 65536 = 1 := by omega
    rw [hone]
    omega

/-- All bits of a folded sum are set for the multiples of 65535 other than zero. -/
theorem foldCarries_eq_full_iff (sum : Nat) (h : sum < 2 ^ 32) :
    foldCarries sum = 65535 ↔ sum ≠ 0 ∧ sum % 65535 = 0 := by
  have hmod := foldCarries_mod sum h
  have hzero := foldCarries_eq_zero_iff sum h
  have hlt := foldCarries_lt sum
  generalize foldCarries sum = folded at *
  omega

theorem foldCarries_full_iff (bytes : List UInt8) (h : wordSum bytes < 2 ^ 32) :
    foldCarries (wordSum bytes) = 65535 ↔ bigEndianSum bytes = 65535 := by
  have hbig := bigEndianSum_mod bytes
  have hbigZero := bigEndianSum_eq_zero_iff bytes
  have hbigLt := bigEndianSum_lt bytes
  rw [foldCarries_eq_full_iff _ h]
  generalize bigEndianSum bytes = big at *
  constructor
  · rintro ⟨hne, hsum⟩
    have hbigNe : big ≠ 0 := by omega
    omega
  · intro hfull
    have hsum : wordSum bytes % 65535 = 0 := by omega
    have hne : wordSum bytes ≠ 0 := by omega
    exact ⟨hne, hsum⟩

/-! ## A checksum field in the other byte order -/

/-- The complement of a folded sum, added with its bytes swapped, fills the sum up exactly when the
two bytes are equal, which are those of a multiple of 257. -/
theorem foldCarries_swapped_full_iff (sum : Nat) (h : sum < 2 ^ 31) :
    foldCarries (sum + swapBytes 2 (65535 - foldCarries sum)) = 65535 ↔ 257 ∣ sum := by
  have hmod := foldCarries_mod sum (by omega)
  have hzero := foldCarries_eq_zero_iff sum (by omega)
  have hlt := foldCarries_lt sum
  have hswapped := swapBytes_two (65535 - foldCarries sum)
  rw [foldCarries_eq_full_iff _ (by omega), hswapped]
  generalize foldCarries sum = folded at *
  obtain ⟨low, hlow⟩ : ∃ low, (65535 - folded) % 256 = low := ⟨_, rfl⟩
  obtain ⟨high, hhigh⟩ : ∃ high, (65535 - folded) / 256 % 256 = high := ⟨_, rfl⟩
  rw [hlow, hhigh]
  have hbytes : folded + (256 * high + low) = 65535 := by omega
  have hequal : 257 ∣ sum ↔ high = low := by omega
  have hfull : (sum + (256 * low + high)) % 65535 = 0 ↔ high = low := by omega
  rw [hequal, hfull]
  omega

def alternatingByteSum (bytes : List UInt8) : Int :=
  (bytes.map fun b => (b.toNat : Int)).alternatingSum

/-- Modulo 257 the high byte of a word counts negative. -/
theorem wordSum_mod (bytes : List UInt8) :
    (wordSum bytes : Int) % 257 = alternatingByteSum bytes % 257 := by
  fun_induction wordSum bytes with
  | case1 a b bytes ih =>
    have hsum : alternatingByteSum (a :: b :: bytes) =
        a.toNat + -b.toNat + alternatingByteSum bytes := rfl
    rw [hsum]
    omega
  | case2 a => rfl
  | case3 => rfl

end Cpe464
