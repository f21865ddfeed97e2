import Mathlib.Algebra.Group.Int.Defs
import Mathlib.Algebra.Group.Nat.Defs
import Mathlib.Data.List.Basic
import Mathlib.Tactic.Common

/-!
# Byte memories and integers in memory

A contiguous memory is the list of its bytes. Reads are slices, writes overlay a range, and a
fixed-width integer lies in memory as its little-endian bytes.
-/

namespace Cpe464

/-- The `count` bytes of a memory from `offset` on. -/
def slice (memory : List UInt8) (offset count : Nat) : List UInt8 :=
  (memory.drop offset).take count

/-- The byte at an index; zero past the end. -/
def byteAt (memory : List UInt8) (i : Nat) : UInt8 := memory.getD i 0

/-- Write `bytes` over a memory from `offset` on. -/
def overlay (memory : List UInt8) (offset : Nat) (bytes : List UInt8) : List UInt8 :=
  memory.take offset ++ bytes ++ memory.drop (offset + bytes.length)

/-- A write that has to stay inside the memory. -/
def store (memory : List UInt8) (offset : Nat) (bytes : List UInt8) : Option (List UInt8) :=
  if offset + bytes.length ≤ memory.length then some (overlay memory offset bytes) else none

theorem length_slice (memory : List UInt8) (offset count : Nat)
    (h : offset + count ≤ memory.length) : (slice memory offset count).length = count := by
  simp only [slice, List.length_take, List.length_drop]
  omega

theorem length_slice_le (memory : List UInt8) (offset count : Nat) :
    (slice memory offset count).length ≤ count := List.length_take_le _ _

theorem slice_middle (before bytes after : List UInt8) :
    slice (before ++ bytes ++ after) before.length bytes.length = bytes := by
  simp [slice, List.append_assoc]

theorem slice_append_left (memory after : List UInt8) (offset count : Nat)
    (h : offset + count ≤ memory.length) :
    slice (memory ++ after) offset count = slice memory offset count := by
  simp only [slice]
  rw [List.drop_append_of_le_length (by omega),
    List.take_append_of_le_length (by rw [List.length_drop]; omega)]

theorem byteAt_append_left (memory after : List UInt8) (i : Nat) (h : i < memory.length) :
    byteAt (memory ++ after) i = byteAt memory i := by
  simp only [byteAt, List.getD_eq_getElem?_getD, List.getElem?_append_left h]

theorem byteAt_append_right (before memory : List UInt8) (i : Nat) :
    byteAt (before ++ memory) (before.length + i) = byteAt memory i := by
  simp only [byteAt, List.getD_eq_getElem?_getD,
    List.getElem?_append_right (Nat.le_add_right _ _), Nat.add_sub_cancel_left]

@[simp] theorem byteAt_cons_zero (b : UInt8) (memory : List UInt8) :
    byteAt (b :: memory) 0 = b := rfl

@[simp] theorem byteAt_cons_succ (b : UInt8) (memory : List UInt8) (i : Nat) :
    byteAt (b :: memory) (i + 1) = byteAt memory i := rfl

theorem length_overlay (memory bytes : List UInt8) (offset : Nat)
    (h : offset + bytes.length ≤ memory.length) :
    (overlay memory offset bytes).length = memory.length := by
  simp only [overlay, List.length_append, List.length_take, List.length_drop]
  omega

theorem overlay_zero (memory bytes : List UInt8) :
    overlay memory 0 bytes = bytes ++ memory.drop bytes.length := by
  simp [overlay]

theorem overlay_append_left (memory after bytes : List UInt8) (offset : Nat)
    (h : offset + bytes.length ≤ memory.length) :
    overlay (memory ++ after) offset bytes = overlay memory offset bytes ++ after := by
  unfold overlay
  rw [List.take_append_of_le_length (by omega), List.drop_append_of_le_length h]
  simp only [List.append_assoc]

theorem overlay_append (before memory bytes : List UInt8) :
    overlay (before ++ memory) before.length bytes =
      before ++ bytes ++ memory.drop bytes.length := by
  simp only [overlay, List.take_left, List.append_assoc, List.drop_append,
    Nat.add_sub_cancel_left,
    List.drop_of_length_le (Nat.le_add_right before.length bytes.length), List.nil_append]

theorem store_append (before memory bytes : List UInt8) (h : bytes.length ≤ memory.length) :
    store (before ++ memory) before.length bytes =
      some (before ++ bytes ++ memory.drop bytes.length) := by
  have hfit : before.length + bytes.length ≤ (before ++ memory).length := by
    rw [List.length_append]
    omega
  rw [store, if_pos hfit, overlay_append]

theorem store_eq_some {memory memory' bytes : List UInt8} {offset : Nat}
    (h : store memory offset bytes = some memory') :
    offset + bytes.length ≤ memory.length ∧ memory' = overlay memory offset bytes := by
  unfold store at h
  split at h
  · rename_i hfit
    exact ⟨hfit, (Option.some.inj h).symm⟩
  · cases h

theorem take_overlay (memory bytes : List UInt8) {offset n : Nat} (h : n ≤ offset)
    (hfit : offset ≤ memory.length) : (overlay memory offset bytes).take n = memory.take n := by
  unfold overlay
  rw [List.append_assoc, List.take_append_of_le_length (by rw [List.length_take]; omega),
    List.take_take, Nat.min_eq_left h]

theorem take_overlay_end (memory bytes : List UInt8) {offset : Nat}
    (hfit : offset ≤ memory.length) :
    (overlay memory offset bytes).take (offset + bytes.length) = memory.take offset ++ bytes := by
  apply List.take_left'
  rw [List.length_append, List.length_take, Nat.min_eq_left hfit]

/-! ## Replacing one byte -/

theorem byteAt_set_self (memory : List UInt8) (i : Nat) (b : UInt8) (h : i < memory.length) :
    byteAt (memory.set i b) i = b := by
  rw [byteAt, List.getD_eq_getElem?_getD, List.getElem?_set_self h, Option.getD_some]

theorem byteAt_slice (memory : List UInt8) (offset count i : Nat) (h : i < count) :
    byteAt (slice memory offset count) i = byteAt memory (offset + i) := by
  simp only [byteAt, slice, List.getD_eq_getElem?_getD, List.getElem?_take_of_lt h,
    List.getElem?_drop]

theorem overlay_set_outside (memory bytes : List UInt8) (offset i : Nat) (b : UInt8)
    (hfit : offset + bytes.length ≤ memory.length)
    (h : i < offset ∨ offset + bytes.length ≤ i) :
    overlay (memory.set i b) offset bytes = (overlay memory offset bytes).set i b := by
  have htake : (memory.take offset).length = offset := by
    rw [List.length_take]
    omega
  unfold overlay
  rw [List.take_set, List.drop_set]
  rcases h with h | h
  · rw [if_pos (by omega), List.set_append_left _ _ (by rw [List.length_append]; omega),
      List.set_append_left _ _ (by omega)]
  · rw [if_neg (by omega), List.set_append_right _ _ (by rw [List.length_append]; omega),
      List.set_eq_of_length_le (by omega), List.length_append, htake]

theorem overlay_set_inside (memory bytes : List UInt8) (offset i : Nat) (b : UInt8)
    (h : offset ≤ i ∧ i < offset + bytes.length) :
    overlay (memory.set i b) offset bytes = overlay memory offset bytes := by
  unfold overlay
  rw [List.take_set, List.drop_set, if_pos h.2,
    List.set_eq_of_length_le (by rw [List.length_take]; omega)]

theorem slice_set_outside (memory : List UInt8) (offset count i : Nat) (b : UInt8)
    (h : i < offset ∨ offset + count ≤ i) :
    slice (memory.set i b) offset count = slice memory offset count := by
  unfold slice
  rw [List.drop_set]
  by_cases hi : i < offset
  · rw [if_pos hi]
  · rw [if_neg hi, List.take_set, List.set_eq_of_length_le (by rw [List.length_take]; omega)]

theorem slice_set_inside (memory : List UInt8) (offset count i : Nat) (b : UInt8)
    (h : offset ≤ i) :
    slice (memory.set i b) offset count = (slice memory offset count).set (i - offset) b := by
  unfold slice
  rw [List.drop_set, if_neg (by omega), List.take_set]

theorem byteAt_overlay_outside (memory bytes : List UInt8) (offset i : Nat)
    (hfit : offset + bytes.length ≤ memory.length)
    (h : i < offset ∨ offset + bytes.length ≤ i) :
    byteAt (overlay memory offset bytes) i = byteAt memory i := by
  have htake : (memory.take offset).length = offset := by
    rw [List.length_take]
    omega
  unfold overlay byteAt
  rw [List.getD_eq_getElem?_getD, List.getD_eq_getElem?_getD]
  rcases h with h | h
  · rw [List.getElem?_append_left (by rw [List.length_append]; omega),
      List.getElem?_append_left (by omega), List.getElem?_take_of_lt h]
  · rw [List.getElem?_append_right (by rw [List.length_append]; omega), List.getElem?_drop,
      List.length_append, htake, Nat.add_sub_cancel' h]

theorem byteAt_overlay_inside (memory bytes : List UInt8) (offset i : Nat)
    (hfit : offset ≤ memory.length) (h : i < bytes.length) :
    byteAt (overlay memory offset bytes) (offset + i) = byteAt bytes i := by
  have htake : (memory.take offset).length = offset := by
    rw [List.length_take]
    omega
  have hbyte := byteAt_append_right (memory.take offset)
    (bytes ++ memory.drop (offset + bytes.length)) i
  rw [htake, ← List.append_assoc] at hbyte
  rw [overlay, hbyte, byteAt_append_left _ _ _ h]

private theorem getElem?_of_byteAt {memory memory' : List UInt8} {i : Nat}
    (hlen : memory.length = memory'.length) (h : byteAt memory i = byteAt memory' i) :
    memory[i]? = memory'[i]? := by
  by_cases hi : i < memory.length
  · simp only [byteAt, List.getD_eq_getElem?_getD, List.getElem?_eq_getElem hi,
      List.getElem?_eq_getElem (hlen ▸ hi), Option.getD_some] at h
    rw [List.getElem?_eq_getElem hi, List.getElem?_eq_getElem (hlen ▸ hi), h]
  · rw [List.getElem?_eq_none (by omega), List.getElem?_eq_none (by omega)]

theorem slice_congr {memory memory' : List UInt8} {offset count : Nat}
    (hlen : memory.length = memory'.length)
    (h : ∀ i, offset ≤ i → i < offset + count → byteAt memory i = byteAt memory' i) :
    slice memory offset count = slice memory' offset count := by
  apply List.ext_getElem?
  intro i
  unfold slice
  by_cases hi : i < count
  · rw [List.getElem?_take_of_lt hi, List.getElem?_take_of_lt hi, List.getElem?_drop,
      List.getElem?_drop]
    exact getElem?_of_byteAt hlen (h (offset + i) (by omega) (by omega))
  · rw [List.getElem?_eq_none (by rw [List.length_take]; omega),
      List.getElem?_eq_none (by rw [List.length_take]; omega)]

/-! ## Little-endian integers -/

/-- The `width` little-endian bytes of a value, which is cut to the width. -/
def toLE : Nat → Nat → List UInt8
  | 0, _ => []
  | width + 1, v => UInt8.ofNat v :: toLE width (v / 256)

/-- The value of little-endian bytes. -/
def ofLE : List UInt8 → Nat
  | [] => 0
  | b :: bs => b.toNat + 256 * ofLE bs

@[simp] theorem length_toLE (width v : Nat) : (toLE width v).length = width := by
  induction width generalizing v with
  | zero => rfl
  | succ width ih => simp [toLE, ih]

theorem ofLE_lt (bytes : List UInt8) : ofLE bytes < 256 ^ bytes.length := by
  induction bytes with
  | nil => simp [ofLE]
  | cons b bs ih =>
    have hb : b.toNat < 256 := b.toNat_lt
    simp only [ofLE, List.length_cons, Nat.pow_succ]
    omega

theorem ofLE_toLE (width v : Nat) : ofLE (toLE width v) = v % 256 ^ width := by
  induction width generalizing v with
  | zero => simp [toLE, ofLE, Nat.mod_one]
  | succ width ih =>
    have hlow : (UInt8.ofNat v).toNat = v % 256 := UInt8.toNat_ofNat' ..
    simp only [toLE, ofLE, ih, hlow]
    rw [Nat.pow_succ', Nat.mod_mul]

theorem toLE_ofLE (bytes : List UInt8) : toLE bytes.length (ofLE bytes) = bytes := by
  induction bytes with
  | nil => rfl
  | cons b bs ih =>
    have hb : b.toNat < 256 := b.toNat_lt
    have hlow : UInt8.ofNat (b.toNat + 256 * ofLE bs) = b := by
      apply UInt8.toNat.inj
      rw [UInt8.toNat_ofNat']
      omega
    have hhigh : (b.toNat + 256 * ofLE bs) / 256 = ofLE bs := by omega
    simp only [List.length_cons, ofLE, toLE, hlow, hhigh, ih]

theorem ofLE_inj {bytes bytes' : List UInt8} (hlen : bytes.length = bytes'.length)
    (h : ofLE bytes = ofLE bytes') : bytes = bytes' := by
  rw [← toLE_ofLE bytes, h, hlen, toLE_ofLE]

private theorem toLE_mod (width v : Nat) : toLE width (v % 256 ^ width) = toLE width v := by
  have h := toLE_ofLE (toLE width v)
  rwa [ofLE_toLE, length_toLE] at h

/-! ## Byte order

On a little-endian host the conversions between host and network order reverse the bytes.
-/

/-- The value whose `width` bytes are those of `v` in reverse. -/
def swapBytes (width v : Nat) : Nat := ofLE (toLE width v).reverse

theorem toLE_swapBytes (width v : Nat) :
    toLE width (swapBytes width v) = (toLE width v).reverse := by
  have h := toLE_ofLE (toLE width v).reverse
  rwa [List.length_reverse, length_toLE] at h

theorem swapBytes_lt (width v : Nat) : swapBytes width v < 256 ^ width := by
  have h := ofLE_lt (toLE width v).reverse
  rwa [List.length_reverse, length_toLE] at h

theorem swapBytes_swapBytes (width v : Nat) :
    swapBytes width (swapBytes width v) = v % 256 ^ width := by
  rw [swapBytes, toLE_swapBytes, List.reverse_reverse, ofLE_toLE]

theorem swapBytes_mod (width v : Nat) :
    swapBytes width (v % 256 ^ width) = swapBytes width v := by
  rw [swapBytes, toLE_mod, swapBytes]

theorem swapBytes_inj {width v w : Nat} (h : swapBytes width v = swapBytes width w) :
    v % 256 ^ width = w % 256 ^ width := by
  rw [← swapBytes_swapBytes, h, swapBytes_swapBytes]

theorem swapBytes_two (v : Nat) : swapBytes 2 v = 256 * (v % 256) + v / 256 % 256 := by
  have hlow : (UInt8.ofNat v).toNat = v % 256 := UInt8.toNat_ofNat' ..
  have hhigh : (UInt8.ofNat (v / 256)).toNat = v / 256 % 256 := UInt8.toNat_ofNat' ..
  show (UInt8.ofNat (v / 256)).toNat + 256 * ((UInt8.ofNat v).toNat + 256 * 0) = _
  rw [hlow, hhigh]
  omega

/-- `htons`: the argument is converted to 16 bits. -/
def htons (v : Nat) : Nat := swapBytes 2 v

def ntohs (v : Nat) : Nat := swapBytes 2 v

/-- `htonl`: the argument is converted to 32 bits. -/
def htonl (v : Nat) : Nat := swapBytes 4 v

def ntohl (v : Nat) : Nat := swapBytes 4 v

end Cpe464
