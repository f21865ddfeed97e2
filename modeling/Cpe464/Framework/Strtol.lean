import Mathlib.Data.Nat.Digits.Defs
import Mathlib.Tactic.Common

/-!
# Numbers in text

`strtol` in base ten and the tokens of `strtok_r` with one delimiter. A number that is written in
decimal, and a list of them with a delimiter in between, is read back.
-/

namespace Cpe464

def isDigit (b : UInt8) : Bool := 48 ≤ b && b ≤ 57

/-- `isspace`, in the C locale. -/
def isSpace (b : UInt8) : Bool := b == 32 || (9 ≤ b && b ≤ 13)

def digitsValue (digits : List UInt8) : Nat :=
  digits.foldl (fun v b => 10 * v + (b.toNat - 48)) 0

/-- The digits at the front of a text, as a number of this sign. -/
def strtolDigits (negative : Bool) (s : List UInt8) : Option Int :=
  let digits := s.takeWhile isDigit
  if digits = [] then none
  else if negative then some (max (-(digitsValue digits : Int)) (-2 ^ 63))
  else some (min (digitsValue digits : Int) (2 ^ 63 - 1))

/-- `strtol` in base ten, unless it leaves its end at the start. A number that is too large for a
`long` becomes the nearest one. -/
def strtol (s : List UInt8) : Option Int :=
  match s.dropWhile isSpace with
  | 45 :: rest => strtolDigits true rest
  | 43 :: rest => strtolDigits false rest
  | rest => strtolDigits false rest

/-- `atoi`: what an `int` has room for of a `long`. -/
def atoi (s : List UInt8) : Int := ((strtol s).getD 0).bmod (2 ^ 32)

/-- The tokens that `strtok_r` returns one after the other; none of them is empty. -/
def strtokr (delim : UInt8) (s : List UInt8) : List (List UInt8) :=
  (s.splitOn delim).filter (· ≠ [])

/-- A number in decimal. -/
def decimal (n : Nat) : List UInt8 :=
  if n = 0 then [48] else (Nat.digits 10 n).reverse.map fun d => UInt8.ofNat (48 + d)

private theorem digit_spec {d : Nat} (h : d < 10) :
    isDigit (UInt8.ofNat (48 + d)) = true ∧ (UInt8.ofNat (48 + d)).toNat = 48 + d := by
  have hvalue : (UInt8.ofNat (48 + d)).toNat = 48 + d :=
    UInt8.toNat_ofNat_of_lt' (show 48 + d < 256 by omega)
  refine ⟨?_, hvalue⟩
  simp only [isDigit, Bool.and_eq_true, decide_eq_true_eq, UInt8.le_iff_toNat_le, hvalue]
  exact ⟨Nat.le_add_right _ _, show 48 + d ≤ 57 by omega⟩

theorem digitsValue_digits (ds : List Nat) (h : ∀ d ∈ ds, d < 10) :
    digitsValue (ds.reverse.map fun d => UInt8.ofNat (48 + d)) = Nat.ofDigits 10 ds := by
  induction ds with
  | nil => rfl
  | cons d ds ih =>
    obtain ⟨hd, hds⟩ := List.forall_mem_cons.mp h
    rw [List.reverse_cons, List.map_append, digitsValue, List.foldl_append]
    rw [show List.foldl _ 0 _ = _ from ih hds, Nat.ofDigits_cons]
    simp only [List.map_cons, List.map_nil, List.foldl_cons, List.foldl_nil, (digit_spec hd).2]
    rw [Nat.add_sub_cancel_left, Nat.add_comm]

private theorem isSpace_digit {b : UInt8} (h : isDigit b = true) : isSpace b = false := by
  simp only [isDigit, Bool.and_eq_true, decide_eq_true_eq] at h
  have hlow : 48 ≤ b.toNat := UInt8.le_iff_toNat_le.mp h.1
  have hblank : b ≠ 32 := by
    rintro rfl
    exact absurd hlow (by decide)
  have hcontrol : ¬b ≤ 13 := by
    intro hle
    have hhigh : b.toNat ≤ 13 := UInt8.le_iff_toNat_le.mp hle
    omega
  simp [isSpace, hblank, hcontrol]

/-- The decimal form of a number consists of digits and has its value. -/
theorem decimal_spec (n : Nat) :
    decimal n ≠ [] ∧ (∀ b ∈ decimal n, isDigit b = true) ∧ digitsValue (decimal n) = n := by
  by_cases hzero : n = 0
  · rw [decimal, if_pos hzero, hzero]
    exact ⟨List.cons_ne_nil 48 [], List.forall_mem_singleton.mpr rfl, rfl⟩
  · have hdigits : ∀ d ∈ Nat.digits 10 n, d < 10 :=
      fun d hd => Nat.digits_lt_base (by decide) hd
    rw [decimal, if_neg hzero]
    refine ⟨?_, ?_, ?_⟩
    · rw [Ne, List.map_eq_nil_iff, List.reverse_eq_nil_iff]
      exact Nat.digits_ne_nil_iff_ne_zero.mpr hzero
    · intro b hb
      obtain ⟨d, hd, rfl⟩ := List.mem_map.mp hb
      exact (digit_spec (hdigits d (List.mem_reverse.mp hd))).1
    · rw [digitsValue_digits _ hdigits, Nat.ofDigits_digits]

private theorem takeWhile_digits {s rest : List UInt8} (hs : ∀ b ∈ s, isDigit b = true)
    (hrest : ∀ b ∈ rest.head?, isDigit b = false) : (s ++ rest).takeWhile isDigit = s := by
  have hstop : rest.takeWhile isDigit = [] := by
    cases rest with
    | nil => rfl
    | cons b rest => exact List.takeWhile_cons_of_neg (by simp [hrest b rfl])
  rw [List.takeWhile_append_of_pos hs, hstop, List.append_nil]

section Decimal

variable (n : Nat) {rest : List UInt8} (hrest : ∀ b ∈ rest.head?, isDigit b = false)

include hrest

private theorem strtolDigits_decimal (negative : Bool) :
    strtolDigits negative (decimal n ++ rest) =
      some (if negative then max (-(n : Int)) (-2 ^ 63) else min (n : Int) (2 ^ 63 - 1)) := by
  obtain ⟨hne, hdigits, hvalue⟩ := decimal_spec n
  simp only [strtolDigits, takeWhile_digits hdigits hrest, if_neg hne, hvalue]
  cases negative <;> rfl

theorem strtol_decimal : strtol (decimal n ++ rest) = some (min (n : Int) (2 ^ 63 - 1)) := by
  obtain ⟨hne, hdigits, -⟩ := decimal_spec n
  have hread := strtolDigits_decimal n hrest false
  obtain ⟨b, digits, heq⟩ := List.exists_cons_of_ne_nil hne
  have hdigit := hdigits b (heq ▸ List.mem_cons_self)
  rw [heq, List.cons_append] at hread ⊢
  rw [strtol, List.dropWhile_cons_of_neg (by simp [isSpace_digit hdigit])]
  split
  · rename_i hminus
    obtain ⟨rfl, -⟩ := List.cons.inj hminus
    exact absurd hdigit (by decide)
  · rename_i hplus
    obtain ⟨rfl, -⟩ := List.cons.inj hplus
    exact absurd hdigit (by decide)
  · exact hread

theorem strtol_neg : strtol (45 :: decimal n ++ rest) = some (max (-(n : Int)) (-2 ^ 63)) := by
  rw [List.cons_append, strtol, List.dropWhile_cons_of_neg (by decide)]
  exact strtolDigits_decimal n hrest true

end Decimal

theorem atoi_decimal {n : Nat} (h : n < 2 ^ 31) : atoi (decimal n) = n := by
  have hend : ∀ b ∈ ([] : List UInt8).head?, isDigit b = false := fun b hb => nomatch hb
  have hread := strtol_decimal n hend
  rw [List.append_nil] at hread
  rw [atoi, hread, Option.getD_some, Int.min_eq_left (by omega)]
  exact Int.bmod_eq_of_le_mul_two (by omega) (by omega)

/-- A number of either sign in decimal. -/
def decimalInt (z : Int) : List UInt8 :=
  if z < 0 then 45 :: decimal z.natAbs else decimal z.natAbs

/-- What `strtol` reads of a number that a `long` can hold is the number. -/
theorem strtol_decimalInt {z : Int} (hlow : -2 ^ 63 ≤ z) (hhigh : z < 2 ^ 63) :
    strtol (decimalInt z) = some z := by
  have hempty : ∀ b ∈ ([] : List UInt8).head?, isDigit b = false := fun b hb => nomatch hb
  unfold decimalInt
  by_cases hneg : z < 0
  · have hread := strtol_neg z.natAbs hempty
    rw [List.append_nil] at hread
    rw [if_pos hneg, hread]
    congr 1
    omega
  · have hread := strtol_decimal z.natAbs hempty
    rw [List.append_nil] at hread
    rw [if_neg hneg, hread]
    congr 1
    omega

/-- A sign and digits are all that a number consists of. -/
theorem mem_decimalInt {z : Int} {b : UInt8} (hb : b ∈ decimalInt z) :
    b = 45 ∨ isDigit b = true := by
  unfold decimalInt at hb
  split at hb
  · rcases List.mem_cons.mp hb with rfl | hb
    · exact .inl rfl
    · exact .inr ((decimal_spec _).2.1 b hb)
  · exact .inr ((decimal_spec _).2.1 b hb)

theorem decimalInt_ne_nil (z : Int) : decimalInt z ≠ [] := by
  unfold decimalInt
  split
  · exact List.cons_ne_nil _ _
  · exact (decimal_spec _).1

/-- Tokens without the delimiter come back one by one. -/
theorem strtokr_intercalate {delim : UInt8} {tokens : List (List UInt8)}
    (hdelim : ∀ token ∈ tokens, delim ∉ token) (hempty : ∀ token ∈ tokens, token ≠ []) :
    strtokr delim ([delim].intercalate tokens) = tokens := by
  by_cases hnone : tokens = []
  · subst hnone
    rfl
  · rw [strtokr, List.splitOn_intercalate delim hdelim hnone, List.filter_eq_self]
    exact fun token hmem => by simpa using hempty token hmem

/-- Numbers with commas in between. -/
def decimalList (zs : List Int) : List UInt8 := [44].intercalate (zs.map decimalInt)

theorem strtokr_decimalList (zs : List Int) : strtokr 44 (decimalList zs) = zs.map decimalInt := by
  apply strtokr_intercalate
  · intro token htoken hcomma
    obtain ⟨z, -, rfl⟩ := List.mem_map.mp htoken
    rcases mem_decimalInt hcomma with hminus | hdigit
    · exact absurd hminus (by decide)
    · exact absurd hdigit (by decide)
  · intro token htoken
    obtain ⟨z, -, rfl⟩ := List.mem_map.mp htoken
    exact decimalInt_ne_nil z

end Cpe464
