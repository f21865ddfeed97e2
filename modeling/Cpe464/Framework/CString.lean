import Cpe464.Framework.Bytes

/-!
# C strings

A string is the part of a memory before its first zero byte. `strlen` and `strcmp` read byte by
byte and have no result when they run off the memory they are given; `strcmpSpan` counts the
bytes of the second string that a comparison touches.
-/

namespace Cpe464

/-- The bytes of a memory before its first zero byte. -/
def cString (memory : List UInt8) : List UInt8 := memory.takeWhile (· ≠ 0)

/-- The memory begins with the string `s` and its terminator. -/
def IsString (memory s : List UInt8) : Prop := 0 ∈ memory ∧ cString memory = s

instance (memory s : List UInt8) : Decidable (IsString memory s) :=
  inferInstanceAs (Decidable (_ ∧ _))

def strlen (memory : List UInt8) : Option Nat :=
  if 0 ∈ memory then some (cString memory).length else none

/-- The difference of the first bytes that differ, zero for equal strings. -/
def strcmp : List UInt8 → List UInt8 → Option Int
  | a :: as, b :: bs =>
      if a = b then if a = 0 then some 0 else strcmp as bs
      else some ((a.toNat : Int) - b.toNat)
  | _, _ => none

/-- How many bytes of its second argument `strcmp` reads. -/
def strcmpSpan : List UInt8 → List UInt8 → Nat
  | a :: as, b :: bs => if a = b ∧ a ≠ 0 then strcmpSpan as bs + 1 else 1
  | _, _ => 1

@[simp] theorem cString_cons_zero (memory : List UInt8) : cString (0 :: memory) = [] := by
  simp [cString]

theorem cString_cons {b : UInt8} (h : b ≠ 0) (memory : List UInt8) :
    cString (b :: memory) = b :: cString memory := by
  simp [cString, h]

theorem zero_notMem_cString (memory : List UInt8) : 0 ∉ cString memory := by
  induction memory with
  | nil => simp [cString]
  | cons b memory ih =>
    by_cases hb : b = 0
    · simp [hb]
    · rw [cString_cons hb]
      simp [Ne.symm hb, ih]

theorem byteAt_cString (memory : List UInt8) (k : Nat) (h : ∀ j < k, byteAt memory j ≠ 0) :
    byteAt (cString memory) k = byteAt memory k := by
  induction memory generalizing k with
  | nil => rfl
  | cons b memory ih =>
    cases k with
    | zero =>
      by_cases hb : b = 0
      · subst hb
        rw [cString_cons_zero]
        rfl
      · rw [cString_cons hb]
        rfl
    | succ k =>
      have hb : b ≠ 0 := h 0 (by omega)
      rw [cString_cons hb, byteAt_cons_succ, byteAt_cons_succ]
      exact ih k (fun j hj => h (j + 1) (by omega))

theorem cString_append_zero {s : List UInt8} (h : 0 ∉ s) (rest : List UInt8) :
    cString (s ++ 0 :: rest) = s := by
  induction s with
  | nil => simp
  | cons b s ih =>
    simp only [List.mem_cons, not_or] at h
    rw [List.cons_append, cString_cons (Ne.symm h.1), ih h.2]

theorem cString_of_notMem {s : List UInt8} (h : 0 ∉ s) : cString s = s := by
  induction s with
  | nil => rfl
  | cons b s ih =>
    simp only [List.mem_cons, not_or] at h
    rw [cString_cons (Ne.symm h.1), ih h.2]

theorem cString_append {s : List UInt8} (h : 0 ∉ s) (rest : List UInt8) :
    cString (s ++ rest) = s ++ cString rest := by
  induction s with
  | nil => rfl
  | cons b s ih =>
    simp only [List.mem_cons, not_or] at h
    rw [List.cons_append, cString_cons (Ne.symm h.1), ih h.2, List.cons_append]

theorem length_cString_le (memory : List UInt8) : (cString memory).length ≤ memory.length :=
  (List.takeWhile_sublist _).length_le

theorem length_cString_append_lt_iff (memory rest : List UInt8) :
    (cString (memory ++ rest)).length < memory.length ↔ 0 ∈ memory := by
  induction memory with
  | nil => simp
  | cons b memory ih =>
    by_cases hb : b = 0
    · simp [hb]
    · rw [List.cons_append, cString_cons hb, List.length_cons, List.length_cons,
        Nat.add_lt_add_iff_right, ih]
      simp [Ne.symm hb]

/-- A terminated memory splits at its first zero byte. -/
theorem exists_eq_cString_append {memory : List UInt8} (h : 0 ∈ memory) :
    ∃ rest, memory = cString memory ++ 0 :: rest := by
  induction memory with
  | nil => simp at h
  | cons b memory ih =>
    by_cases hb : b = 0
    · exact ⟨memory, by simp [hb]⟩
    · obtain ⟨rest, hrest⟩ := ih (by simpa [Ne.symm hb] using h)
      exact ⟨rest, by rw [cString_cons hb, List.cons_append, ← hrest]⟩

theorem isString_iff (memory s : List UInt8) :
    IsString memory s ↔ 0 ∉ s ∧ ∃ rest, memory = s ++ 0 :: rest := by
  constructor
  · rintro ⟨hz, rfl⟩
    exact ⟨zero_notMem_cString memory, exists_eq_cString_append hz⟩
  · rintro ⟨hs, rest, rfl⟩
    exact ⟨by simp, cString_append_zero hs rest⟩

theorem IsString.unique {memory s t : List UInt8} (hs : IsString memory s)
    (ht : IsString memory t) : s = t := hs.2.symm.trans ht.2

theorem isString_append_zero {s : List UInt8} (h : 0 ∉ s) (rest : List UInt8) :
    IsString (s ++ 0 :: rest) s := (isString_iff _ _).mpr ⟨h, rest, rfl⟩

theorem IsString.append {memory s : List UInt8} (h : IsString memory s) (rest : List UInt8) :
    IsString (memory ++ rest) s := by
  obtain ⟨hs, tail, rfl⟩ := (isString_iff _ _).mp h
  exact (isString_iff _ _).mpr ⟨hs, tail ++ rest, by simp⟩

theorem isString_append_iff {memory s : List UInt8} (h : s.length < memory.length)
    (rest : List UInt8) : IsString (memory ++ rest) s ↔ IsString memory s := by
  constructor
  · intro hs
    obtain ⟨hz, tail, htail⟩ := (isString_iff _ _).mp hs
    have hlength : (s ++ [0]).length ≤ memory.length := by
      rw [List.length_append, List.length_singleton]
      omega
    have hprefix : s ++ [0] <+: memory :=
      List.prefix_of_prefix_length_le ⟨tail, by simp [htail]⟩ (List.prefix_append _ rest) hlength
    obtain ⟨tail', hmemory⟩ := hprefix
    exact (isString_iff _ _).mpr ⟨hz, tail', by simp [← hmemory]⟩
  · intro hs
    exact hs.append rest

/-- The string at the start of a memory is decided by its first part if that is terminated, or if a
zero byte follows it. -/
theorem isString_append_cons_iff (text : List UInt8) (b : UInt8) (behind : List UInt8) :
    IsString (text ++ b :: behind) (cString text) ↔ 0 ∈ text ∨ b = 0 := by
  by_cases hzero : 0 ∈ text
  · have htext : IsString text (cString text) := ⟨hzero, rfl⟩
    exact iff_of_true (htext.append (b :: behind)) (.inl hzero)
  · rw [cString_of_notMem hzero, isString_iff]
    constructor
    · rintro ⟨-, rest, hrest⟩
      exact .inr (List.cons.inj (List.append_cancel_left hrest)).1
    · rintro (h | rfl)
      · exact absurd h hzero
      · exact ⟨hzero, behind, rfl⟩

theorem IsString.length_lt {memory s : List UInt8} (h : IsString memory s) :
    s.length < memory.length := by
  obtain ⟨_, tail, rfl⟩ := (isString_iff _ _).mp h
  simp

theorem isString_nil_cons (b : UInt8) (memory : List UInt8) :
    IsString (b :: memory) [] ↔ b = 0 := by
  rw [isString_iff]
  constructor
  · rintro ⟨_, rest, h⟩
    exact (List.cons.inj h).1
  · rintro rfl
    exact ⟨by simp, memory, rfl⟩

theorem isString_cons_cons (b c : UInt8) (memory s : List UInt8) :
    IsString (b :: memory) (c :: s) ↔ b = c ∧ c ≠ 0 ∧ IsString memory s := by
  simp only [isString_iff, List.mem_cons, not_or, List.cons_append, List.cons.injEq]
  constructor
  · rintro ⟨⟨hc, hs⟩, rest, rfl, rfl⟩
    exact ⟨rfl, Ne.symm hc, hs, rest, rfl⟩
  · rintro ⟨rfl, hc, hs, rest, rfl⟩
    exact ⟨⟨Ne.symm hc, hs⟩, rest, rfl, rfl⟩

/-- A string in an array that is filled up with zero bytes has a length unless it fills the
array. -/
theorem strlen_padded {s : List UInt8} (h : 0 ∉ s) {n : Nat} (hlen : s.length ≤ n) :
    strlen (s ++ List.replicate (n - s.length) 0) =
      if s.length = n then none else some s.length := by
  by_cases hfull : s.length = n
  · rw [if_pos hfull, hfull, Nat.sub_self, List.replicate_zero, List.append_nil, strlen, if_neg h]
  · obtain ⟨k, hk⟩ : ∃ k, n - s.length = k + 1 := ⟨n - s.length - 1, by omega⟩
    rw [if_neg hfull, hk, List.replicate_succ, strlen, if_pos (by simp), cString_append_zero h]

/-! ## Comparison -/

theorem strcmp_zero (s t : List UInt8) : strcmp (0 :: s) (0 :: t) = some 0 := by simp [strcmp]

theorem strcmp_cons {b : UInt8} (h : b ≠ 0) (s t : List UInt8) :
    strcmp (b :: s) (b :: t) = strcmp s t := by
  rw [strcmp, if_pos rfl, if_neg h]

theorem strcmp_ne {a b : UInt8} (h : a ≠ b) (s t : List UInt8) :
    strcmp (a :: s) (b :: t) = some ((a.toNat : Int) - b.toNat) := by
  rw [strcmp, if_neg h]

theorem strcmpSpan_cons {b : UInt8} (h : b ≠ 0) (s t : List UInt8) :
    strcmpSpan (b :: s) (b :: t) = strcmpSpan s t + 1 := by
  rw [strcmpSpan, if_pos ⟨rfl, h⟩]

theorem strcmpSpan_stop {a b : UInt8} (h : ¬(a = b ∧ a ≠ 0)) (s t : List UInt8) :
    strcmpSpan (a :: s) (b :: t) = 1 := by
  rw [strcmpSpan, if_neg h]

/-- `strcmp` answers zero exactly when both memories begin with one string. -/
theorem strcmp_eq_zero_iff (s t : List UInt8) :
    strcmp s t = some 0 ↔ ∃ u, IsString s u ∧ IsString t u := by
  induction s generalizing t with
  | nil => simp [strcmp, isString_iff]
  | cons a as ih =>
    cases t with
    | nil => simp [strcmp, isString_iff]
    | cons b bs =>
      have hsplit : (∃ u, IsString (a :: as) u ∧ IsString (b :: bs) u) ↔
          (a = 0 ∧ b = 0) ∨ (a = b ∧ a ≠ 0 ∧ ∃ u, IsString as u ∧ IsString bs u) := by
        constructor
        · rintro ⟨_ | ⟨c, u⟩, ha, hb⟩
          · exact .inl ⟨(isString_nil_cons ..).mp ha, (isString_nil_cons ..).mp hb⟩
          · obtain ⟨rfl, hc, has⟩ := (isString_cons_cons ..).mp ha
            obtain ⟨rfl, -, hbs⟩ := (isString_cons_cons ..).mp hb
            exact .inr ⟨rfl, hc, u, has, hbs⟩
        · rintro (⟨rfl, rfl⟩ | ⟨rfl, hc, u, ha, hb⟩)
          · exact ⟨[], (isString_nil_cons ..).mpr rfl, (isString_nil_cons ..).mpr rfl⟩
          · exact ⟨a :: u, (isString_cons_cons ..).mpr ⟨rfl, hc, ha⟩,
              (isString_cons_cons ..).mpr ⟨rfl, hc, hb⟩⟩
      rw [hsplit]
      by_cases hab : a = b
      · subst hab
        by_cases hz : a = 0
        · simp [hz, strcmp_zero]
        · simp [strcmp_cons hz, hz, ih]
      · have hne : (a.toNat : Int) - b.toNat ≠ 0 := by
          intro h
          exact hab (UInt8.toNat.inj (by omega))
        have hz : ¬(a = 0 ∧ b = 0) := by
          rintro ⟨rfl, rfl⟩
          exact hab rfl
        simp [strcmp_ne hab, hne, hab, hz]

theorem strcmp_isSome_of_isString {s t u : List UInt8} (ht : IsString t u)
    (hlen : u.length < s.length) : (strcmp s t).isSome := by
  induction u generalizing s t with
  | nil =>
    obtain ⟨_, rest, rfl⟩ := (isString_iff _ _).mp ht
    cases s with
    | nil => simp at hlen
    | cons a as =>
      by_cases ha : a = 0
      · simp [ha, strcmp_zero]
      · simp [strcmp_ne ha]
  | cons c u ih =>
    cases s with
    | nil => simp at hlen
    | cons a as =>
      cases t with
      | nil => simp [IsString] at ht
      | cons b bs =>
        obtain ⟨rfl, hb, hbs⟩ := (isString_cons_cons ..).mp ht
        by_cases hab : a = b
        · rw [hab, strcmp_cons hb]
          exact ih hbs (by simpa using hlen)
        · simp [strcmp_ne hab]

theorem strcmp_isSome_comm (s t : List UInt8) : (strcmp s t).isSome = (strcmp t s).isSome := by
  induction s generalizing t with
  | nil => cases t <;> rfl
  | cons a as ih =>
    cases t with
    | nil => rfl
    | cons b bs =>
      by_cases hab : a = b
      · subst hab
        by_cases ha : a = 0
        · simp [ha, strcmp_zero]
        · simp [strcmp_cons ha, ih]
      · simp [strcmp_ne hab, strcmp_ne (Ne.symm hab)]

/-- More memory behind either string does not change a comparison that was decided. -/
theorem strcmp_append {s t : List UInt8} {d : Int} (h : strcmp s t = some d)
    (s' t' : List UInt8) : strcmp (s ++ s') (t ++ t') = some d := by
  induction s generalizing t with
  | nil => simp [strcmp] at h
  | cons a as ih =>
    cases t with
    | nil => simp [strcmp] at h
    | cons b bs =>
      rw [List.cons_append, List.cons_append]
      by_cases hab : a = b
      · subst hab
        by_cases ha : a = 0
        · subst ha
          rw [strcmp_zero] at h ⊢
          exact h
        · rw [strcmp_cons ha] at h ⊢
          exact ih h
      · rw [strcmp_ne hab] at h ⊢
        exact h

/-- A comparison is decided inside `t` exactly when, on a longer memory, it is decided and reads
no byte behind `t`. -/
theorem strcmp_isSome_iff_span (s t t' : List UInt8) :
    (strcmp s t).isSome ↔ (strcmp s (t ++ t')).isSome ∧ strcmpSpan s (t ++ t') ≤ t.length := by
  induction s generalizing t with
  | nil => simp [strcmp]
  | cons a as ih =>
    cases t with
    | nil =>
      have hspan : strcmpSpan (a :: as) t' ≠ 0 := by
        cases t' with
        | nil => simp [strcmpSpan]
        | cons c cs =>
          by_cases h : a = c ∧ a ≠ 0
          · rw [strcmpSpan, if_pos h]
            omega
          · rw [strcmpSpan_stop h]
            omega
      simp [strcmp, hspan]
    | cons b bs =>
      rw [List.cons_append]
      by_cases hab : a = b
      · subst hab
        by_cases ha : a = 0
        · subst ha
          rw [strcmp_zero, strcmp_zero, strcmpSpan_stop (by simp)]
          simp
        · rw [strcmp_cons ha, strcmp_cons ha, strcmpSpan_cons ha, ih, List.length_cons,
            Nat.add_le_add_iff_right]
      · rw [strcmp_ne hab, strcmp_ne hab, strcmpSpan_stop (fun h => hab h.1)]
        simp

end Cpe464
