import Mathlib.Tactic.Common

/-!
# Lists cut into chunks

A producer fills a buffer of `room` elements again and again and flushes it when it is full; at the
end it flushes what is left, which may be nothing. The chunks it makes are the list it was given,
and their number is a quotient.
-/

namespace Cpe464

variable {α : Type*} {room : Nat} {xs : List α} {chunks : List (List α)}

/-- The chunks of a list: each is full but the last, which is not. -/
inductive Chunked (room : Nat) : List α → List (List α) → Prop
  | last (xs : List α) (h : xs.length < room) : Chunked room xs [xs]
  | full (chunk xs : List α) (chunks : List (List α)) (hfull : chunk.length = room)
      (hrest : Chunked room xs chunks) : Chunked room (chunk ++ xs) (chunk :: chunks)

namespace Chunked

theorem ne_nil (h : Chunked room xs chunks) : chunks ≠ [] := by
  cases h <;> simp

theorem flatten (h : Chunked room xs chunks) : chunks.flatten = xs := by
  induction h with
  | last xs h => simp
  | full chunk xs chunks hfull hrest ih => rw [List.flatten_cons, ih]

theorem length_le (h : Chunked room xs chunks) : ∀ chunk ∈ chunks, chunk.length ≤ room := by
  induction h with
  | last xs h =>
    intro chunk hchunk
    rw [List.mem_singleton.mp hchunk]
    exact Nat.le_of_lt h
  | full chunk xs chunks hfull hrest ih =>
    intro chunk' hchunk
    rcases List.mem_cons.mp hchunk with rfl | hchunk
    · exact Nat.le_of_eq hfull
    · exact ih chunk' hchunk

theorem length_of_mem_dropLast (h : Chunked room xs chunks) :
    ∀ chunk ∈ chunks.dropLast, chunk.length = room := by
  induction h with
  | last xs h => simp
  | full chunk xs chunks hfull hrest ih =>
    intro chunk' hchunk
    rw [List.dropLast_cons_of_ne_nil hrest.ne_nil] at hchunk
    rcases List.mem_cons.mp hchunk with rfl | hchunk
    · exact hfull
    · exact ih chunk' hchunk

private theorem room_pos (h : Chunked room xs chunks) : 0 < room := by
  induction h with
  | last xs h => exact Nat.zero_lt_of_lt h
  | full chunk xs chunks hfull hrest ih => exact ih

theorem length_eq (h : Chunked room xs chunks) : chunks.length = xs.length / room + 1 := by
  induction h with
  | last xs h => rw [Nat.div_eq_of_lt h, List.length_singleton]
  | full chunk xs chunks hfull hrest ih =>
    rw [List.length_cons, ih, List.length_append, hfull, Nat.add_comm room,
      Nat.add_div_right _ hrest.room_pos]

end Chunked

/-! ## Chunks of one size -/

theorem length_flatten_of_forall {n : Nat} (h : ∀ chunk ∈ chunks, chunk.length = n) :
    chunks.flatten.length = chunks.length * n := by
  induction chunks with
  | nil => simp
  | cons chunk chunks ih =>
    rw [List.forall_mem_cons] at h
    rw [List.flatten_cons, List.length_append, h.1, ih h.2, List.length_cons, Nat.succ_mul,
      Nat.add_comm]

theorem flatten_chunks (xs : List α) (n k : Nat) :
    ((List.range k).map fun j => (xs.drop (j * n)).take n).flatten = xs.take (k * n) := by
  induction k with
  | zero => simp
  | succ k ih =>
    rw [List.range_succ, List.map_append, List.flatten_append, ih, List.map_singleton,
      List.flatten_singleton, Nat.succ_mul, List.take_add]

/-- Numbered parts, in the order of their numbers; of a number that comes again the first part. -/
def assemble (parts : List (Nat × List α)) (count : Nat) : List α :=
  ((List.range count).map fun j => (parts.lookup j).getD []).flatten

private theorem take_prefix_flatten {parts : Nat → List α} {n : Nat} (k : Nat)
    (h : ∀ j < k, (parts j).length = n ∧ (xs.drop (j * n)).take n <+: parts j) :
    ((List.range k).map parts).flatten.length = k * n ∧
      xs.take (k * n) <+: ((List.range k).map parts).flatten := by
  induction k with
  | zero => simp
  | succ k ih =>
    obtain ⟨hlength, hfront⟩ := ih fun j hj => h j (Nat.lt_succ_of_lt hj)
    obtain ⟨hpart, hchunk⟩ := h k (Nat.lt_succ_self k)
    rw [List.range_succ, List.map_append, List.flatten_append, List.map_singleton,
      List.flatten_singleton, Nat.succ_mul, List.take_add]
    refine ⟨by rw [List.length_append, hlength, hpart], ?_⟩
    by_cases hend : xs.length < k * n
    · rw [List.drop_of_length_le (Nat.le_of_lt hend), List.take_nil, List.append_nil]
      exact hfront.trans (List.prefix_append _ _)
    · have hwhole : xs.take (k * n) = ((List.range k).map parts).flatten := by
        apply hfront.eq_of_length
        rw [List.length_take, hlength, Nat.min_eq_left (Nat.le_of_not_lt hend)]
      rw [hwhole]
      exact (List.prefix_append_right_inj _).mpr hchunk

/-- Once the part of every number is there, and if every part begins with the chunk of its number,
they make up the list, with what the last part has behind it. -/
theorem prefix_assemble {parts : List (Nat × List α)} {count n : Nat}
    (hparts : ∀ part ∈ parts, part.2.length = n ∧ (xs.drop (part.1 * n)).take n <+: part.2)
    (hall : ∀ j < count, j ∈ parts.map Prod.fst) (hlength : xs.length ≤ count * n) :
    (assemble parts count).length = count * n ∧ xs <+: assemble parts count := by
  have hpart (j : Nat) (hj : j < count) : ((parts.lookup j).getD []).length = n ∧
      (xs.drop (j * n)).take n <+: (parts.lookup j).getD [] := by
    obtain ⟨part, hpart, hnumber⟩ := List.mem_map.mp (hall j hj)
    obtain ⟨chunk, hlookup⟩ : ∃ chunk, parts.lookup j = some chunk := by
      refine Option.isSome_iff_exists.mp (List.lookup_isSome_iff.mpr ⟨part, hpart, ?_⟩)
      rw [hnumber, BEq.rfl]
    obtain ⟨before, behind, rfl, -⟩ := List.lookup_eq_some_iff.mp hlookup
    rw [hlookup, Option.getD_some]
    exact hparts (j, chunk) (List.mem_append_right _ List.mem_cons_self)
  obtain ⟨hsize, hfront⟩ := take_prefix_flatten count hpart
  rw [List.take_of_length_le hlength] at hfront
  exact ⟨hsize, hfront⟩

end Cpe464
