import Mathlib.Data.Finset.Card
import Mathlib.Data.Finset.Dedup
import Mathlib.Data.List.Nodup

/-!
# First-writer-wins maps

A finite map grows by writes. The first write of a key fixes its value for good, later writes of
the key change nothing. The map is the association list of the successful writes in order.
-/

namespace Cpe464.FirstWriter

variable {κ ν : Type*} [DecidableEq κ]

/-- The value of the first pair with a key. -/
def lookup (m : List (κ × ν)) (k : κ) : Option ν :=
  (m.find? fun w => w.1 = k).map Prod.snd

/-- A write takes effect only on a key that has no value. -/
def write (m : List (κ × ν)) (w : κ × ν) : List (κ × ν) :=
  if w.1 ∈ m.map Prod.fst then m else m ++ [w]

/-- A sequence of writes to the empty map. -/
def writes (ws : List (κ × ν)) : List (κ × ν) := ws.foldl write []

theorem write_of_mem {m : List (κ × ν)} {w : κ × ν} (h : w.1 ∈ m.map Prod.fst) :
    write m w = m := if_pos h

theorem write_of_notMem {m : List (κ × ν)} {w : κ × ν} (h : w.1 ∉ m.map Prod.fst) :
    write m w = m ++ [w] := if_neg h

theorem writes_concat (ws : List (κ × ν)) (w : κ × ν) :
    writes (ws ++ [w]) = write (writes ws) w := by
  simp [writes, List.foldl_append]

theorem mem_keys_write (m : List (κ × ν)) (w : κ × ν) (k : κ) :
    k ∈ (write m w).map Prod.fst ↔ k ∈ m.map Prod.fst ∨ k = w.1 := by
  by_cases h : w.1 ∈ m.map Prod.fst
  · rw [write_of_mem h]
    constructor
    · exact Or.inl
    · intro hk
      rcases hk with hk | rfl
      · exact hk
      · exact h
  · rw [write_of_notMem h]
    simp

theorem mem_keys_writes (ws : List (κ × ν)) (k : κ) :
    k ∈ (writes ws).map Prod.fst ↔ k ∈ ws.map Prod.fst := by
  induction ws using List.reverseRecOn with
  | nil => simp [writes]
  | append_singleton ws w ih => rw [writes_concat, mem_keys_write, ih]; simp

theorem nodup_keys_write {m : List (κ × ν)} (h : (m.map Prod.fst).Nodup) (w : κ × ν) :
    ((write m w).map Prod.fst).Nodup := by
  by_cases hw : w.1 ∈ m.map Prod.fst
  · rwa [write_of_mem hw]
  · rw [write_of_notMem hw, List.map_append, List.nodup_append]
    refine ⟨h, by simp, ?_⟩
    intro a ha b hb hab
    have hbw : b = w.1 := by simpa using hb
    exact hw (by rwa [← hbw, ← hab])

theorem nodup_keys_writes (ws : List (κ × ν)) : ((writes ws).map Prod.fst).Nodup := by
  induction ws using List.reverseRecOn with
  | nil => simp [writes]
  | append_singleton ws w ih => rw [writes_concat]; exact nodup_keys_write ih w

theorem prefix_write (m : List (κ × ν)) (w : κ × ν) : m <+: write m w := by
  by_cases h : w.1 ∈ m.map Prod.fst
  · rw [write_of_mem h]
  · rw [write_of_notMem h]
    exact List.prefix_append m [w]

theorem lookup_eq_none_iff (m : List (κ × ν)) (k : κ) :
    lookup m k = none ↔ k ∉ m.map Prod.fst := by
  simp only [lookup, Option.map_eq_none_iff, List.find?_eq_none, decide_eq_true_eq, List.mem_map,
    not_exists, not_and]

theorem lookup_append (m n : List (κ × ν)) (k : κ) :
    lookup (m ++ n) k = (lookup m k).or (lookup n k) := by
  simp only [lookup, List.find?_append]
  cases m.find? fun w => w.1 = k <;> simp

theorem lookup_singleton (w : κ × ν) (k : κ) :
    lookup [w] k = if w.1 = k then some w.2 else none := by
  by_cases h : w.1 = k <;> simp [lookup, h]

theorem mem_of_lookup_eq_some {m : List (κ × ν)} {k : κ} {v : ν} (h : lookup m k = some v) :
    (k, v) ∈ m := by
  obtain ⟨w, hw, rfl⟩ := Option.map_eq_some_iff.mp h
  have hk : w.1 = k := by simpa using List.find?_some hw
  rw [← hk]
  exact List.mem_of_find?_eq_some hw

theorem lookup_eq_some_of_mem {m : List (κ × ν)} (hnodup : (m.map Prod.fst).Nodup) {k : κ} {v : ν}
    (h : (k, v) ∈ m) : lookup m k = some v := by
  induction m with
  | nil => simp at h
  | cons w m ih =>
    simp only [List.map_cons, List.nodup_cons] at hnodup
    by_cases hw : w.1 = k
    · rcases List.mem_cons.mp h with h | h
      · simp [lookup, ← h]
      · exact absurd (hw ▸ List.mem_map_of_mem h) hnodup.1
    · have hm : (k, v) ∈ m := by
        rcases List.mem_cons.mp h with h | h
        · exact absurd (by rw [← h]) hw
        · exact h
      have hcons : lookup (w :: m) k = lookup m k := by simp [lookup, hw]
      rw [hcons, ih hnodup.2 hm]

/-- The map sends a key to its first write. -/
theorem lookup_writes (ws : List (κ × ν)) (k : κ) : lookup (writes ws) k = lookup ws k := by
  induction ws using List.reverseRecOn with
  | nil => rfl
  | append_singleton ws w ih =>
    rw [writes_concat, lookup_append, ← ih]
    by_cases h : w.1 ∈ (writes ws).map Prod.fst
    · rw [write_of_mem h]
      cases hk : lookup (writes ws) k with
      | some v => rfl
      | none =>
        have hne : w.1 ≠ k := by
          intro he
          exact (lookup_eq_none_iff _ _).mp hk (he ▸ h)
        simp [lookup_singleton, hne]
    · rw [write_of_notMem h, lookup_append]

theorem length_writes (ws : List (κ × ν)) :
    (writes ws).length = (ws.map Prod.fst).dedup.length := by
  have hperm : ((writes ws).map Prod.fst).Perm (ws.map Prod.fst).dedup := by
    rw [List.perm_ext_iff_of_nodup (nodup_keys_writes ws) (List.nodup_dedup _)]
    intro k
    rw [mem_keys_writes, List.mem_dedup]
  have := hperm.length_eq
  rwa [List.length_map] at this

end Cpe464.FirstWriter
