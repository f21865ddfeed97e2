import Mathlib.Tactic.Common

/-!
# Cumulative acknowledgements

A receiver answers each numbered message with acknowledgements. They are cumulative if each stands
for all lower numbers, and they never decrease. A receiver that returns the number of the message it
has just received does that exactly as long as the messages come in order.
-/

namespace Cpe464

/-- The acknowledgements sent after each received number are cumulative. -/
structure Cumulative (received : List Nat) (acks : List (List Nat)) : Prop where
  below : ∀ i numbers, acks[i]? = some numbers →
    ∀ r ∈ numbers, ∀ j < r, j ∈ received.take (i + 1)
  increasing : acks.flatten.Pairwise (· ≤ ·)

/-- The numbers go on from the one expected in order: each is the next one, or the last one
again. -/
def InOrder : Nat → List Nat → Prop
  | _, [] => True
  | expected, n :: ns => (n = expected ∨ n + 1 = expected) ∧ InOrder (n + 1) ns

private theorem echo_iff_inOrder (before numbers : List Nat) (expected : Nat)
    (hbefore : ∀ j, j ∈ before ↔ j < expected) :
    ((∀ i r, numbers[i]? = some r → ∀ j < r, j ∈ before ++ numbers.take (i + 1)) ∧
        numbers.Pairwise (· ≤ ·) ∧ ∀ r ∈ numbers, expected ≤ r + 1) ↔
      InOrder expected numbers := by
  induction numbers generalizing before expected with
  | nil => simp [InOrder]
  | cons n ns ih =>
    have hnext (hn : n = expected ∨ n + 1 = expected) (j : Nat) :
        j ∈ before ++ [n] ↔ j < n + 1 := by
      rw [List.mem_append, List.mem_singleton, hbefore]
      omega
    rw [InOrder, List.pairwise_cons, List.forall_mem_cons]
    constructor
    · rintro ⟨hbelow, ⟨hle, hpairwise⟩, hlow, hlast⟩
      have hn : n = expected ∨ n + 1 = expected := by
        by_contra hgap
        have hmissing := hbelow 0 n rfl expected (by omega)
        rw [Nat.zero_add, List.take_succ_cons, List.take_zero, List.mem_append,
          List.mem_singleton, hbefore] at hmissing
        omega
      refine ⟨hn, (ih (before ++ [n]) (n + 1) (hnext hn)).mp ⟨?_, hpairwise, ?_⟩⟩
      · intro i r hr j hj
        have hmem := hbelow (i + 1) r hr j hj
        rwa [List.take_succ_cons, ← List.singleton_append, ← List.append_assoc] at hmem
      · intro r hr
        have := hle r hr
        omega
    · rintro ⟨hn, hrest⟩
      obtain ⟨hbelow, hpairwise, hlast⟩ := (ih (before ++ [n]) (n + 1) (hnext hn)).mpr hrest
      refine ⟨?_, ⟨?_, hpairwise⟩, by omega, ?_⟩
      · intro i r hr j hj
        cases i with
        | zero =>
          obtain rfl : n = r := Option.some.inj hr
          rw [Nat.zero_add, List.take_succ_cons, List.take_zero]
          exact (hnext hn j).mpr (by omega)
        | succ i =>
          have hmem := hbelow i r hr j hj
          rwa [List.append_assoc, List.singleton_append, ← List.take_succ_cons] at hmem
      · intro r hr
        have := hlast r hr
        omega
      · intro r hr
        have := hlast r hr
        omega

/-- Returning each number is cumulative exactly for numbers that come in order. -/
theorem cumulative_echo_iff (received : List Nat) :
    Cumulative received (received.map ([·])) ↔ InOrder 0 received := by
  rw [← echo_iff_inOrder [] received 0 (by simp)]
  have hflatten : (received.map ([·])).flatten = received := by
    rw [← List.flatMap_def]
    exact List.flatMap_singleton' received
  constructor
  · rintro ⟨hbelow, hincreasing⟩
    rw [hflatten] at hincreasing
    refine ⟨?_, hincreasing, by simp⟩
    intro i r hr j hj
    exact hbelow i [r] (by rw [List.getElem?_map, hr]; rfl) r (List.mem_singleton_self r) j hj
  · rintro ⟨hbelow, hincreasing, -⟩
    constructor
    · intro i numbers hnumbers r hr j hj
      rw [List.getElem?_map, Option.map_eq_some_iff] at hnumbers
      obtain ⟨n, hn, rfl⟩ := hnumbers
      rw [List.mem_singleton] at hr
      exact hbelow i r (by rw [hn, hr]) j hj
    · rw [hflatten]
      exact hincreasing

end Cpe464
