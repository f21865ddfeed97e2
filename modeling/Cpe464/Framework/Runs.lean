import Mathlib.Algebra.GroupWithZero.Nat
import Mathlib.Tactic.Common

/-!
# Runs of a machine

A machine takes an action in a state, or refuses it; an action it takes has an output and leads to
a next state. A run is a list of actions that are all taken. Its moments record each of them
between the states around it, so that a property of every moment of every run is a property of the
machine over any interleaving.
-/

namespace Cpe464.Runs

variable {σ α ω : Type*}

/-- One action of a run, between the state it is taken in and the state it leads to. -/
structure Moment (σ α ω : Type*) where
  before : σ
  action : α
  output : ω
  after : σ

/-- The moments of the run of some actions and its last state; nothing if one is refused. -/
def run (step : σ → α → Option (ω × σ)) : σ → List α → Option (List (Moment σ α ω) × σ)
  | s, [] => some ([], s)
  | s, action :: actions =>
      match step s action with
      | none => none
      | some (output, s') =>
        match run step s' actions with
        | none => none
        | some (moments, last) => some (⟨s, action, output, s'⟩ :: moments, last)

theorem run_cons {step : σ → α → Option (ω × σ)} {s last : σ} {action : α} {actions : List α}
    {moments : List (Moment σ α ω)} (h : run step s (action :: actions) = some (moments, last)) :
    ∃ output s' rest, step s action = some (output, s') ∧
      run step s' actions = some (rest, last) ∧
      moments = ⟨s, action, output, s'⟩ :: rest := by
  rw [run] at h
  cases hstep : step s action with
  | none => simp [hstep] at h
  | some out =>
    obtain ⟨output, s'⟩ := out
    cases hrest : run step s' actions with
    | none => simp [hstep, hrest] at h
    | some out =>
      obtain ⟨rest, last'⟩ := out
      simp only [hstep, hrest, Option.some.injEq, Prod.mk.injEq] at h
      obtain ⟨rfl, rfl⟩ := h
      exact ⟨output, s', rest, rfl, hrest, rfl⟩

theorem run_step {step : σ → α → Option (ω × σ)} {s s' last : σ} {action : α} {output : ω}
    {actions : List α} {moments : List (Moment σ α ω)} (hstep : step s action = some (output, s'))
    (hrun : run step s' actions = some (moments, last)) :
    run step s (action :: actions) = some (⟨s, action, output, s'⟩ :: moments, last) := by
  simp only [run, hstep, hrun]

/-- A run exists and its moments have a property when evaluating it says so. -/
theorem exists_run_of (step : σ → α → Option (ω × σ)) (s : σ) (actions : List α)
    (P : List (Moment σ α ω) → Prop) [DecidablePred P]
    (h : (run step s actions).any (fun out => decide (P out.1)) = true) :
    ∃ moments last, run step s actions = some (moments, last) ∧ P moments := by
  obtain ⟨⟨moments, last⟩, hrun, hP⟩ := (Option.any_eq_true _ _).mp h
  exact ⟨moments, last, hrun, of_decide_eq_true hP⟩

/-- The same with a property of the last state. -/
theorem exists_run_to (step : σ → α → Option (ω × σ)) (s : σ) (actions : List α) (P : σ → Prop)
    [DecidablePred P] (h : (run step s actions).any (fun out => decide (P out.2)) = true) :
    ∃ moments last, run step s actions = some (moments, last) ∧ P last := by
  obtain ⟨⟨moments, last⟩, hrun, hlast⟩ := (Option.any_eq_true _ _).mp h
  exact ⟨moments, last, hrun, of_decide_eq_true hlast⟩

/-- An invariant that every permitted action keeps holds around every moment of a run of permitted
actions, and so does what the invariant and the permission say about a single moment. -/
theorem run_invariant {step : σ → α → Option (ω × σ)} (Inv : σ → Prop) (Permitted : σ → α → Prop)
    (Good : Moment σ α ω → Prop)
    (hstep : ∀ s action output s', step s action = some (output, s') → Inv s →
      Permitted s action → Inv s' ∧ Good ⟨s, action, output, s'⟩)
    {s last : σ} {actions : List α} {moments : List (Moment σ α ω)} (hs : Inv s)
    (hrun : run step s actions = some (moments, last))
    (hpermitted : ∀ m ∈ moments, Permitted m.before m.action) :
    Inv last ∧ ∀ m ∈ moments, Inv m.before ∧ Inv m.after ∧ Good m := by
  induction actions generalizing s moments with
  | nil =>
    simp only [run, Option.some.injEq, Prod.mk.injEq] at hrun
    obtain ⟨rfl, rfl⟩ := hrun
    exact ⟨hs, by simp⟩
  | cons action actions ih =>
    obtain ⟨output, s', rest, htake, hrest, rfl⟩ := run_cons hrun
    obtain ⟨hs', hgood⟩ := hstep s action output s' htake hs (hpermitted _ List.mem_cons_self)
    obtain ⟨hlast, hmoments⟩ := ih hs' hrest (fun m hm => hpermitted m (by simp [hm]))
    refine ⟨hlast, ?_⟩
    intro m hm
    rcases List.mem_cons.mp hm with rfl | hm
    · exact ⟨hs, hs', hgood⟩
    · exact hmoments m hm

/-- What the actions of a run cost is paid for by what the state stores and the actions bring. -/
theorem run_potential {step : σ → α → Option (ω × σ)} (Inv : σ → Prop) (Allowed : α → Prop)
    (potential : σ → ℕ) (cost gain : α → ℕ)
    (hstep : ∀ s action output s', step s action = some (output, s') → Inv s → Allowed action →
      Inv s' ∧ potential s' + cost action ≤ potential s + gain action)
    {s last : σ} {actions : List α} {moments : List (Moment σ α ω)} (hs : Inv s)
    (hrun : run step s actions = some (moments, last))
    (hallowed : ∀ action ∈ actions, Allowed action) :
    Inv last ∧ potential last + (actions.map cost).sum ≤ potential s + (actions.map gain).sum := by
  induction actions generalizing s moments with
  | nil =>
    simp only [run, Option.some.injEq, Prod.mk.injEq] at hrun
    obtain ⟨rfl, rfl⟩ := hrun
    exact ⟨hs, Nat.le_refl _⟩
  | cons action actions ih =>
    obtain ⟨output, s', rest, htake, hrest, -⟩ := run_cons hrun
    obtain ⟨hthis, hothers⟩ := List.forall_mem_cons.mp hallowed
    obtain ⟨hs', hpaid⟩ := hstep s action output s' htake hs hthis
    obtain ⟨hlast, hsum⟩ := ih hs' hrest hothers
    refine ⟨hlast, ?_⟩
    simp only [List.map_cons, List.sum_cons]
    omega

end Cpe464.Runs
