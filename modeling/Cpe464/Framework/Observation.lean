import Mathlib.Tactic.Common

/-!
# What can be observed of a machine

A machine answers every action with an output and goes to a next state. Two states are
indistinguishable when no later actions tell them apart by their outputs. An action is inert in a
state when its own output is silent and the state it leads to is indistinguishable from the one
before: inert actions can be left out of a run.
-/

namespace Cpe464.Observation

variable {σ α ω : Type*}

def outputs (step : σ → α → ω × σ) : σ → List α → List ω
  | _, [] => []
  | s, action :: actions => (step s action).1 :: outputs step (step s action).2 actions

def after (step : σ → α → ω × σ) (s : σ) (actions : List α) : σ :=
  actions.foldl (fun s action => (step s action).2) s

def Indistinguishable (step : σ → α → ω × σ) (s t : σ) : Prop :=
  ∀ actions, outputs step s actions = outputs step t actions

/-- The action's output is silent, and nothing observed later depends on the action. -/
def Inert (step : σ → α → ω × σ) (Silent : ω → Prop) (s : σ) (action : α) : Prop :=
  Silent (step s action).1 ∧ Indistinguishable step (step s action).2 s

variable {step : σ → α → ω × σ}

theorem Indistinguishable.output {s t : σ} (h : Indistinguishable step s t) (action : α) :
    (step s action).1 = (step t action).1 := by
  have houtput := h [action]
  simpa only [outputs, List.cons.injEq, and_true] using houtput

/-- A relation that every action keeps, with equal outputs, relates indistinguishable states. -/
theorem indistinguishable_of_simulation (R : σ → σ → Prop)
    (hstep : ∀ s t action, R s t →
      (step s action).1 = (step t action).1 ∧ R (step s action).2 (step t action).2)
    {s t : σ} (h : R s t) : Indistinguishable step s t := by
  intro actions
  induction actions generalizing s t with
  | nil => rfl
  | cons action actions ih =>
    obtain ⟨houtput, hnext⟩ := hstep s t action h
    rw [outputs, outputs, houtput, ih hnext]

/-- Leaving out actions that are inert where they are taken does not change the outputs of the
others. -/
theorem outputs_erase (Silent : ω → Prop) (Ignored : α → Prop) [DecidablePred Ignored] (s : σ)
    (actions : List α)
    (h : ∀ before action rest, actions = before ++ action :: rest → Ignored action →
      Inert step Silent (after step s before) action) :
    outputs step s (actions.filter fun action => ¬ Ignored action) =
      ((actions.zip (outputs step s actions)).filter fun taken => ¬ Ignored taken.1).map
        Prod.snd := by
  induction actions generalizing s with
  | nil => rfl
  | cons action actions ih =>
    have hrest := ih (step s action).2 (by
      intro before action' rest hsplit hignored
      exact h (action :: before) action' rest (by rw [hsplit]; rfl) hignored)
    rw [outputs, List.zip_cons_cons]
    by_cases hignored : Ignored action
    · obtain ⟨_, hsame⟩ := h [] action actions rfl hignored
      rw [List.filter_cons_of_neg (by simpa using hignored),
        List.filter_cons_of_neg (by simpa using hignored), ← hrest]
      exact (hsame _).symm
    · rw [List.filter_cons_of_pos (by simpa using hignored),
        List.filter_cons_of_pos (by simpa using hignored), List.map_cons, ← hrest]
      rfl

end Cpe464.Observation
