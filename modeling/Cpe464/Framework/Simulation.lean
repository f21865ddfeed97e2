import Cpe464.Framework.Runs
import Mathlib.Data.List.Forall2

/-!
# Simulation between machines

A machine is simulated by another one when every action it takes is matched by a run of the other,
possibly an empty one, between related states. Whole runs are then matched group by group. What
every moment appends to a value of the state, the run appends in order.
-/

namespace Cpe464.Runs

variable {σ α ω τ β ψ κ γ : Type*}

theorem run_append {step : σ → α → Option (ω × σ)} {s middle last : σ} {actions actions' : List α}
    {moments moments' : List (Moment σ α ω)} (h : run step s actions = some (moments, middle))
    (h' : run step middle actions' = some (moments', last)) :
    run step s (actions ++ actions') = some (moments ++ moments', last) := by
  induction actions generalizing s moments with
  | nil =>
    simp only [run, Option.some.injEq, Prod.mk.injEq] at h
    obtain ⟨rfl, rfl⟩ := h
    exact h'
  | cons action actions ih =>
    obtain ⟨output, s', rest, hstep, hrest, rfl⟩ := run_cons h
    exact run_step hstep (ih hrest)

theorem run_moments {step : σ → α → Option (ω × σ)} {s last : σ} {actions : List α}
    {moments : List (Moment σ α ω)} (h : run step s actions = some (moments, last)) :
    ∀ m ∈ moments, step m.before m.action = some (m.output, m.after) := by
  induction actions generalizing s moments with
  | nil =>
    simp only [run, Option.some.injEq, Prod.mk.injEq] at h
    obtain ⟨rfl, -⟩ := h
    exact List.forall_mem_nil _
  | cons action actions ih =>
    obtain ⟨output, s', rest, hstep, hrest, rfl⟩ := run_cons h
    exact List.forall_mem_cons.mpr ⟨hstep, ih hrest⟩

theorem run_actions {step : σ → α → Option (ω × σ)} {s last : σ} {actions : List α}
    {moments : List (Moment σ α ω)} (h : run step s actions = some (moments, last)) :
    moments.map Moment.action = actions := by
  induction actions generalizing s moments with
  | nil =>
    simp only [run, Option.some.injEq, Prod.mk.injEq] at h
    obtain ⟨rfl, -⟩ := h
    rfl
  | cons action actions ih =>
    obtain ⟨output, s', rest, -, hrest, rfl⟩ := run_cons h
    rw [List.map_cons, ih hrest]

/-- A simulation of single actions, where they are permitted, is a simulation of runs: the moments
of the run are matched one after the other by the groups that make up the run of the other
machine. -/
theorem run_simulation {step : σ → α → Option (ω × σ)} {step' : τ → β → Option (ψ × τ)}
    (Related : σ → τ → Prop) (Permitted : σ → α → Prop)
    (Matches : Moment σ α ω → List (Moment τ β ψ) → Prop)
    (hstep : ∀ s t action output s', step s action = some (output, s') → Related s t →
      Permitted s action → ∃ actions' group t', run step' t actions' = some (group, t') ∧
        Related s' t' ∧ Matches ⟨s, action, output, s'⟩ group)
    {s last : σ} {t : τ} {actions : List α} {moments : List (Moment σ α ω)}
    (hrelated : Related s t) (hrun : run step s actions = some (moments, last))
    (hpermitted : ∀ m ∈ moments, Permitted m.before m.action) :
    ∃ actions' groups last', run step' t actions' = some (groups.flatten, last') ∧
      Related last last' ∧ List.Forall₂ Matches moments groups := by
  induction actions generalizing s t moments with
  | nil =>
    simp only [run, Option.some.injEq, Prod.mk.injEq] at hrun
    obtain ⟨rfl, rfl⟩ := hrun
    exact ⟨[], [], t, rfl, hrelated, .nil⟩
  | cons action actions ih =>
    obtain ⟨output, s', rest, htake, hrest, rfl⟩ := run_cons hrun
    obtain ⟨actions', group, t', hgroup, hnext, hmatch⟩ :=
      hstep s t action output s' htake hrelated (hpermitted _ List.mem_cons_self)
    obtain ⟨actions'', groups, last', hgroups, hlast, hmatches⟩ :=
      ih hnext hrest (fun m hm => hpermitted m (List.mem_cons_of_mem _ hm))
    exact ⟨actions' ++ actions'', group :: groups, last', run_append hgroup hgroups, hlast,
      .cons hmatch hmatches⟩

/-- What the moments append to a value of the state, each its own part, the run appends. -/
theorem run_accumulate {step : σ → α → Option (ω × σ)} (value : σ → List γ) (part : κ → List γ)
    {s last : σ} {actions : List α} {moments : List (Moment σ α ω)} {parts : List κ}
    (hrun : run step s actions = some (moments, last))
    (hparts : List.Forall₂ (fun m k => value m.after = value m.before ++ part k) moments parts) :
    value last = value s ++ parts.flatMap part := by
  induction actions generalizing s moments parts with
  | nil =>
    simp only [run, Option.some.injEq, Prod.mk.injEq] at hrun
    obtain ⟨rfl, rfl⟩ := hrun
    cases hparts
    rw [List.flatMap_nil, List.append_nil]
  | cons action actions ih =>
    obtain ⟨output, s', rest, -, hrest, rfl⟩ := run_cons hrun
    cases hparts with
    | cons hpart hparts =>
      rw [ih hrest hparts, hpart, List.flatMap_cons, List.append_assoc]

end Cpe464.Runs
