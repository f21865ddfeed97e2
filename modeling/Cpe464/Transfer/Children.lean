import Cpe464.Framework.Runs
import Cpe464.Transfer.SharedSocket

/-!
# The children of the server

`processClient` counts the children it forks in `pidCount` and turns a connect request away when it
has counted eleven. A child that terminates leaves a zombie and makes SIGCHLD pending; several
terminations may merge into one signal. `handleZombies` reaps every zombie and then calls `exit`.
-/

namespace Cpe464.Transfer

open Runs

/-- The parent process: the loop of `processClient` until the process exits, its children that run,
its children that have terminated and are not reaped, and whether a SIGCHLD is pending. -/
structure Parent where
  loop : Option ServerLoop
  running : Nat
  zombies : Nat
  pending : Bool

inductive ParentAction
  | receive (arrival : Arrival)
  | childExit
  | sigchld

/-- How many children a turn of the loop starts. -/
def forked (events : List ServerEvent) : Nat :=
  events.countP fun
    | .fork _ _ _ _ => true
    | .sendto _ _ => false

/-- The `waitpid` loop takes every zombie, and `exit` ends the parent. -/
def handleZombies (p : Parent) : Parent :=
  { p with loop := none, zombies := 0, pending := false }

/-- The children of a parent that has exited are not its own any more, and leave no zombie to it. -/
def parentStep (p : Parent) : ParentAction → Option (List ServerEvent × Parent)
  | .receive arrival =>
      p.loop.map fun s =>
        let turn := processClient s arrival
        (turn.1, { p with loop := some turn.2, running := p.running + forked turn.1 })
  | .childExit =>
      if 0 < p.running then
        match p.loop with
        | some _ => some ([], { p with
            running := p.running - 1, zombies := p.zombies + 1, pending := true })
        | none => some ([], { p with running := p.running - 1 })
      else none
  | .sigchld =>
      if p.loop.isSome = true ∧ p.pending = true then some ([], handleZombies p) else none

def initialParent (s : ServerLoop) : Parent := ⟨some s, 0, 0, false⟩

/-! ## The account -/

/-- The parent serves, and `pidCount` is the number of children forked and not yet reaped. -/
def Parent.Accounted (p : Parent) : Prop :=
  ∃ s ∈ p.loop, s.pidCount.toNat = p.running + p.zombies

/-- A connect request for which the parent does not call `fork`. -/
def TurnedAway (s : ServerLoop) (arrival : Arrival) : Prop :=
  byteAt (landed serverMaxBuf s.buf arrival.datagram) 6 = 8 ∧ ¬s.pidCount ≤ 10

/-- If a connect request is turned away, eleven children are running. -/
def FullWhenTurnedAway (m : Moment Parent ParentAction (List ServerEvent)) : Prop :=
  match m.action with
  | .receive arrival => ∀ s ∈ m.before.loop, TurnedAway s arrival → m.before.running = 11
  | _ => True

/-- No SIGCHLD is delivered, and when a connect request comes, fewer than eleven children have been
started or none of them has terminated. -/
def AccountPermitted (p : Parent) : ParentAction → Prop
  | .receive arrival =>
      ∀ s ∈ p.loop, byteAt (landed serverMaxBuf s.buf arrival.datagram) 6 = 8 →
        p.running + p.zombies < 11 ∨ p.zombies = 0
  | .childExit => True
  | .sigchld => False

def Parent.Bounded (p : Parent) : Prop := ∀ s ∈ p.loop, s.pidCount.toNat ≤ 11

/-! ## Steps -/

private theorem pidCount_le_iff (s : ServerLoop) : s.pidCount ≤ 10 ↔ s.pidCount.toNat ≤ 10 :=
  UInt8.le_iff_toNat_le

private theorem forked_processClient (s : ServerLoop) (arrival : Arrival) :
    forked (processClient s arrival).1 = if Forks s arrival then 1 else 0 := by
  rw [processClient_output]
  dsimp only
  split_ifs <;> rfl

section Step

variable {p p' : Parent} {output : List ServerEvent}

private theorem parentStep_receive {arrival : Arrival}
    (h : parentStep p (.receive arrival) = some (output, p')) :
    ∃ s, p.loop = some s ∧ p' = { p with
      loop := some (processClient s arrival).2
      running := p.running + if Forks s arrival then 1 else 0 } := by
  obtain ⟨s, hs, heq⟩ := Option.map_eq_some_iff.mp h
  cases heq
  exact ⟨s, hs, by rw [← forked_processClient]⟩

private theorem parentStep_childExit (h : parentStep p .childExit = some (output, p')) :
    0 < p.running ∧ p'.loop = p.loop ∧ p'.running = p.running - 1 ∧
      (p.loop ≠ none → p'.zombies = p.zombies + 1) := by
  rw [parentStep] at h
  split at h
  · rename_i hrunning
    cases hloop : p.loop with
    | none =>
      rw [hloop] at h
      cases h
      exact ⟨hrunning, rfl, rfl, fun hne => absurd rfl hne⟩
    | some s =>
      rw [hloop] at h
      cases h
      exact ⟨hrunning, rfl, rfl, fun _ => rfl⟩
  · cases h

private theorem parentStep_sigchld (h : parentStep p .sigchld = some (output, p')) :
    p' = handleZombies p := by
  rw [parentStep] at h
  split at h
  · cases h
    rfl
  · cases h

private theorem bounded_step {action : ParentAction} (h : parentStep p action = some (output, p'))
    (hp : p.Bounded) : p'.Bounded := by
  cases action with
  | receive arrival =>
    obtain ⟨s, hs, rfl⟩ := parentStep_receive h
    intro s' hs'
    obtain rfl := Option.some.inj hs'
    rw [processClient_pidCount]
    split_ifs with hforks
    · have hcount := (pidCount_le_iff s).mp hforks.2.1
      rw [UInt8.toNat_add]
      exact Nat.le_trans (Nat.mod_le _ _) (Nat.succ_le_succ hcount)
    · exact hp s hs
  | childExit =>
    obtain ⟨-, hloop, -⟩ := parentStep_childExit h
    intro s' hs'
    rw [hloop] at hs'
    exact hp s' hs'
  | sigchld =>
    obtain rfl := parentStep_sigchld h
    intro s' hs'
    cases hs'

private theorem accounted_step {action : ParentAction} (h : parentStep p action = some (output, p'))
    (hp : p.Accounted) (hpermitted : AccountPermitted p action) : p'.Accounted := by
  obtain ⟨s, hs, hcount⟩ := hp
  cases action with
  | receive arrival =>
    obtain ⟨s', hs', rfl⟩ := parentStep_receive h
    obtain rfl := Option.some.inj (hs.symm.trans hs')
    refine ⟨_, rfl, ?_⟩
    rw [processClient_pidCount]
    split_ifs with hforks
    · have hsmall := (pidCount_le_iff s).mp hforks.2.1
      change (s.pidCount + 1).toNat = p.running + 1 + p.zombies
      rw [UInt8.toNat_add, UInt8.toNat_one, Nat.mod_eq_of_lt (by omega), hcount]
      omega
    · exact hcount
  | childExit =>
    obtain ⟨hrunning, hloop, hleft, hzombies⟩ := parentStep_childExit h
    refine ⟨s, hloop.trans hs, ?_⟩
    rw [hleft, hzombies (by rw [Option.mem_def.mp hs]; exact Option.some_ne_none s)]
    omega
  | sigchld => exact hpermitted.elim

/-- The count reaches eleven with the eleventh child, and all that count run if none has
terminated. -/
private theorem full_step {action : ParentAction} (hbound : p.Bounded) (hp : p.Accounted)
    (hpermitted : AccountPermitted p action) : FullWhenTurnedAway ⟨p, action, output, p'⟩ := by
  obtain ⟨s, hs, hcount⟩ := hp
  cases action with
  | receive arrival =>
    intro s' hs' hturned
    obtain rfl := Option.some.inj ((Option.mem_def.mp hs).symm.trans hs')
    have hmost := hbound s hs
    have hleast := mt (pidCount_le_iff s).mpr hturned.2
    rcases hpermitted s hs hturned.1 with hfew | hnone
    · omega
    · change p.running = 11
      omega
  | childExit => trivial
  | sigchld => trivial

private theorem permitted_of_accounted {action : ParentAction}
    (h : parentStep p action = some (output, p')) (hbound : p.Bounded) (hp : p.Accounted)
    (hp' : p'.Accounted) (hfull : FullWhenTurnedAway ⟨p, action, output, p'⟩) :
    AccountPermitted p action := by
  obtain ⟨s, hs, hcount⟩ := hp
  cases action with
  | receive arrival =>
    intro s' hs' hconnect
    obtain rfl := Option.some.inj ((Option.mem_def.mp hs).symm.trans hs')
    by_cases hsmall : s.pidCount ≤ 10
    · left
      have hfew := (pidCount_le_iff s).mp hsmall
      omega
    · right
      have hmost := hbound s hs
      have hrunning : p.running = 11 := hfull s hs ⟨hconnect, hsmall⟩
      omega
  | childExit => trivial
  | sigchld =>
    obtain rfl := parentStep_sigchld h
    obtain ⟨s', hs', -⟩ := hp'
    cases hs'

end Step

private theorem bounded_initialParent {s : ServerLoop} (hs : s.pidCount = 0) :
    (initialParent s).Bounded := by
  intro s' hs'
  obtain rfl := Option.some.inj hs'
  rw [hs]
  exact Nat.zero_le 11

private theorem accounted_initialParent {s : ServerLoop} (hs : s.pidCount = 0) :
    (initialParent s).Accounted := by
  refine ⟨s, rfl, ?_⟩
  rw [hs]
  rfl

/-- A run accounts for its children in every state, and turns a connect request away only when
eleven of them are running, exactly when no SIGCHLD is delivered in it and every connect request
comes before eleven children have been started or while none of them has terminated. -/
theorem parent_accounts_iff (s : ServerLoop) (hs : s.pidCount = 0) (actions : List ParentAction)
    {moments : List (Moment Parent ParentAction (List ServerEvent))} {last : Parent}
    (hrun : run parentStep (initialParent s) actions = some (moments, last)) :
    (last.Accounted ∧
        ∀ m ∈ moments, m.before.Accounted ∧ m.after.Accounted ∧ FullWhenTurnedAway m) ↔
      ∀ m ∈ moments, AccountPermitted m.before m.action := by
  constructor
  · rintro ⟨-, hmoments⟩ m hm
    obtain ⟨-, hpermitted⟩ := run_invariant Parent.Bounded (fun _ _ => True)
      (fun m => m.before.Accounted → m.after.Accounted → FullWhenTurnedAway m →
        AccountPermitted m.before m.action)
      (fun p action output p' hstep hbound _ => ⟨bounded_step hstep hbound,
        fun hp hp' hfull => permitted_of_accounted hstep hbound hp hp' hfull⟩)
      (bounded_initialParent hs) hrun (fun _ _ => trivial)
    obtain ⟨hbefore, hafter, hfull⟩ := hmoments m hm
    exact (hpermitted m hm).2.2 hbefore hafter hfull
  · intro hpermitted
    obtain ⟨⟨-, hlast⟩, hmoments⟩ := run_invariant (fun p => p.Bounded ∧ p.Accounted)
      AccountPermitted FullWhenTurnedAway
      (fun p action output p' hstep hinv hpermitted =>
        ⟨⟨bounded_step hstep hinv.1, accounted_step hstep hinv.2 hpermitted⟩,
          full_step hinv.1 hinv.2 hpermitted⟩)
      ⟨bounded_initialParent hs, accounted_initialParent hs⟩ hrun hpermitted
    refine ⟨hlast, ?_⟩
    intro m hm
    obtain ⟨⟨-, hbefore⟩, ⟨-, hafter⟩, hfull⟩ := hmoments m hm
    exact ⟨hbefore, hafter, hfull⟩

instance (p : Parent) : (action : ParentAction) → Decidable (AccountPermitted p action)
  | .receive arrival => inferInstanceAs (Decidable (∀ s ∈ p.loop,
      byteAt (landed serverMaxBuf s.buf arrival.datagram) 6 = 8 →
        p.running + p.zombies < 11 ∨ p.zombies = 0))
  | .childExit => inferInstanceAs (Decidable True)
  | .sigchld => inferInstanceAs (Decidable False)

def connectArrival : Arrival := ⟨connectRequest, 1, true, 0, 0⟩

/-- Two clients connect and the first child terminates. -/
def twoTransfers : List ParentAction :=
  [.receive connectArrival, .childExit, .receive connectArrival]

theorem parent_accounts_twoTransfers :
    ∃ moments last, run parentStep (initialParent serverStart) twoTransfers =
        some (moments, last) ∧ last.Accounted ∧
      ∀ m ∈ moments, m.before.Accounted ∧ m.after.Accounted ∧ FullWhenTurnedAway m := by
  obtain ⟨moments, last, hrun, hpermitted⟩ := exists_run_of parentStep (initialParent serverStart)
    twoTransfers (fun moments => ∀ m ∈ moments, AccountPermitted m.before m.action)
    (by decide +kernel)
  exact ⟨moments, last, hrun,
    (parent_accounts_iff serverStart rfl twoTransfers hrun).mpr hpermitted⟩

/-- The first transfer ends, and with it the parent. -/
theorem parent_exits :
    ∃ moments last, run parentStep (initialParent serverStart)
        [.receive connectArrival, .childExit, .sigchld] = some (moments, last) ∧
      last.loop = none ∧ ¬last.Accounted := by
  refine ⟨_, _, rfl, rfl, ?_⟩
  rintro ⟨s, hs, -⟩
  cases hs

end Cpe464.Transfer
