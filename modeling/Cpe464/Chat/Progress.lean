import Cpe464.Chat.Streams
import Mathlib.Algebra.BigOperators.Intervals
import Mathlib.Algebra.BigOperators.Ring.List
import Mathlib.Data.Set.Card

/-!
# How long the server is busy

Between two calls of `pollCall` the server accepts a client, takes a PDU off a connection or lets a
connection go. What the clients do pays for that, so that the server soon has nothing to do but wait
for them; then everything has been accepted and read.
-/

namespace Cpe464.Chat

open Runs

/-! ## Turns -/

/-- The server accepts or serves. -/
def ControlAction.turns : ControlAction → ℕ
  | .accept _ _ => 1
  | .serve _ _ _ => 1
  | _ => 0

def ControlAction.polls : ControlAction → ℕ
  | .poll => 1
  | _ => 0

/-- What a client brings: six for a connection, which is accepted and let go, and one for a byte,
three of which make up the shortest PDU. -/
def ControlAction.brought : ControlAction → ℕ
  | .connect => 6
  | .arrive _ bytes => bytes.length
  | _ => 0

/-- What the server has in front of it. -/
noncomputable def ControlState.pending (s : ControlState) : ℕ :=
  6 * (s.made - s.accepted) + 3 * { fd | s.descriptors fd ≠ none }.ncard +
    ∑ c ∈ Finset.range s.made, (s.connections c).unread.length

/-- Nothing has arrived on connections that nobody has made. -/
def ControlState.Unmade (s : ControlState) : Prop :=
  ∀ c, s.made ≤ c → (s.connections c).unread = []

section Sums

variable (connections : Nat → Connection) {made c : Nat} (hc : c < made)

include hc

private theorem sum_unread_update (connection : Connection) :
    ∑ c' ∈ Finset.range made, (Function.update connections c connection c').unread.length +
        (connections c).unread.length =
      ∑ c' ∈ Finset.range made, (connections c').unread.length + connection.unread.length := by
  have hmem := Finset.mem_range.mpr hc
  rw [← Finset.add_sum_erase _ _ hmem, ← Finset.add_sum_erase _ _ hmem, Function.update_self]
  have hothers : ∀ c' ∈ (Finset.range made).erase c,
      (Function.update connections c connection c').unread.length =
        (connections c').unread.length := by
    intro c' hc'
    rw [Function.update_of_ne (Finset.ne_of_mem_erase hc')]
  rw [Finset.sum_congr rfl hothers]
  omega

end Sums

section Open

variable {descriptors : Nat → Option Nat} (hfinite : { fd | descriptors fd ≠ none }.Finite)
  {fd : Nat}

include hfinite

private theorem ncard_open (hfree : descriptors fd = none) (c : Nat) :
    { fd' | Function.update descriptors fd (some c) fd' ≠ none }.ncard =
      { fd' | descriptors fd' ≠ none }.ncard + 1 := by
  have hopen : { fd' | Function.update descriptors fd (some c) fd' ≠ none } =
      insert fd { fd' | descriptors fd' ≠ none } := by
    ext fd'
    by_cases hfd : fd' = fd
    · simp [hfd]
    · simp [hfd]
  rw [hopen]
  exact Set.ncard_insert_of_notMem (fun h : descriptors fd ≠ none => h hfree) hfinite

private theorem ncard_close {c : Nat} (hopen : descriptors fd = some c) :
    { fd' | Function.update descriptors fd none fd' ≠ none }.ncard + 1 =
      { fd' | descriptors fd' ≠ none }.ncard := by
  have hclosed : { fd' | Function.update descriptors fd none fd' ≠ none } =
      { fd' | descriptors fd' ≠ none } \ {fd} := by
    ext fd'
    by_cases hfd : fd' = fd
    · simp [hfd]
    · simp [hfd]
  rw [hclosed]
  refine Set.ncard_sdiff_singleton_add_one (show descriptors fd ≠ none from ?_) hfinite
  rw [hopen]
  exact Option.some_ne_none c

end Open

private theorem ControlInv.finite_open {mainServerSocket : Nat} {s : ControlState}
    (hinv : ControlInv mainServerSocket s) : { fd | s.descriptors fd ≠ none }.Finite := by
  apply (Set.finite_lt_nat s.pollSet.maxFileDescriptor).subset
  intro fd hopen
  exact hinv.watches.below fd (.inr hopen)

private theorem recvPDU_taken {stream dataBuffer : List UInt8} {bufferSize : Int} {uninit : Nat}
    (h : 0 < (recvPDU stream dataBuffer bufferSize uninit).ret) :
    (recvPDU stream dataBuffer bufferSize uninit).rest.length + 3 ≤ stream.length := by
  revert h
  unfold recvPDU
  dsimp only
  split
  · exact fun h => absurd h (Int.lt_irrefl 0)
  · split
    · split
      · exact fun h => absurd h (Int.not_lt.mpr (show (-1 : Int) ≤ 0 by decide))
      · intro h
        have hheader : toSize 2 = 2 := rfl
        simp only [safeRecv, List.length_drop, List.length_take, hheader] at h ⊢
        omega
    · exact fun h => absurd h (Int.not_lt.mpr (show (-1 : Int) ≤ 0 by decide))

private theorem processClient_served {T : HandleTable} {fd uninit : Nat}
    {stream dataBuffer : List UInt8} {heap : Heap}
    (h : (processClient T fd stream dataBuffer uninit heap).status = .served) :
    (processClient T fd stream dataBuffer uninit heap).rest.length + 3 ≤ stream.length := by
  revert h
  unfold processClient
  dsimp only
  split
  · rename_i hmessage
    exact fun _ => recvPDU_taken hmessage
  · split <;> exact fun h => nomatch h

/-! ## What a step costs -/

section Step

variable {mainServerSocket : Nat} {s s' : ControlState} {output : List Event}

private theorem pending_serve {dataBuffer : List UInt8} {uninit : Nat} {heap : Heap}
    (hinv : ControlInv mainServerSocket s)
    (h : controlStep mainServerSocket s (.serve dataBuffer uninit heap) = some (output, s')) :
    s'.made = s.made ∧ (∀ c, s.made ≤ c → s'.connections c = s.connections c) ∧
      s'.pending + 3 ≤ s.pending := by
  obtain ⟨fd, c, -, hopen, -, -, -, -, hnext⟩ := controlStep_serve h
  have hmade : c < s.made := Nat.lt_of_lt_of_le (hinv.numbered fd c hopen) hinv.waiting
  have hothers (connection : Connection) (c' : Nat) (hc' : s.made ≤ c') :
      Function.update s.connections c connection c' = s.connections c' :=
    Function.update_of_ne (Nat.ne_of_gt (Nat.lt_of_lt_of_le hmade hc')) _ _
  have hleave (rest : List UInt8) : ((s.connections c).leave rest).unread = rest := rfl
  have hsum := sum_unread_update s.connections hmade ((s.connections c).leave
    (processClient s.table fd (s.connections c).unread dataBuffer uninit heap).rest)
  rw [hleave] at hsum
  rcases hnext with ⟨hserved, rfl⟩ | ⟨-, pollSet, -, rfl⟩
  · have htaken := processClient_served hserved
    refine ⟨rfl, hothers _, ?_⟩
    simp only [ControlState.pending]
    omega
  · have hrest := (processClient_rest s.table fd (s.connections c).unread dataBuffer uninit
      heap).length_le
    have hcard := ncard_close hinv.finite_open hopen
    refine ⟨rfl, hothers _, ?_⟩
    simp only [ControlState.pending]
    omega

private theorem pending_step {action : ControlAction} (hinv : ControlInv mainServerSocket s)
    (hunmade : s.Unmade) (h : controlStep mainServerSocket s action = some (output, s')) :
    s'.Unmade ∧ s'.pending + 3 * action.turns ≤ s.pending + action.brought := by
  have hwaiting := hinv.waiting
  cases action with
  | connect =>
    cases h
    refine ⟨fun c hc => hunmade c (Nat.le_of_succ_le hc), ?_⟩
    have hnone : (s.connections s.made).unread.length = 0 := by
      rw [hunmade s.made (Nat.le_refl _), List.length_nil]
    simp only [ControlState.pending, ControlAction.turns, ControlAction.brought,
      Finset.sum_range_succ, hnone]
    omega
  | arrive c bytes =>
    obtain ⟨hmade, -, -, rfl⟩ := controlStep_arrive h
    constructor
    · intro c' hc'
      have hne : c' ≠ c := Nat.ne_of_gt (Nat.lt_of_lt_of_le hmade hc')
      simp only [Function.update_of_ne hne]
      exact hunmade c' hc'
    · have hlength : ((s.connections c).receive bytes).unread.length =
          (s.connections c).unread.length + bytes.length := List.length_append
      have hsum := sum_unread_update s.connections hmade ((s.connections c).receive bytes)
      simp only [ControlState.pending, ControlAction.turns, ControlAction.brought]
      omega
  | close c =>
    obtain ⟨hmade, -, rfl⟩ := controlStep_close h
    constructor
    · intro c' hc'
      have hne : c' ≠ c := Nat.ne_of_gt (Nat.lt_of_lt_of_le hmade hc')
      simp only [Function.update_of_ne hne]
      exact hunmade c' hc'
    · have hsame : (s.connections c).shut.unread = (s.connections c).unread := rfl
      have hsum := sum_unread_update s.connections hmade (s.connections c).shut
      rw [hsame] at hsum
      simp only [ControlState.pending, ControlAction.turns, ControlAction.brought]
      omega
  | failInput =>
    cases h
    exact ⟨hunmade, Nat.le_refl _⟩
  | poll =>
    obtain ⟨_, _, -, -, -, -, ⟨-, rfl⟩ | ⟨-, rfl⟩⟩ := controlStep_poll h
    · exact ⟨hunmade, Nat.le_refl _⟩
    · exact ⟨hunmade, Nat.le_refl _⟩
  | accept clientSocket stale =>
    obtain ⟨-, hless, -, hfree, -, pollSet, -, rfl⟩ := controlStep_accept h
    have hcard := ncard_open hinv.finite_open hfree s.accepted
    refine ⟨hunmade, ?_⟩
    simp only [ControlState.pending, ControlAction.turns, ControlAction.brought]
    omega
  | serve dataBuffer uninit heap =>
    obtain ⟨hmade, hothers, hpaid⟩ := pending_serve hinv h
    refine ⟨?_, hpaid⟩
    intro c hc
    rw [hmade] at hc
    rw [hothers c hc]
    exact hunmade c hc

/-- A result of `pollCall` is dealt with before the next call. -/
def ControlState.idle (s : ControlState) : ℕ := if s.picked = none then 1 else 0

private theorem idle_step {action : ControlAction} (hmain : 0 < mainServerSocket)
    (hinv : ControlInv mainServerSocket s) (hinput : s.inputFailed = false)
    (haction : action ≠ .failInput)
    (h : controlStep mainServerSocket s action = some (output, s')) :
    s'.inputFailed = false ∧ s'.idle + action.polls ≤ s.idle + action.turns := by
  cases action with
  | connect =>
    cases h
    exact ⟨hinput, Nat.le_refl _⟩
  | arrive c bytes =>
    obtain ⟨-, -, -, rfl⟩ := controlStep_arrive h
    exact ⟨hinput, Nat.le_refl _⟩
  | close c =>
    obtain ⟨-, -, rfl⟩ := controlStep_close h
    exact ⟨hinput, Nat.le_refl _⟩
  | failInput => exact absurd rfl haction
  | poll =>
    obtain ⟨-, hpicked, -, ⟨hfailed, -⟩ | ⟨fd, -, hnext, -⟩⟩ := controlStep_poll_cases hmain hinv h
    · rw [hinput] at hfailed
      cases hfailed
    · rw [hnext]
      refine ⟨hinput, ?_⟩
      simp [ControlState.idle, ControlAction.polls, hpicked]
  | accept clientSocket stale =>
    obtain ⟨hpicked, -, -, -, -, pollSet, -, rfl⟩ := controlStep_accept h
    refine ⟨hinput, ?_⟩
    simp [ControlState.idle, ControlAction.polls, ControlAction.turns, hpicked]
  | serve dataBuffer uninit heap =>
    obtain ⟨fd, c, hpicked, -, -, -, -, -, ⟨-, rfl⟩ | ⟨-, pollSet, -, rfl⟩⟩ := controlStep_serve h
    · refine ⟨hinput, ?_⟩
      simp [ControlState.idle, ControlAction.polls, ControlAction.turns, hpicked]
    · refine ⟨hinput, ?_⟩
      simp [ControlState.idle, ControlAction.polls, ControlAction.turns, hpicked]

end Step

/-! ## Runs -/

/-- Everybody is accepted, and everything that has arrived is read. -/
structure ControlState.Settled (s : ControlState) : Prop where
  accepted : s.accepted = s.made
  connections : ∀ fd c, s.descriptors fd = some c →
    (s.connections c).unread = [] ∧ (s.connections c).closed = false

/-- `pollCall` waits only if there is nothing to do. -/
private theorem settled_of_waits {mainServerSocket : Nat} {s : ControlState}
    (hmain : 0 < mainServerSocket) (hinv : ControlInv mainServerSocket s)
    (hinput : s.inputFailed = false) (hpicked : s.picked = none)
    (hwaits : controlStep mainServerSocket s .poll = none) :
    s.Settled := by
  have hquiet := (quietInput_iff hmain hinv).2.mpr hinput
  obtain ⟨result, polled, hcall, -, hleast⟩ := pollCall_least hinv.watches _ (.inr hquiet)
  have hresult : result = -1 := by
    by_contra hresult
    simp only [controlStep, hcall] at hwaits
    rw [if_neg (not_or.mpr ⟨not_not.mpr hpicked, hresult⟩)] at hwaits
    split at hwaits <;> cases hwaits
  have hnone : ∀ fd ∈ s.watched mainServerSocket,
      ¬Ready (s.conditions mainServerSocket) fd := by
    rcases hleast with ⟨-, hnone⟩ | ⟨fd, hfound, -⟩
    · exact hnone
    · rw [hresult] at hfound
      exact absurd hfound (by omega)
  constructor
  · have hmain := hnone mainServerSocket (.inl rfl)
    rw [Ready, ControlState.conditions, if_pos rfl] at hmain
    split at hmain
    · exact absurd (show pollIn &&& (pollIn ||| pollFailure) ≠ 0 by decide) hmain
    · exact Nat.le_antisymm hinv.waiting (by omega)
  · intro fd c hopen
    have hne : fd ≠ mainServerSocket := by
      have habove := hinv.above fd (by rw [hopen]; exact Option.some_ne_none c)
      omega
    have hready := hnone fd (s.mem_watched mainServerSocket hopen)
    rw [Ready, ControlState.conditions, if_neg hne, hopen] at hready
    simp only at hready
    split at hready
    · exact absurd (show pollIn &&& (pollIn ||| pollFailure) ≠ 0 by decide) hready
    · rename_i hidle
      obtain ⟨hunread, hopen⟩ := not_or.mp hidle
      exact ⟨not_not.mp hunread, Bool.eq_false_of_not_eq_true hopen⟩

private theorem initialControl_pending {mainServerSocket : Nat} {stale : Nat → Nat} {heap : Heap}
    {s : ControlState} (h : initialControl mainServerSocket stale heap = .ok s) :
    s.pending = 0 ∧ s.Unmade ∧ s.idle = 1 ∧ s.inputFailed = false := by
  unfold initialControl at h
  cases hadd : addToPollSet setupPollSet mainServerSocket stale with
  | error fault =>
    rw [hadd] at h
    cases h
  | ok pollSet =>
    rw [hadd] at h
    cases h
    refine ⟨?_, fun c _ => rfl, rfl, rfl⟩
    simp [ControlState.pending]

/-- The server does no more than the clients have brought, and calls `pollCall` once more at most.
When it waits there, it has nothing left to do. -/
theorem server_settles {mainServerSocket : Nat} (hmain : 0 < mainServerSocket) {stale : Nat → Nat}
    {heap : Heap} {initial last : ControlState} {actions : List ControlAction}
    {moments : List (Moment ControlState ControlAction (List Event))}
    (hinitial : initialControl mainServerSocket stale heap = .ok initial)
    (hrun : run (controlStep mainServerSocket) initial actions = some (moments, last))
    (hinput : ∀ action ∈ actions, action ≠ .failInput) :
    3 * (actions.map ControlAction.turns).sum ≤ (actions.map ControlAction.brought).sum ∧
      (actions.map ControlAction.polls).sum ≤ (actions.map ControlAction.turns).sum + 1 ∧
      (last.picked = none → controlStep mainServerSocket last .poll = none → last.Settled) := by
  have hreachable : Reachable mainServerSocket initial :=
    ⟨stale, heap, initial, [], [], hinitial, rfl⟩
  have hinv := hreachable.inv hmain
  obtain ⟨hpending, hunmade, hidle, hquiet⟩ := initialControl_pending hinitial
  obtain ⟨-, hturns⟩ := run_potential
    (fun s => ControlInv mainServerSocket s ∧ s.Unmade) (fun _ => True) ControlState.pending
    (fun action => 3 * action.turns) ControlAction.brought
    (fun s action output s' hstep ⟨hinv, hunmade⟩ _ => by
      obtain ⟨hunmade', hpaid⟩ := pending_step hinv hunmade hstep
      exact ⟨⟨controlInv_step hmain hstep hinv, hunmade'⟩, hpaid⟩)
    ⟨hinv, hunmade⟩ hrun (fun _ _ => trivial)
  obtain ⟨⟨hlast, hstill⟩, hpolls⟩ := run_potential
    (fun s => ControlInv mainServerSocket s ∧ s.inputFailed = false)
    (fun action => action ≠ .failInput) ControlState.idle ControlAction.polls ControlAction.turns
    (fun s action output s' hstep ⟨hinv, hquiet⟩ haction => by
      obtain ⟨hquiet', hpaid⟩ := idle_step hmain hinv hquiet haction hstep
      exact ⟨⟨controlInv_step hmain hstep hinv, hquiet'⟩, hpaid⟩)
    ⟨hinv, hquiet⟩ hrun hinput
  rw [List.sum_map_mul_left] at hturns
  refine ⟨by omega, by omega, ?_⟩
  exact settled_of_waits hmain hlast hstill

/-- A client registers as `a` and closes its connection, while another one stays. -/
def oneLeaves : List ControlAction :=
  [.connect, .connect, .poll, .accept 4 fun _ => 0, .arrive 0 [0, 6, 1, 2, 97, 0], .poll,
    .accept 5 fun _ => 0, .poll, serveRequest, .close 0, .poll, serveRequest]

theorem server_settles_leaves :
    ∃ moments last, run (controlStep 3) startedServer oneLeaves = some (moments, last) ∧
      3 * (oneLeaves.map ControlAction.turns).sum ≤ (oneLeaves.map ControlAction.brought).sum ∧
      (oneLeaves.map ControlAction.polls).sum ≤ (oneLeaves.map ControlAction.turns).sum + 1 ∧
      last.Settled := by
  obtain ⟨moments, last, hrun, hpicked, hwaits⟩ := exists_run_to (controlStep 3) startedServer
    oneLeaves (fun last => last.picked = none ∧ (controlStep 3 last .poll).isNone)
    (by decide +kernel)
  have hinput : ∀ action ∈ oneLeaves, action ≠ .failInput := by
    simp [oneLeaves, serveRequest, -List.reduceReplicate]
  obtain ⟨hturns, hpolls, hsettled⟩ :=
    server_settles (by decide) initialControl_startedServer hrun hinput
  exact ⟨moments, last, hrun, hturns, hpolls,
    hsettled hpicked (Option.isNone_iff_eq_none.mp hwaits)⟩

/-- Failed input brings no work, but keeps the server from waiting. -/
theorem failed_input_spins {mainServerSocket : Nat} (hmain : 0 < mainServerSocket)
    {s : ControlState} (hs : Reachable mainServerSocket s) (hfailed : s.inputFailed = true)
    (hpicked : s.picked = none) (n : ℕ) :
    ∃ moments last, run (controlStep mainServerSocket) s (List.replicate n .poll) =
      some (moments, last) := by
  have hinv := hs.inv hmain
  clear hs
  induction n generalizing s with
  | zero => exact ⟨[], s, rfl⟩
  | succ n ih =>
    obtain ⟨polled, hcall⟩ := pollCall_failed hmain hinv hfailed
    have hstep : controlStep mainServerSocket s .poll =
        some ([], { s with pollSet := polled }) := by
      simp [controlStep, hpicked, hcall, hmain]
    obtain ⟨moments, last, hrun⟩ := ih (by exact hfailed) (by exact hpicked)
      (controlInv_step hmain hstep hinv)
    exact ⟨_, last, run_step hstep hrun⟩

end Cpe464.Chat
