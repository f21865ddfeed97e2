import Cpe464.Chat.PollSet
import Cpe464.Chat.Reception
import Cpe464.Chat.ServerRuns

/-!
# The loop of the chat server

`serverControl` on the connections as the kernel has them: clients connect and wait to be accepted,
their bytes arrive in pieces of any size, and the server does one thing for each result of
`pollCall`. Between `pollCall` and the end of the call that it leads to the server serves one
descriptor, and `recv` with `MSG_WAITALL` makes it wait there until the bytes have arrived.
-/

namespace Cpe464.Chat

open Runs

/-- One direction of a connection: the bytes that the server has taken out of it, the bytes that
have arrived behind them, and whether the client has closed it. -/
structure Connection where
  consumed : List UInt8
  unread : List UInt8
  closed : Bool
  deriving DecidableEq

/-- All that has arrived. -/
def Connection.arrived (connection : Connection) : List UInt8 :=
  connection.consumed ++ connection.unread

def Connection.receive (connection : Connection) (bytes : List UInt8) : Connection :=
  { connection with unread := connection.unread ++ bytes }

def Connection.shut (connection : Connection) : Connection := { connection with closed := true }

/-- The connection behind a `recvPDU` that leaves `rest` unread. -/
def Connection.leave (connection : Connection) (rest : List UInt8) : Connection :=
  { connection with
    consumed := connection.consumed ++
      connection.unread.take (connection.unread.length - rest.length)
    unread := rest }

/-- Connections are numbered in the order in which they are made, which is the order in which they
are accepted. `picked` is the result of `pollCall` that is being dealt with. -/
structure ControlState where
  pollSet : PollSet
  table : HandleTable
  made : Nat
  accepted : Nat
  connections : Nat → Connection
  descriptors : Nat → Option Nat
  inputFailed : Bool
  picked : Option Nat

inductive ControlAction
  | connect
  | arrive (connection : Nat) (bytes : List UInt8)
  | close (connection : Nat)
  | failInput
  | poll
  | accept (clientSocket : Nat) (stale : Nat → Nat)
  | serve (dataBuffer : List UInt8) (uninit : Nat) (heap : Heap)

/-- The server as it enters its loop: `setupPollSet` and `addToPollSet(mainServerSocket)`. -/
def initialControl (mainServerSocket : Nat) (stale : Nat → Nat) (heap : Heap) :
    Except PollFault ControlState :=
  (addToPollSet setupPollSet mainServerSocket stale).map fun pollSet =>
    { pollSet
      table := createTable heap
      made := 0
      accepted := 0
      connections _ := ⟨[], [], false⟩
      descriptors _ := none
      inputFailed := false
      picked := none }

/-- What `poll` finds about a descriptor: a listening socket is readable when a client waits to be
accepted, a connection when it has bytes or is closed, and standard input can only fail. -/
def ControlState.conditions (mainServerSocket : Nat) (s : ControlState) (fd : Nat) : Nat :=
  if fd = mainServerSocket then if s.accepted < s.made then pollIn else 0
  else match s.descriptors fd with
    | some c => if (s.connections c).unread ≠ [] ∨ (s.connections c).closed then pollIn else 0
    | none => if fd = 0 ∧ s.inputFailed then 16 else 0

/-- `recvPDU` waits for bytes: one of its `recv` calls comes short and more may still arrive. -/
def Connection.Waits (connection : Connection) (dataBuffer : List UInt8) (uninit : Nat) : Prop :=
  connection.closed = false ∧ ∃ call ∈ recvCalls connection.unread dataBuffer 1024 uninit,
    call.stored.length < call.size

instance (connection : Connection) (dataBuffer : List UInt8) (uninit : Nat) :
    Decidable (connection.Waits dataBuffer uninit) :=
  inferInstanceAs (Decidable (_ ∧ _))

/-- What `processClient` leaves for the loop: the connection goes on, has ended, or the process
has. -/
def ControlState.finish (s : ControlState) (fd c : Nat) (processed : Processed) :
    Option (List Event × ControlState) :=
  let connection := (s.connections c).leave processed.rest
  match processed.status with
  | .served => some (processed.events, { s with
      table := processed.table
      connections := Function.update s.connections c connection
      picked := none })
  | .closed =>
      match removeFromPollSet s.pollSet fd with
      | .error _ => none
      | .ok pollSet => some (processed.events, { s with
          pollSet
          table := processed.table
          connections := Function.update s.connections c connection
          descriptors := Function.update s.descriptors fd none
          picked := none })
  | .exited => none

/-- One event. `pollCall(-1)` does not return before a descriptor has something to report, and a
descriptor below the listening socket is ignored. The operating system gives a new connection any
free descriptor above the listening socket: those below are open all the time. There is no next
state when the process has exited or when the behaviour of the code is undefined. -/
def controlStep (mainServerSocket : Nat) (s : ControlState) :
    ControlAction → Option (List Event × ControlState)
  | .connect => some ([], { s with made := s.made + 1 })
  | .arrive c bytes =>
      if c < s.made ∧ (s.connections c).closed = false then
        some ([], { s with
          connections := Function.update s.connections c ((s.connections c).receive bytes) })
      else none
  | .close c =>
      if c < s.made then
        some ([], { s with
          connections := Function.update s.connections c (s.connections c).shut })
      else none
  | .failInput => some ([], { s with inputFailed := true })
  | .poll =>
      match pollCall s.pollSet (s.conditions mainServerSocket) with
      | .error _ => none
      | .ok (result, pollSet) =>
        if s.picked ≠ none ∨ result = -1 then none
        else if result < mainServerSocket then some ([], { s with pollSet })
        else some ([], { s with pollSet, picked := some result.toNat })
  | .accept clientSocket stale =>
      if s.picked = some mainServerSocket ∧ s.accepted < s.made ∧
          mainServerSocket < clientSocket ∧ s.descriptors clientSocket = none then
        match addToPollSet s.pollSet clientSocket stale with
        | .error _ => none
        | .ok pollSet => some ([], { s with
            pollSet
            accepted := s.accepted + 1
            descriptors := Function.update s.descriptors clientSocket (some s.accepted)
            picked := none })
      else none
  | .serve dataBuffer uninit heap =>
      match s.picked with
      | none => none
      | some fd =>
        match s.descriptors fd with
        | none => none
        | some c =>
          let processed := processClient s.table fd (s.connections c).unread dataBuffer uninit heap
          if dataBuffer.length = 1024 ∧ ¬(s.connections c).Waits dataBuffer uninit ∧
              ∀ event ∈ processed.events, event.Defined then
            s.finish fd c processed
          else none

/-! ## What a step can do -/

section Step

variable {mainServerSocket : Nat} {s s' : ControlState} {output : List Event}

theorem controlStep_arrive {c : Nat} {bytes : List UInt8}
    (h : controlStep mainServerSocket s (.arrive c bytes) = some (output, s')) :
    c < s.made ∧ (s.connections c).closed = false ∧ output = [] ∧
      s' = { s with
        connections := Function.update s.connections c ((s.connections c).receive bytes) } := by
  rw [controlStep] at h
  split at h
  · rename_i hguard
    cases h
    exact ⟨hguard.1, hguard.2, rfl, rfl⟩
  · cases h

theorem controlStep_close {c : Nat}
    (h : controlStep mainServerSocket s (.close c) = some (output, s')) :
    c < s.made ∧ output = [] ∧
      s' = { s with
        connections := Function.update s.connections c (s.connections c).shut } := by
  rw [controlStep] at h
  split at h
  · rename_i hguard
    cases h
    exact ⟨hguard, rfl, rfl⟩
  · cases h

theorem controlStep_poll (h : controlStep mainServerSocket s .poll = some (output, s')) :
    ∃ result pollSet,
      pollCall s.pollSet (s.conditions mainServerSocket) = .ok (result, pollSet) ∧
      s.picked = none ∧ result ≠ -1 ∧ output = [] ∧
      ((result < mainServerSocket ∧ s' = { s with pollSet }) ∨
        (mainServerSocket ≤ result ∧ s' = { s with pollSet, picked := some result.toNat })) := by
  rw [controlStep] at h
  split at h
  · cases h
  · rename_i result pollSet hcall
    split at h
    · cases h
    · rename_i hguard
      obtain ⟨hpicked, hresult⟩ := not_or.mp hguard
      split at h
      · rename_i hlow
        cases h
        exact ⟨result, pollSet, hcall, not_not.mp hpicked, hresult, rfl, .inl ⟨hlow, rfl⟩⟩
      · rename_i hhigh
        cases h
        exact ⟨result, pollSet, hcall, not_not.mp hpicked, hresult, rfl,
          .inr ⟨by omega, rfl⟩⟩

theorem controlStep_accept {clientSocket : Nat} {stale : Nat → Nat}
    (h : controlStep mainServerSocket s (.accept clientSocket stale) = some (output, s')) :
    s.picked = some mainServerSocket ∧ s.accepted < s.made ∧ mainServerSocket < clientSocket ∧
      s.descriptors clientSocket = none ∧ output = [] ∧
      ∃ pollSet, addToPollSet s.pollSet clientSocket stale = .ok pollSet ∧
        s' = { s with
          pollSet
          accepted := s.accepted + 1
          descriptors := Function.update s.descriptors clientSocket (some s.accepted)
          picked := none } := by
  rw [controlStep] at h
  split at h
  · rename_i hguard
    obtain ⟨hpicked, hwaiting, hhigh, hfree⟩ := hguard
    split at h
    · cases h
    · rename_i pollSet hadd
      cases h
      exact ⟨hpicked, hwaiting, hhigh, hfree, rfl, pollSet, hadd, rfl⟩
  · cases h

private theorem finish_cases {fd c : Nat} {processed : Processed}
    (h : s.finish fd c processed = some (output, s')) :
    let connection := (s.connections c).leave processed.rest
    output = processed.events ∧
      ((processed.status = .served ∧ s' = { s with
          table := processed.table
          connections := Function.update s.connections c connection
          picked := none }) ∨
        (processed.status = .closed ∧
          ∃ pollSet, removeFromPollSet s.pollSet fd = .ok pollSet ∧ s' = { s with
            pollSet
            table := processed.table
            connections := Function.update s.connections c connection
            descriptors := Function.update s.descriptors fd none
            picked := none })) := by
  cases hstatus : processed.status with
  | served =>
    simp only [ControlState.finish, hstatus] at h
    cases h
    exact ⟨rfl, .inl ⟨rfl, rfl⟩⟩
  | closed =>
    cases hremove : removeFromPollSet s.pollSet fd with
    | error fault => simp [ControlState.finish, hstatus, hremove] at h
    | ok pollSet =>
      simp only [ControlState.finish, hstatus, hremove] at h
      cases h
      exact ⟨rfl, .inr ⟨rfl, pollSet, rfl, rfl⟩⟩
  | exited => simp [ControlState.finish, hstatus] at h

/-- The picked descriptor belongs to a connection, `recvPDU` has all it waits for, and the
connection goes on or ends. -/
theorem controlStep_serve {dataBuffer : List UInt8} {uninit : Nat} {heap : Heap}
    (h : controlStep mainServerSocket s (.serve dataBuffer uninit heap) = some (output, s')) :
    ∃ fd c, s.picked = some fd ∧ s.descriptors fd = some c ∧ dataBuffer.length = 1024 ∧
      ¬(s.connections c).Waits dataBuffer uninit ∧
      let processed := processClient s.table fd (s.connections c).unread dataBuffer uninit heap
      let connection := (s.connections c).leave processed.rest
      (∀ event ∈ processed.events, event.Defined) ∧ output = processed.events ∧
      ((processed.status = .served ∧ s' = { s with
          table := processed.table
          connections := Function.update s.connections c connection
          picked := none }) ∨
        (processed.status = .closed ∧
          ∃ pollSet, removeFromPollSet s.pollSet fd = .ok pollSet ∧ s' = { s with
            pollSet
            table := processed.table
            connections := Function.update s.connections c connection
            descriptors := Function.update s.descriptors fd none
            picked := none })) := by
  rw [controlStep] at h
  cases hpicked : s.picked with
  | none => simp [hpicked] at h
  | some fd =>
    cases hopen : s.descriptors fd with
    | none => simp [hpicked, hopen] at h
    | some c =>
      simp only [hpicked, hopen] at h
      split at h
      · rename_i hguard
        obtain ⟨hbuffer, hready, hdefined⟩ := hguard
        obtain ⟨houtput, hnext⟩ := finish_cases h
        exact ⟨fd, c, rfl, hopen, hbuffer, hready, hdefined, houtput, hnext⟩
      · cases h

end Step

/-! ## The watched descriptors -/

/-- The server watches its listening socket and every open connection. -/
def ControlState.watched (mainServerSocket : Nat) (s : ControlState) : Set Nat :=
  insert mainServerSocket { fd | s.descriptors fd ≠ none }

theorem ControlState.mem_watched (s : ControlState) (mainServerSocket : Nat) {fd c : Nat}
    (hopen : s.descriptors fd = some c) : fd ∈ s.watched mainServerSocket := by
  right
  intro hnone
  rw [hopen] at hnone
  cases hnone

structure ControlInv (mainServerSocket : Nat) (s : ControlState) : Prop where
  watches : s.pollSet.Watches (s.watched mainServerSocket)
  above : ∀ fd, s.descriptors fd ≠ none → mainServerSocket < fd
  distinct : ∀ fd fd' c, s.descriptors fd = some c → s.descriptors fd' = some c → fd = fd'
  numbered : ∀ fd c, s.descriptors fd = some c → c < s.accepted
  waiting : s.accepted ≤ s.made
  picked : ∀ fd, s.picked = some fd → fd ∈ s.watched mainServerSocket

theorem initialControl_eq (mainServerSocket : Nat) (stale : Nat → Nat) (heap : Heap) :
    ∃ s, initialControl mainServerSocket stale heap = .ok s ∧ ControlInv mainServerSocket s ∧
      s.table = createTable heap ∧ s.accepted = 0 ∧ s.connections = (fun _ => ⟨[], [], false⟩) ∧
      s.descriptors = (fun _ => none) ∧ s.picked = none := by
  obtain ⟨pollSet, hadd, hwatches⟩ :=
    addToPollSet_watches setupPollSet_watches mainServerSocket stale
  refine ⟨_, congrArg (Except.map _) hadd, ?_, rfl, rfl, rfl, rfl, rfl⟩
  have hnone : ∀ fd : Nat, ¬(none : Option Nat) ≠ none := fun _ h => h rfl
  constructor
  · have hset : ∀ s : ControlState, s.descriptors = (fun _ => none) →
        s.watched mainServerSocket = insert mainServerSocket ∅ := by
      intro s hs
      simp [ControlState.watched, hs]
    rw [hset _ rfl]
    exact hwatches
  · exact fun fd h => absurd h (hnone fd)
  · exact fun fd fd' c h => absurd h.symm (Option.some_ne_none c)
  · exact fun fd c h => absurd h.symm (Option.some_ne_none c)
  · exact Nat.le_refl 0
  · exact fun fd h => absurd h.symm (Option.some_ne_none fd)

section Invariant

variable {mainServerSocket : Nat} {s s' : ControlState} {output : List Event}

theorem quietInput_iff (hmain : 0 < mainServerSocket) (hinv : ControlInv mainServerSocket s) :
    0 ∉ s.watched mainServerSocket ∧
      (QuietInput (s.conditions mainServerSocket) ↔ s.inputFailed = false) := by
  have hclosed : s.descriptors 0 = none := by
    by_contra hopen
    exact Nat.not_lt_zero _ (hinv.above 0 hopen)
  constructor
  · rintro (rfl | hopen)
    · exact Nat.lt_irrefl 0 hmain
    · exact hopen hclosed
  · cases hfailed : s.inputFailed <;>
      simp [QuietInput, ControlState.conditions, hclosed, hfailed, Nat.ne_of_lt hmain,
        pollFailure]

theorem pollCall_failed (hmain : 0 < mainServerSocket) (hinv : ControlInv mainServerSocket s)
    (hfailed : s.inputFailed = true) :
    ∃ polled, pollCall s.pollSet (s.conditions mainServerSocket) = .ok (0, polled) := by
  obtain ⟨hzero, hinput⟩ := quietInput_iff hmain hinv
  have hloud : Reports (s.conditions mainServerSocket) (s.watched mainServerSocket) 0 :=
    .inr ⟨hzero, fun hquiet => by simp [hinput.mp hquiet] at hfailed⟩
  have hmax : 0 < s.pollSet.maxFileDescriptor :=
    Nat.lt_of_le_of_lt (Nat.zero_le _) (hinv.watches.below _ (Set.mem_insert _ _))
  obtain ⟨result, polled, hcall, -, hcases⟩ :=
    pollCall_cases hinv.watches (s.conditions mainServerSocket)
  rcases hcases with ⟨-, hnone⟩ | ⟨i, -, hfound, -, hbefore⟩
  · exact absurd hloud (hnone 0 hmax)
  · obtain rfl : i = 0 := by
      by_contra hi
      exact hbefore 0 (Nat.pos_of_ne_zero hi) hloud
    rw [hcall, hfound]
    exact ⟨polled, rfl⟩

/-- Standard input, once it has failed, is all that `pollCall` ever finds: its own index is not
watched. While it has not, `pollCall` finds the least watched descriptor that is ready. -/
theorem controlStep_poll_cases (hmain : 0 < mainServerSocket) (hinv : ControlInv mainServerSocket s)
    (h : controlStep mainServerSocket s .poll = some (output, s')) :
    output = [] ∧ s.picked = none ∧ s'.pollSet.Watches (s.watched mainServerSocket) ∧
      ((s.inputFailed = true ∧ s' = { s with pollSet := s'.pollSet }) ∨
      ∃ fd, s.inputFailed = false ∧ s' = { s with pollSet := s'.pollSet, picked := some fd } ∧
        fd ∈ s.watched mainServerSocket ∧ Ready (s.conditions mainServerSocket) fd ∧
        ∀ fd' ∈ s.watched mainServerSocket, Ready (s.conditions mainServerSocket) fd' →
          fd ≤ fd') := by
  obtain ⟨result, pollSet, hcall, hpicked, hresult, rfl, hnext⟩ := controlStep_poll h
  have hwatches : pollSet.Watches (s.watched mainServerSocket) := by
    obtain ⟨_, polled, hcall', hpolled, -⟩ :=
      pollCall_cases hinv.watches (s.conditions mainServerSocket)
    cases hcall.symm.trans hcall'
    exact hpolled
  obtain ⟨-, hinput⟩ := quietInput_iff hmain hinv
  refine ⟨rfl, hpicked, ?_, ?_⟩
  · rcases hnext with ⟨-, rfl⟩ | ⟨-, rfl⟩ <;> exact hwatches
  · by_cases hfailed : s.inputFailed = true
    · refine .inl ⟨hfailed, ?_⟩
      obtain ⟨_, hcall'⟩ := pollCall_failed hmain hinv hfailed
      cases hcall.symm.trans hcall'
      rcases hnext with ⟨-, rfl⟩ | ⟨hhigh, -⟩
      · rfl
      · omega
    · have hquiet : s.inputFailed = false := by simpa using hfailed
      obtain ⟨_, _, hcall', -, hleast⟩ := pollCall_least hinv.watches
        (s.conditions mainServerSocket) (.inr (hinput.mpr hquiet))
      cases hcall.symm.trans hcall'
      rcases hleast with ⟨hnone, -⟩ | ⟨fd, hfound, hmem, hready, hfirst⟩
      · exact absurd hnone hresult
      · have hhigh : mainServerSocket ≤ fd := by
          rcases hmem with rfl | hopen
          · exact Nat.le_refl _
          · exact Nat.le_of_lt (hinv.above fd hopen)
        rw [hfound] at hnext
        rcases hnext with ⟨hlow, -⟩ | ⟨-, rfl⟩
        · omega
        · exact .inr ⟨fd, hquiet, rfl, hmem, hready, hfirst⟩

private theorem controlInv_accept {clientSocket : Nat} {stale : Nat → Nat}
    (h : controlStep mainServerSocket s (.accept clientSocket stale) = some (output, s'))
    (hinv : ControlInv mainServerSocket s) : ControlInv mainServerSocket s' := by
  obtain ⟨-, hwaiting, hhigh, hfree, -, pollSet, hadd, rfl⟩ := controlStep_accept h
  obtain ⟨added, hadded, hwatches⟩ := addToPollSet_watches hinv.watches clientSocket stale
  obtain rfl : added = pollSet := Except.ok.inj (hadded.symm.trans hadd)
  have hcases : ∀ fd c,
      Function.update s.descriptors clientSocket (some s.accepted) fd = some c →
      (fd = clientSocket ∧ c = s.accepted) ∨ (fd ≠ clientSocket ∧ s.descriptors fd = some c) := by
    intro fd c hfd
    by_cases heq : fd = clientSocket
    · rw [heq, Function.update_self] at hfd
      exact .inl ⟨heq, (Option.some.inj hfd).symm⟩
    · rw [Function.update_of_ne heq] at hfd
      exact .inr ⟨heq, hfd⟩
  have hset : insert clientSocket (s.watched mainServerSocket) =
      insert mainServerSocket
        { fd | Function.update s.descriptors clientSocket (some s.accepted) fd ≠ none } := by
    ext fd
    by_cases heq : fd = clientSocket
    · simp [heq]
    · simp [ControlState.watched, heq]
  rw [hset] at hwatches
  constructor
  · exact hwatches
  · intro fd hopen
    obtain ⟨c, hopen⟩ := Option.ne_none_iff_exists'.mp hopen
    rcases hcases fd c hopen with ⟨rfl, -⟩ | ⟨-, hopen⟩
    · exact hhigh
    · exact hinv.above fd (by rw [hopen]; exact Option.some_ne_none c)
  · intro fd fd' c hopen hopen'
    rcases hcases fd c hopen with ⟨hfd, hc⟩ | ⟨-, hold⟩ <;>
      rcases hcases fd' c hopen' with ⟨hfd', hc'⟩ | ⟨-, hold'⟩
    · rw [hfd, hfd']
    · exact absurd (hinv.numbered fd' c hold') (by omega)
    · exact absurd (hinv.numbered fd c hold) (by omega)
    · exact hinv.distinct fd fd' c hold hold'
  · intro fd c hopen
    rcases hcases fd c hopen with ⟨-, rfl⟩ | ⟨-, hopen⟩
    · exact Nat.lt_succ_self _
    · exact Nat.lt_succ_of_lt (hinv.numbered fd c hopen)
  · exact hwaiting
  · exact fun fd hfd => absurd hfd.symm (Option.some_ne_none fd)

private theorem controlInv_serve {dataBuffer : List UInt8} {uninit : Nat} {heap : Heap}
    (h : controlStep mainServerSocket s (.serve dataBuffer uninit heap) = some (output, s'))
    (hinv : ControlInv mainServerSocket s) : ControlInv mainServerSocket s' := by
  obtain ⟨fd, c, -, hopen, -, -, -, -, ⟨-, rfl⟩ | ⟨-, pollSet, hremove, rfl⟩⟩ :=
    controlStep_serve h
  · exact { hinv with picked := fun fd hfd => absurd hfd.symm (Option.some_ne_none fd) }
  · have hmem := s.mem_watched mainServerSocket hopen
    have hhigh := hinv.above fd (by rw [hopen]; exact Option.some_ne_none c)
    obtain ⟨removed, hremoved, hwatches⟩ := removeFromPollSet_watches hinv.watches hmem
    obtain rfl : removed = pollSet := Except.ok.inj (hremoved.symm.trans hremove)
    have hcases : ∀ fd' c', Function.update s.descriptors fd none fd' = some c' →
        s.descriptors fd' = some c' := by
      intro fd' c' hfd'
      by_cases heq : fd' = fd
      · rw [heq, Function.update_self] at hfd'
        cases hfd'
      · rwa [Function.update_of_ne heq] at hfd'
    have hset : s.watched mainServerSocket \ {fd} =
        insert mainServerSocket { fd' | Function.update s.descriptors fd none fd' ≠ none } := by
      ext fd'
      by_cases heq : fd' = fd
      · simp [heq, Nat.ne_of_gt hhigh]
      · simp [ControlState.watched, heq]
    rw [hset] at hwatches
    constructor
    · exact hwatches
    · intro fd' hfd'
      obtain ⟨c', hfd'⟩ := Option.ne_none_iff_exists'.mp hfd'
      exact hinv.above fd' (by rw [hcases fd' c' hfd']; exact Option.some_ne_none c')
    · exact fun fd₁ fd₂ c' h₁ h₂ => hinv.distinct _ _ _ (hcases _ _ h₁) (hcases _ _ h₂)
    · exact fun fd' c' hfd' => hinv.numbered _ _ (hcases _ _ hfd')
    · exact hinv.waiting
    · exact fun fd' hfd' => absurd hfd'.symm (Option.some_ne_none fd')

theorem controlInv_step (hmain : 0 < mainServerSocket) {action : ControlAction}
    (h : controlStep mainServerSocket s action = some (output, s'))
    (hinv : ControlInv mainServerSocket s) : ControlInv mainServerSocket s' := by
  cases action with
  | connect =>
    cases h
    exact { hinv with waiting := Nat.le_succ_of_le hinv.waiting }
  | arrive c bytes =>
    obtain ⟨-, -, -, rfl⟩ := controlStep_arrive h
    exact { hinv with }
  | close c =>
    obtain ⟨-, -, rfl⟩ := controlStep_close h
    exact { hinv with }
  | failInput =>
    cases h
    exact { hinv with }
  | poll =>
    obtain ⟨-, -, hwatches, ⟨-, hnext⟩ | ⟨fd, -, hnext, hmem, -⟩⟩ :=
      controlStep_poll_cases hmain hinv h
    · rw [hnext]
      exact { hinv with watches := hwatches }
    · rw [hnext]
      refine { hinv with watches := hwatches, picked := ?_ }
      intro fd' hfd'
      cases hfd'
      exact hmem
  | accept clientSocket stale => exact controlInv_accept h hinv
  | serve dataBuffer uninit heap => exact controlInv_serve h hinv

end Invariant

/-- The server can get into this state. -/
def Reachable (mainServerSocket : Nat) (s : ControlState) : Prop :=
  ∃ stale heap initial actions moments,
    initialControl mainServerSocket stale heap = .ok initial ∧
    run (controlStep mainServerSocket) initial actions = some (moments, s)

theorem Reachable.inv {mainServerSocket : Nat} (hmain : 0 < mainServerSocket) {s : ControlState}
    (h : Reachable mainServerSocket s) : ControlInv mainServerSocket s := by
  obtain ⟨stale, heap, initial, actions, moments, hinitial, hrun⟩ := h
  obtain ⟨s₀, heq, hinv, -⟩ := initialControl_eq mainServerSocket stale heap
  obtain rfl : s₀ = initial := Except.ok.inj (heq.symm.trans hinitial)
  exact (run_invariant (ControlInv mainServerSocket) (fun _ _ => True) (fun _ => True)
    (fun s action output s' hstep hinv _ => ⟨controlInv_step hmain hstep hinv, trivial⟩)
    hinv hrun (fun _ _ => trivial)).1

end Cpe464.Chat
