import Cpe464.Chat.ServerControl
import Cpe464.Chat.ServerMessage

/-!
# Who the chat server does not serve

Three things keep clients from being served for good. `pollCall` returns the lowest descriptor that
is ready, so that those above it wait for as long as one below has something to read. `recv` with
`MSG_WAITALL` waits for the rest of a PDU, so that a client that sends the beginning of one stops
the server for all of them. And a standard input that has hung up is found at every index that
watches nothing, the lowest of which is below the listening socket.
-/

namespace Cpe464.Chat

open Runs

/-! ## Waiting for the rest of a PDU -/

/-- Less than the header has arrived, or less than its length field asks for. The field counts the
header, and what is left of it goes into a `size_t`; above 1024 the server exits. -/
def Connection.Incomplete (connection : Connection) : Prop :=
  connection.closed = false ∧ (connection.unread.length < 2 ∨
    (announced connection.unread ≤ 1024 ∧
      connection.unread.length < 2 + toSize ((announced connection.unread : Int) - 2)))

theorem waits_iff (connection : Connection) {dataBuffer : List UInt8}
    (hbuffer : dataBuffer.length = 1024) (uninit : Nat) :
    connection.Waits dataBuffer uninit ↔ connection.Incomplete := by
  refine and_congr_right fun _ => ?_
  have hfirst : recvCall connection.unread 0 2 ∈
      recvCalls connection.unread dataBuffer 1024 uninit := List.mem_cons_self
  have htwo : toSize 2 = 2 := rfl
  by_cases hshort : connection.unread.length < 2
  · refine iff_of_true ⟨_, hfirst, ?_⟩ (.inl hshort)
    simp only [recvCall, htwo, List.length_take]
    omega
  · have hlong : 2 ≤ connection.unread.length := by omega
    have hheader : ¬(recvCall connection.unread 0 2).stored.length <
        (recvCall connection.unread 0 2).size := by
      simp only [recvCall, htwo, List.length_take]
      omega
    have hne : connection.unread ≠ [] := by
      intro hnil
      simp [hnil] at hlong
    have hseen := lengthSeen_eq connection.unread dataBuffer hlong
    by_cases hlarge : 1024 < announced connection.unread
    · have hcalls : recvCalls connection.unread dataBuffer 1024 uninit =
          [recvCall connection.unread 0 2] := by
        have hvalue := ntohs_announced (overlay dataBuffer 0 (connection.unread.take 2))
          (by rw [length_overlay_header _ _ (by omega)]; omega) (uninit / 65536)
        change _ = lengthSeen connection.unread dataBuffer at hvalue
        have hsome : ((connection.unread.take 2).length : Int) > 0 := by
          rw [List.length_take]
          omega
        have hrefused : (1024 : Int) < (lengthSeen connection.unread dataBuffer : Int) := by omega
        simp only [recvCalls, safeRecv, htwo, hvalue, if_pos hsome, if_pos hrefused]
      rw [hcalls]
      simp only [List.mem_singleton, exists_eq_left, hheader, hshort, false_or]
      refine iff_of_false id ?_
      omega
    · have hcalls := Client.recvCalls_payload hne (by omega : 2 ≤ dataBuffer.length)
        (show lengthSeen connection.unread dataBuffer ≤ 1024 by omega) uninit
      rw [show ((1024 : Nat) : Int) = 1024 from rfl, hseen] at hcalls
      rw [hcalls]
      simp only [List.mem_cons, List.not_mem_nil, or_false, exists_eq_or_imp, exists_eq_left,
        hheader, false_or, hshort]
      simp only [recvCall, List.length_take, List.length_drop]
      omega

/-! ## What keeps the server from serving -/

/-- The server has accepted nobody, served nobody and registered nobody in between. -/
structure Untouched (s s' : ControlState) : Prop where
  table : s'.table = s.table
  accepted : s'.accepted = s.accepted
  descriptors : s'.descriptors = s.descriptors
  consumed : ∀ c, (s'.connections c).consumed = (s.connections c).consumed

theorem Untouched.refl (s : ControlState) : Untouched s s := ⟨rfl, rfl, rfl, fun _ => rfl⟩

theorem Untouched.trans {s s' s'' : ControlState} (h : Untouched s s') (h' : Untouched s' s'') :
    Untouched s s'' where
  table := h'.table.trans h.table
  accepted := h'.accepted.trans h.accepted
  descriptors := h'.descriptors.trans h.descriptors
  consumed c := (h'.consumed c).trans (h.consumed c)

section Idle

variable {mainServerSocket : Nat} {s s' : ControlState} {output : List Event}

private theorem consumed_update_of_ne (connections : Nat → Connection) {c c' : Nat} (h : c' ≠ c)
    (connection : Connection) :
    (Function.update connections c connection c').consumed = (connections c').consumed := by
  rw [Function.update_of_ne h]

theorem consumed_update (connections : Nat → Connection) (c c' : Nat) {connection : Connection}
    (h : connection.consumed = (connections c).consumed) :
    (Function.update connections c connection c').consumed = (connections c').consumed := by
  by_cases heq : c' = c
  · rw [heq, Function.update_self, h]
  · exact consumed_update_of_ne connections heq connection

/-- A server that deals with no new client and waits for the rest of a PDU, if it deals with a
connection, does nothing else but call `pollCall`. -/
private theorem controlStep_idle {action : ControlAction}
    (h : controlStep mainServerSocket s action = some (output, s'))
    (haccept : s.picked ≠ some mainServerSocket)
    (hserve : ∀ fd c, s.picked = some fd → s.descriptors fd = some c →
      (s.connections c).Incomplete) :
    output = [] ∧ Untouched s s' ∧ (s'.picked = s.picked ∨ action = .poll) := by
  cases action with
  | connect =>
    cases h
    exact ⟨rfl, ⟨rfl, rfl, rfl, fun _ => rfl⟩, .inl rfl⟩
  | arrive c bytes =>
    obtain ⟨-, -, rfl, rfl⟩ := controlStep_arrive h
    exact ⟨rfl, ⟨rfl, rfl, rfl, fun c' => consumed_update _ c c' rfl⟩, .inl rfl⟩
  | close c =>
    obtain ⟨-, rfl, rfl⟩ := controlStep_close h
    exact ⟨rfl, ⟨rfl, rfl, rfl, fun c' => consumed_update _ c c' rfl⟩, .inl rfl⟩
  | failInput =>
    cases h
    exact ⟨rfl, ⟨rfl, rfl, rfl, fun _ => rfl⟩, .inl rfl⟩
  | poll =>
    obtain ⟨_, _, -, -, -, rfl, ⟨-, rfl⟩ | ⟨-, rfl⟩⟩ := controlStep_poll h <;>
      exact ⟨rfl, ⟨rfl, rfl, rfl, fun _ => rfl⟩, .inr rfl⟩
  | accept clientSocket stale => exact absurd (controlStep_accept h).1 haccept
  | serve dataBuffer uninit heap =>
    obtain ⟨fd, c, hpicked, hopen, hbuffer, hready, -⟩ := controlStep_serve h
    exact absurd ((waits_iff _ hbuffer uninit).mpr (hserve fd c hpicked hopen)) hready

private theorem controlStep_inputFailed {action : ControlAction}
    (h : controlStep mainServerSocket s action = some (output, s'))
    (hfailed : s.inputFailed = true) : s'.inputFailed = true := by
  cases action with
  | connect =>
    cases h
    exact hfailed
  | arrive c bytes =>
    obtain ⟨-, -, -, rfl⟩ := controlStep_arrive h
    exact hfailed
  | close c =>
    obtain ⟨-, -, rfl⟩ := controlStep_close h
    exact hfailed
  | failInput =>
    cases h
    rfl
  | poll =>
    obtain ⟨_, _, -, -, -, -, ⟨-, rfl⟩ | ⟨-, rfl⟩⟩ := controlStep_poll h <;> exact hfailed
  | accept clientSocket stale =>
    obtain ⟨-, -, -, -, -, _, -, rfl⟩ := controlStep_accept h
    exact hfailed
  | serve dataBuffer uninit heap =>
    obtain ⟨_, _, -, -, -, -, -, -, ⟨-, rfl⟩ | ⟨-, _, -, rfl⟩⟩ := controlStep_serve h <;>
      exact hfailed

/-- A connection that is not being served stays as it is when `pollCall` has something lower to
return. -/
private theorem controlStep_other (hmain : 0 < mainServerSocket)
    (hinv : ControlInv mainServerSocket s)
    {fd c : Nat} (hopen : s.descriptors fd = some c) (hpicked : s.picked ≠ some fd)
    {action : ControlAction} (h : controlStep mainServerSocket s action = some (output, s'))
    (hlower : action = .poll → ∃ fd' ∈ s.watched mainServerSocket,
      fd' < fd ∧ Ready (s.conditions mainServerSocket) fd') :
    s'.descriptors fd = some c ∧ (s'.connections c).consumed = (s.connections c).consumed ∧
      s'.picked ≠ some fd := by
  cases action with
  | connect =>
    cases h
    exact ⟨hopen, rfl, hpicked⟩
  | arrive c' bytes =>
    obtain ⟨-, -, -, rfl⟩ := controlStep_arrive h
    exact ⟨hopen, consumed_update _ c' c rfl, hpicked⟩
  | close c' =>
    obtain ⟨-, -, rfl⟩ := controlStep_close h
    exact ⟨hopen, consumed_update _ c' c rfl, hpicked⟩
  | failInput =>
    cases h
    exact ⟨hopen, rfl, hpicked⟩
  | poll =>
    obtain ⟨-, -, -, ⟨-, hnext⟩ | ⟨found, -, hnext, -, -, hfirst⟩⟩ :=
      controlStep_poll_cases hmain hinv h
    · rw [hnext]
      exact ⟨hopen, rfl, hpicked⟩
    · obtain ⟨fd', hmem, hlt, hready⟩ := hlower rfl
      have hle := hfirst fd' hmem hready
      rw [hnext]
      refine ⟨hopen, rfl, ?_⟩
      intro heq
      have := Option.some.inj heq
      omega
  | accept clientSocket stale =>
    obtain ⟨-, -, -, hfree, -, _, -, rfl⟩ := controlStep_accept h
    have hne : fd ≠ clientSocket := by
      rintro rfl
      rw [hopen] at hfree
      cases hfree
    refine ⟨?_, rfl, fun heq => Option.some_ne_none fd heq.symm⟩
    change Function.update _ _ _ _ = _
    rw [Function.update_of_ne hne, hopen]
  | serve dataBuffer uninit heap =>
    obtain ⟨fd', c', hpicked', hopen', -, -, -, -, hnext⟩ := controlStep_serve h
    have hne : fd ≠ fd' := by
      rintro rfl
      exact hpicked hpicked'
    have hother : c ≠ c' := by
      rintro rfl
      exact hne (hinv.distinct fd fd' c hopen hopen')
    obtain ⟨-, rfl⟩ | ⟨-, _, -, rfl⟩ := hnext
    · exact ⟨hopen, consumed_update_of_ne _ hother _, fun heq => Option.some_ne_none fd heq.symm⟩
    · refine ⟨?_, consumed_update_of_ne _ hother _, fun heq => Option.some_ne_none fd heq.symm⟩
      change Function.update _ _ _ _ = _
      rw [Function.update_of_ne hne, hopen]

end Idle

/-! ## Runs -/

section Runs

variable {mainServerSocket : Nat} {s last : ControlState} {actions : List ControlAction}
  {moments : List (Moment ControlState ControlAction (List Event))}

/-- As long as a lower descriptor has something to read whenever `pollCall` is called, nothing is
ever read from a connection, however much arrives on it. -/
theorem higher_connection_starves (hmain : 0 < mainServerSocket) (hs : Reachable mainServerSocket s)
    {fd c : Nat} (hopen : s.descriptors fd = some c) (hpicked : s.picked ≠ some fd)
    (hrun : run (controlStep mainServerSocket) s actions = some (moments, last))
    (hbusy : ∀ m ∈ moments, m.action = .poll → ∃ fd' ∈ m.before.watched mainServerSocket,
      fd' < fd ∧ Ready (m.before.conditions mainServerSocket) fd') :
    last.descriptors fd = some c ∧
      (last.connections c).consumed = (s.connections c).consumed := by
  obtain ⟨⟨-, hlast, -, hconsumed⟩, -⟩ := run_invariant
    (fun t => ControlInv mainServerSocket t ∧ t.descriptors fd = some c ∧ t.picked ≠ some fd ∧
      (t.connections c).consumed = (s.connections c).consumed)
    (fun t action => action = .poll → ∃ fd' ∈ t.watched mainServerSocket,
      fd' < fd ∧ Ready (t.conditions mainServerSocket) fd')
    (fun _ => True)
    (fun t action output t' hstep hinv hlower => by
      obtain ⟨hinv, hopen, hpicked, hconsumed⟩ := hinv
      obtain ⟨hopen', hkept, hpicked'⟩ := controlStep_other hmain hinv hopen hpicked hstep hlower
      exact ⟨⟨controlInv_step hmain hstep hinv, hopen', hpicked', hkept.trans hconsumed⟩, trivial⟩)
    ⟨hs.inv hmain, hopen, hpicked, rfl⟩ hrun hbusy
  exact ⟨hlast, hconsumed⟩

/-- A server whose listening socket is 3, once these things have happened. -/
def serverAfter (actions : List ControlAction) : Option ControlState :=
  (initialControl 3 (fun _ => 0) cleanHeap).toOption.bind fun initial =>
    (run (controlStep 3) initial actions).map Prod.snd

private theorem serverAfter_reachable (actions : List ControlAction) {s : ControlState}
    (h : serverAfter actions = some s) : Reachable 3 s := by
  obtain ⟨initial, hinitial, hrun⟩ := Option.bind_eq_some_iff.mp h
  obtain ⟨⟨moments, last⟩, htake, hlast⟩ := Option.map_eq_some_iff.mp hrun
  obtain rfl : last = s := hlast
  refine ⟨fun _ => 0, cleanHeap, initial, actions, moments, ?_, htake⟩
  cases hstart : initialControl 3 (fun _ => 0) cleanHeap with
  | error fault => simp [hstart, Except.toOption] at hinitial
  | ok s =>
    rw [hstart] at hinitial
    exact congrArg Except.ok (Option.some.inj hinitial)

/-- Two clients are accepted, and the first byte of a message and a whole one arrive. -/
def bothAccepted : List ControlAction :=
  [.connect, .connect, .poll, .accept 4 fun _ => 0, .poll, .accept 5 fun _ => 0, .arrive 0 [0],
    .arrive 1 [0, 3, 10]]

theorem higher_connection_starves_five :
    ∃ s moments last, serverAfter bothAccepted = some s ∧
      run (controlStep 3) s [.poll, .arrive 1 [0]] = some (moments, last) ∧
      last.descriptors 5 = some 1 ∧
      (last.connections 1).consumed = (s.connections 1).consumed := by
  refine ⟨_, _, _, rfl, rfl, higher_connection_starves (show 0 < 3 by decide)
    (serverAfter_reachable bothAccepted rfl) rfl (show none ≠ some 5 by decide)
    (show run (controlStep 3) _ [.poll, .arrive 1 [0]] = _ from rfl) ?_⟩
  refine List.forall_mem_cons.mpr ⟨fun _ => ⟨4, .inr ?_, by decide, by decide⟩, ?_⟩
  · exact Option.some_ne_none 0
  · refine List.forall_mem_singleton.mpr ?_
    intro h
    cases h

/-- While the connection that is being served has not completed its PDU, the server does nothing for
any client. -/
theorem incomplete_pdu_stalls (hmain : 0 < mainServerSocket) (hs : Reachable mainServerSocket s)
    {fd c : Nat} (hpicked : s.picked = some fd) (hopen : s.descriptors fd = some c)
    (hrun : run (controlStep mainServerSocket) s actions = some (moments, last))
    (hincomplete : ∀ m ∈ moments, (m.before.connections c).Incomplete) :
    last.picked = some fd ∧ Untouched s last ∧ ∀ m ∈ moments, m.output = [] := by
  have hhigh : fd ≠ mainServerSocket := by
    have := (hs.inv hmain).above fd (by rw [hopen]; exact Option.some_ne_none c)
    omega
  obtain ⟨⟨hlast, hsame⟩, hmoments⟩ := run_invariant
    (fun t => t.picked = some fd ∧ Untouched s t)
    (fun t _ => (t.connections c).Incomplete) (fun m => m.output = [])
    (fun t action output t' hstep hinv hincomplete => by
      obtain ⟨hpicked, hsame⟩ := hinv
      obtain ⟨houtput, hstill, hpicked'⟩ := controlStep_idle hstep
        (by rw [hpicked]; exact fun h => hhigh (Option.some.inj h))
        (fun fd' c' hfd' hc' => by
          obtain rfl : fd = fd' := Option.some.inj (hpicked.symm.trans hfd')
          rw [hsame.descriptors, hopen] at hc'
          obtain rfl := Option.some.inj hc'
          exact hincomplete)
      refine ⟨⟨?_, hsame.trans hstill⟩, houtput⟩
      rcases hpicked' with hpicked' | rfl
      · rw [hpicked', hpicked]
      · obtain ⟨_, _, -, hidle, -⟩ := controlStep_poll hstep
        rw [hidle] at hpicked
        cases hpicked)
    ⟨hpicked, .refl s⟩ hrun hincomplete
  exact ⟨hlast, hsame, fun m hm => (hmoments m hm).2.2⟩

theorem incomplete_pdu_stalls_byte :
    ∃ s moments last, serverAfter (bothAccepted ++ [.poll]) = some s ∧
      run (controlStep 3) s [.arrive 1 [0], .connect] = some (moments, last) ∧
      last.picked = some 4 ∧ Untouched s last ∧ ∀ m ∈ moments, m.output = [] := by
  refine ⟨_, _, _, rfl, rfl, incomplete_pdu_stalls (show 0 < 3 by decide)
    (serverAfter_reachable (bothAccepted ++ [.poll]) rfl) rfl (show _ = some 0 from rfl)
    (show run (controlStep 3) _ [.arrive 1 [0], .connect] = _ from rfl) ?_⟩
  refine List.forall_mem_cons.mpr ⟨⟨rfl, .inl (by decide)⟩, ?_⟩
  exact List.forall_mem_singleton.mpr ⟨rfl, .inl (by decide)⟩

/-- Once standard input has failed the server accepts nobody and serves nobody any more. -/
theorem failed_input_stalls (hmain : 0 < mainServerSocket) (hs : Reachable mainServerSocket s)
    (hfailed : s.inputFailed = true) (hpicked : s.picked = none)
    (hrun : run (controlStep mainServerSocket) s actions = some (moments, last)) :
    last.picked = none ∧ Untouched s last ∧ ∀ m ∈ moments, m.output = [] := by
  obtain ⟨⟨-, -, hlast, hsame⟩, hmoments⟩ := run_invariant
    (fun t => ControlInv mainServerSocket t ∧ t.inputFailed = true ∧ t.picked = none ∧
      Untouched s t)
    (fun _ _ => True) (fun m => m.output = [])
    (fun t action output t' hstep hinv _ => by
      obtain ⟨hinv, hfailed, hpicked, hsame⟩ := hinv
      obtain ⟨houtput, hstill, hpicked'⟩ := controlStep_idle hstep
        (by rw [hpicked]; exact (Option.some_ne_none _).symm)
        (fun fd c hfd => by rw [hpicked] at hfd; cases hfd)
      refine ⟨⟨controlInv_step hmain hstep hinv, ?_, ?_, hsame.trans hstill⟩, houtput⟩
      · exact controlStep_inputFailed hstep hfailed
      · rcases hpicked' with hpicked' | rfl
        · rw [hpicked', hpicked]
        · obtain ⟨-, -, -, ⟨-, hnext⟩ | ⟨fd, hgood, -⟩⟩ := controlStep_poll_cases hmain hinv hstep
          · rw [hnext]
            exact hpicked
          · rw [hfailed] at hgood
            cases hgood)
    ⟨hs.inv hmain, hfailed, hpicked, .refl s⟩ hrun (fun _ _ => trivial)
  exact ⟨hlast, hsame, fun m hm => (hmoments m hm).2.2⟩

theorem failed_input_stalls_hangup :
    ∃ s moments last, serverAfter (bothAccepted ++ [.failInput]) = some s ∧
      run (controlStep 3) s [.poll, .connect, .poll] = some (moments, last) ∧
      last.picked = none ∧ Untouched s last ∧ ∀ m ∈ moments, m.output = [] :=
  ⟨_, _, _, rfl, rfl, failed_input_stalls (show 0 < 3 by decide)
    (serverAfter_reachable (bothAccepted ++ [.failInput]) rfl) rfl rfl
    (show run (controlStep 3) _ [.poll, .connect, .poll] = _ from rfl)⟩

end Runs

end Cpe464.Chat
