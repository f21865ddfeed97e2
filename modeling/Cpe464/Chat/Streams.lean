import Cpe464.Chat.Starvation
import Cpe464.Framework.Simulation

/-!
# The loop on byte streams refines the loop on messages

What the clients send reaches the server in pieces of any size, of any number of connections in any
order. As long as every client sends PDUs, one after the other, and closes its connection between
two of them, the loop of `serverControl` on these bytes does what the runs of whole messages do: it
takes every PDU of a connection once and in order, and the cuts between the pieces make no
difference.
-/

namespace Cpe464.Chat

open Runs

/-- A payload that `processClient` takes. -/
def Fits (payload : List UInt8) : Prop := 1 ≤ payload.length ∧ payload.length ≤ 1022

instance (payload : List UInt8) : Decidable (Fits payload) := inferInstanceAs (Decidable (_ ∧ _))

/-! ## PDUs in a stream -/

private theorem wire_append (payloads payloads' : List (List UInt8)) :
    wire (payloads ++ payloads') = wire payloads ++ wire payloads' := List.flatMap_append

theorem wire_cons (payload : List UInt8) (payloads : List (List UInt8)) :
    wire (payload :: payloads) = sendPDU payload payload.length ++ wire payloads :=
  List.flatMap_cons

@[simp] theorem wire_nil : wire [] = [] := rfl

private theorem wire_singleton (payload : List UInt8) :
    wire [payload] = sendPDU payload payload.length := by
  rw [wire_cons, wire_nil, List.append_nil]

private theorem length_sendPDU {payload : List UInt8} (h : Fits payload) :
    (sendPDU payload payload.length).length = payload.length + 2 := by
  rw [sendPDU_eq payload (by have := h.2; omega), List.length_append, length_pduHeader,
    Nat.add_comm]

private theorem announced_prefix {bytes stream : List UInt8} (h : bytes <+: stream)
    (hlength : 2 ≤ bytes.length) : announced bytes = announced stream := by
  obtain ⟨rest, rfl⟩ := h
  rw [announced, announced, byteAt_append_left _ _ 0 (by omega),
    byteAt_append_left _ _ 1 (by omega)]

private theorem announced_wire_cons {payload : List UInt8} (h : Fits payload)
    (payloads : List (List UInt8)) :
    announced (wire (payload :: payloads)) = payload.length + 2 := by
  have hfit := h.2
  have hlength : 2 ≤ (sendPDU payload payload.length ++ wire payloads).length := by
    rw [List.length_append, length_sendPDU h]
    omega
  rw [wire_cons, ← lengthSeen_eq _ [] hlength, lengthSeen_sendPDU payload _ _ (by omega)]

private theorem wire_prefix_cons {payload payload' bytes : List UInt8}
    {payloads : List (List UInt8)} (h : Fits payload) (h' : Fits payload')
    (hfront : sendPDU payload payload.length ++ bytes <+: wire (payload' :: payloads)) :
    payload = payload' ∧ bytes <+: wire payloads := by
  have hlength : payload.length = payload'.length := by
    have hannounced := announced_prefix hfront (by
      rw [List.length_append, length_sendPDU h]
      omega)
    have hfirst := announced_prefix (List.prefix_append (sendPDU payload payload.length) bytes) (by
      rw [length_sendPDU h]
      omega)
    have hown := announced_wire_cons h []
    rw [wire_singleton] at hown
    have hother := announced_wire_cons h' payloads
    omega
  obtain ⟨rest, hrest⟩ := hfront
  rw [wire_cons, List.append_assoc] at hrest
  obtain ⟨hpdu, hbytes⟩ := List.append_inj hrest (by
    rw [length_sendPDU h, length_sendPDU h', hlength])
  refine ⟨?_, rest, hbytes⟩
  have hfit := h.2
  have hfit' := h'.2
  rw [sendPDU_eq payload (by omega), sendPDU_eq payload' (by omega)] at hpdu
  exact (List.append_inj hpdu (by rw [length_pduHeader, length_pduHeader])).2

private theorem wire_prefix {handled payloads : List (List UInt8)} {bytes : List UInt8}
    (hhandled : ∀ p ∈ handled, Fits p) (hpayloads : ∀ p ∈ payloads, Fits p)
    (h : wire handled ++ bytes <+: wire payloads) :
    ∃ todo, payloads = handled ++ todo ∧ bytes <+: wire todo := by
  induction handled generalizing payloads with
  | nil => exact ⟨payloads, rfl, h⟩
  | cons payload handled ih =>
    have hfit := hhandled payload List.mem_cons_self
    rw [wire_cons, List.append_assoc] at h
    cases payloads with
    | nil =>
      have hlength := h.length_le
      rw [List.length_append, length_sendPDU hfit, wire_nil, List.length_nil] at hlength
      omega
    | cons payload' payloads =>
      obtain ⟨rfl, hrest⟩ := wire_prefix_cons hfit (hpayloads payload' List.mem_cons_self) h
      obtain ⟨todo, rfl, hbytes⟩ := ih (fun p hp => hhandled p (List.mem_cons_of_mem _ hp))
        (fun p hp => hpayloads p (List.mem_cons_of_mem _ hp)) hrest
      exact ⟨todo, rfl, hbytes⟩

/-! ## Connections that carry PDUs -/

/-- The server has taken whole PDUs out of the connection, and more of them follow. -/
def Connection.Streams (connection : Connection) : Prop :=
  ∃ handled todo, (∀ p ∈ handled, Fits p) ∧ (∀ p ∈ todo, Fits p) ∧
    connection.consumed = wire handled ∧ connection.unread <+: wire todo ∧
    (connection.closed = true → connection.unread = wire todo)

/-- The client sends PDUs, and closes its connection between two of them. -/
def SpeaksProtocol (s : ControlState) : ControlAction → Prop
  | .arrive c bytes => ∃ payloads, (∀ p ∈ payloads, Fits p) ∧
      (s.connections c).arrived ++ bytes <+: wire payloads
  | .close c => ∃ payloads, (∀ p ∈ payloads, Fits p) ∧ (s.connections c).arrived = wire payloads
  | _ => True

theorem Connection.Streams.receive {connection : Connection} (h : connection.Streams)
    (hopen : connection.closed = false) {bytes : List UInt8} {payloads : List (List UInt8)}
    (hpayloads : ∀ p ∈ payloads, Fits p) (hbytes : connection.arrived ++ bytes <+: wire payloads) :
    (connection.receive bytes).Streams := by
  obtain ⟨handled, -, hhandled, -, hconsumed, -⟩ := h
  rw [Connection.arrived, hconsumed, List.append_assoc] at hbytes
  obtain ⟨todo, rfl, hunread⟩ := wire_prefix hhandled hpayloads hbytes
  refine ⟨handled, todo, hhandled, fun p hp => hpayloads p (List.mem_append_right _ hp), hconsumed,
    hunread, ?_⟩
  intro hclosed
  rw [Connection.receive, hopen] at hclosed
  cases hclosed

theorem Connection.Streams.shut {connection : Connection} (h : connection.Streams)
    {payloads : List (List UInt8)} (hpayloads : ∀ p ∈ payloads, Fits p)
    (harrived : connection.arrived = wire payloads) : connection.shut.Streams := by
  obtain ⟨handled, -, hhandled, -, hconsumed, -⟩ := h
  rw [Connection.arrived, hconsumed] at harrived
  obtain ⟨todo, rfl, hunread⟩ :=
    wire_prefix hhandled hpayloads ⟨[], by rw [List.append_nil, harrived]⟩
  refine ⟨handled, todo, hhandled, fun p hp => hpayloads p (List.mem_append_right _ hp), hconsumed,
    hunread, fun _ => ?_⟩
  rw [wire_append] at harrived
  exact List.append_cancel_left harrived

theorem Connection.Streams.next {connection : Connection} (h : connection.Streams)
    (hready : ¬connection.Incomplete) (hne : connection.unread ≠ []) :
    ∃ payload rest, Fits payload ∧
      connection.unread = sendPDU payload payload.length ++ rest ∧
      (connection.leave rest).Streams ∧
      (connection.leave rest).consumed =
        connection.consumed ++ sendPDU payload payload.length := by
  obtain ⟨handled, todo, hhandled, htodo, hconsumed, hunread, hclosed⟩ := h
  cases todo with
  | nil => exact absurd (List.prefix_nil.mp hunread) hne
  | cons payload todo =>
    have hfit := htodo payload List.mem_cons_self
    have hlength : payload.length + 2 ≤ connection.unread.length := by
      by_cases hend : connection.closed = true
      · rw [hclosed hend, wire_cons, List.length_append, length_sendPDU hfit]
        omega
      · have hlong : 2 ≤ connection.unread.length := by
          by_contra hshort
          exact hready ⟨by simpa using hend, .inl (by omega)⟩
        have hannounced := announced_prefix hunread hlong
        rw [announced_wire_cons hfit] at hannounced
        have hsize := toSize_payload (show 2 ≤ payload.length + 2 by omega)
          (by have := hfit.2; omega)
        by_contra hshort
        refine hready ⟨by simpa using hend, .inr ?_⟩
        rw [hannounced, hsize]
        have := hfit.2
        omega
    have hpdu : sendPDU payload payload.length <+: connection.unread := by
      refine List.prefix_of_prefix_length_le ?_ hunread (by rw [length_sendPDU hfit]; exact hlength)
      rw [wire_cons]
      exact List.prefix_append _ _
    obtain ⟨rest, hrest⟩ := hpdu
    have hleave : (connection.leave rest).consumed =
        connection.consumed ++ sendPDU payload payload.length := by
      rw [Connection.leave, ← hrest, List.length_append, Nat.add_sub_cancel, List.take_left]
    have hmore : ∀ p ∈ todo, Fits p := fun p hp => htodo p (List.mem_cons_of_mem _ hp)
    rw [← hrest] at hunread hclosed
    refine ⟨payload, rest, hfit, hrest.symm, ?_, hleave⟩
    refine ⟨handled ++ [payload], todo, ?_, hmore, ?_, (wire_prefix_cons hfit hfit hunread).2, ?_⟩
    · exact List.forall_mem_append.mpr ⟨hhandled, List.forall_mem_singleton.mpr hfit⟩
    · rw [hleave, hconsumed, wire_append, wire_singleton]
    · intro hend
      have hwhole := hclosed hend
      rw [wire_cons] at hwhole
      exact List.append_cancel_left hwhole

/-! ## The simulation -/

/-- A state of the loop on bytes and the one of the loop on messages that it refines. -/
structure Refines (mainServerSocket : Nat) (s : ControlState) (t : ServerState) : Prop where
  inv : ControlInv mainServerSocket s
  table : t.table = s.table
  accepted : t.accepted = s.accepted
  connections : t.connections = s.descriptors
  streams : ∀ c, (s.connections c).Streams

/-- The message that a moment takes out of a connection. -/
def takenFrom (c : Nat) (m : Moment ServerState Action (List Event)) : Option (List UInt8) :=
  match m.action with
  | .message clientSocket payload _ _ _ =>
      if m.before.connections clientSocket = some c then some payload else none
  | _ => none

/-- The messages of a connection that the moments of a run handle. -/
def handledOn (c : Nat) (moments : List (Moment ServerState Action (List Event))) :
    List (List UInt8) := moments.filterMap (takenFrom c)

/-- One event of the loop on bytes does what some moments of the loop on messages do, between the
same clients, and takes their messages out of the connections. -/
structure Matches (m : Moment ControlState ControlAction (List Event))
    (group : List (Moment ServerState Action (List Event))) : Prop where
  output : m.output = group.flatMap Moment.output
  connections : ∀ moment ∈ group, moment.before.connections = m.before.descriptors
  consumed : ∀ c, (m.after.connections c).consumed =
    (m.before.connections c).consumed ++ wire (handledOn c group)

section Simulation

variable {mainServerSocket : Nat} {s s' : ControlState} {t : ServerState} {output : List Event}

private theorem refines_silent {action : ControlAction} (hrelated : Refines mainServerSocket s t)
    (hinv : ControlInv mainServerSocket s') (hidle : output = [] ∧ Untouched s s')
    (hstreams : ∀ c, (s'.connections c).Streams) :
    ∃ actions' group t', run serverStep t actions' = some (group, t') ∧
      Refines mainServerSocket s' t' ∧ Matches ⟨s, action, output, s'⟩ group := by
  obtain ⟨houtput, hsame⟩ := hidle
  refine ⟨[], [], t, rfl, ⟨hinv, ?_, ?_, ?_, hstreams⟩, houtput, List.forall_mem_nil _, ?_⟩
  · rw [hrelated.table, hsame.table]
  · rw [hrelated.accepted, hsame.accepted]
  · rw [hrelated.connections, hsame.descriptors]
  · intro c
    rw [hsame.consumed, handledOn, List.filterMap_nil, wire_nil, List.append_nil]

private theorem streams_update {connections : Nat → Connection} (h : ∀ c, (connections c).Streams)
    {c : Nat} {connection : Connection} (hconnection : connection.Streams) (c' : Nat) :
    (Function.update connections c connection c').Streams := by
  by_cases heq : c' = c
  · rw [heq, Function.update_self]
    exact hconnection
  · rw [Function.update_of_ne heq]
    exact h c'

private theorem refines_moment {action : ControlAction} {action' : Action} {t' : ServerState}
    (hstep : serverStep t action' = some (output, t')) (hbefore : t.connections = s.descriptors)
    (hrelated : Refines mainServerSocket s' t')
    (hconsumed : ∀ c, (s'.connections c).consumed = (s.connections c).consumed ++
      wire (takenFrom c ⟨t, action', output, t'⟩).toList) :
    ∃ actions' group t', run serverStep t actions' = some (group, t') ∧
      Refines mainServerSocket s' t' ∧ Matches ⟨s, action, output, s'⟩ group := by
  refine ⟨[action'], [⟨t, action', output, t'⟩], t', run_step hstep rfl, hrelated, ?_, ?_, ?_⟩
  · rw [List.flatMap_singleton]
  · exact List.forall_mem_singleton.mpr hbefore
  · intro c
    rw [handledOn, hconsumed c]
    cases htaken : takenFrom c ⟨t, action', output, t'⟩ with
    | none => rw [List.filterMap_cons_none htaken, List.filterMap_nil, Option.toList_none]
    | some payload => rw [List.filterMap_cons_some htaken, List.filterMap_nil, Option.toList_some]

private theorem refines_accept {clientSocket : Nat} {stale : Nat → Nat}
    (h : controlStep mainServerSocket s (.accept clientSocket stale) = some (output, s'))
    (hinv : ControlInv mainServerSocket s') (hrelated : Refines mainServerSocket s t) :
    ∃ actions' group t', run serverStep t actions' = some (group, t') ∧
      Refines mainServerSocket s' t' ∧
      Matches ⟨s, .accept clientSocket stale, output, s'⟩ group := by
  obtain ⟨-, -, -, hfree, rfl, pollSet, -, rfl⟩ := controlStep_accept h
  have hstep : serverStep t (.accept clientSocket) = some ([], { t with
      accepted := t.accepted + 1
      connections := Function.update t.connections clientSocket (some t.accepted) }) := by
    rw [serverStep, if_pos (by rw [hrelated.connections]; exact hfree)]
  refine refines_moment hstep hrelated.connections
    ⟨hinv, hrelated.table, ?_, ?_, hrelated.streams⟩ ?_
  · rw [hrelated.accepted]
  · rw [hrelated.accepted, hrelated.connections]
  · exact fun c => (List.append_nil _).symm

private theorem refines_closed {fd c : Nat} (dataBuffer : List UInt8) (uninit : Nat) (heap : Heap)
    (hrelated : Refines mainServerSocket s t) (hopen : s.descriptors fd = some c)
    (hunread : (s.connections c).unread = []) (hinv : ControlInv mainServerSocket s')
    {pollSet : PollSet} (hnext : s' = { s with
      pollSet
      connections := Function.update s.connections c ((s.connections c).leave [])
      descriptors := Function.update s.descriptors fd none
      picked := none }) (action : ControlAction) :
    ∃ actions' group t', run serverStep t actions' = some (group, t') ∧
      Refines mainServerSocket s' t' ∧ Matches ⟨s, action, [.readBuffer 2 1], s'⟩ group := by
  subst hnext
  have hleave : (s.connections c).leave [] = s.connections c := by
    rw [Connection.leave, hunread, List.take_nil, List.append_nil, ← hunread]
  have hstep : serverStep t (.close fd dataBuffer uninit heap) = some ([.readBuffer 2 1], { t with
      connections := Function.update t.connections fd none }) := by
    have hconnected : t.connections fd ≠ none := by
      rw [hrelated.connections, hopen]
      exact Option.some_ne_none c
    rw [serverStep, processClient_nil]
    exact if_pos ⟨hconnected, rfl⟩
  refine refines_moment hstep hrelated.connections
    ⟨hinv, hrelated.table, hrelated.accepted, ?_, ?_⟩ ?_
  · rw [hrelated.connections]
  · intro c'
    rw [hleave, Function.update_eq_self]
    exact hrelated.streams c'
  · intro c'
    rw [hleave, Function.update_eq_self]
    exact (List.append_nil _).symm

private theorem refines_served {fd c uninit : Nat} {payload rest dataBuffer : List UInt8}
    {heap : Heap} (hrelated : Refines mainServerSocket s t) (hopen : s.descriptors fd = some c)
    (hfit : Fits payload) (hbuffer : dataBuffer.length = 1024)
    (hstreams : ((s.connections c).leave rest).Streams)
    (hconsumed : ((s.connections c).leave rest).consumed =
      (s.connections c).consumed ++ sendPDU payload payload.length)
    (hdefined : ∀ event ∈ (processClient s.table fd (sendPDU payload payload.length) dataBuffer
      uninit heap).events, event.Defined) (hinv : ControlInv mainServerSocket s')
    (hnext : s' = { s with
      table := (processClient s.table fd (sendPDU payload payload.length) dataBuffer uninit
        heap).table
      connections := Function.update s.connections c ((s.connections c).leave rest)
      picked := none }) (action : ControlAction) :
    ∃ actions' group t', run serverStep t actions' = some (group, t') ∧
      Refines mainServerSocket s' t' ∧ Matches ⟨s, action, (processClient s.table fd
        (sendPDU payload payload.length) dataBuffer uninit heap).events, s'⟩ group := by
  subst hnext
  have hconnected : t.connections fd = some c := by rw [hrelated.connections, hopen]
  have hstep : ∃ registrations, serverStep t (.message fd payload dataBuffer uninit heap) =
      some ((processClient s.table fd (sendPDU payload payload.length) dataBuffer uninit
        heap).events, { t with
          table := (processClient s.table fd (sendPDU payload payload.length) dataBuffer uninit
            heap).table
          registrations }) := by
    refine ⟨t.registrations ++ (newName s.table (received payload dataBuffer)).toList.map
      fun name => ⟨c, fd, name⟩, ?_⟩
    simp only [serverStep, hconnected, hrelated.table]
    exact if_pos ⟨hfit.1, hfit.2, hbuffer, hdefined⟩
  obtain ⟨registrations, hstep⟩ := hstep
  refine refines_moment hstep hrelated.connections
    ⟨hinv, rfl, hrelated.accepted, hrelated.connections, ?_⟩ ?_
  · exact streams_update hrelated.streams hstreams
  · intro c'
    change (Function.update s.connections c ((s.connections c).leave rest) c').consumed =
      (s.connections c').consumed ++
        wire (if t.connections fd = some c' then some payload else none).toList
    by_cases heq : c' = c
    · rw [heq, Function.update_self, hconsumed, if_pos hconnected, Option.toList_some,
        wire_singleton]
    · have hother : t.connections fd ≠ some c' := by
        rw [hconnected]
        exact fun h => heq (Option.some.inj h).symm
      rw [Function.update_of_ne heq, if_neg hother, Option.toList_none, wire_nil, List.append_nil]

private theorem refines_serve {dataBuffer : List UInt8} {uninit : Nat} {heap : Heap}
    (h : controlStep mainServerSocket s (.serve dataBuffer uninit heap) = some (output, s'))
    (hinv : ControlInv mainServerSocket s') (hrelated : Refines mainServerSocket s t) :
    ∃ actions' group t', run serverStep t actions' = some (group, t') ∧
      Refines mainServerSocket s' t' ∧
      Matches ⟨s, .serve dataBuffer uninit heap, output, s'⟩ group := by
  obtain ⟨fd, c, -, hopen, hbuffer, hready, hdefined, rfl, hnext⟩ := controlStep_serve h
  rw [waits_iff _ hbuffer uninit] at hready
  by_cases hunread : (s.connections c).unread = []
  · rw [hunread, processClient_nil] at hnext ⊢
    obtain ⟨hserved, -⟩ | ⟨-, pollSet, -, hnext⟩ := hnext
    · cases hserved
    · exact refines_closed dataBuffer uninit heap hrelated hopen hunread hinv hnext _
  · obtain ⟨payload, rest, hfit, hpdu, hstreams, hconsumed⟩ :=
      (hrelated.streams c).next hready hunread
    have hprocessed := processClient_sendPDU s.table fd payload rest dataBuffer uninit heap
      hfit.1 hfit.2
    -- Handling the PDU does not depend on what follows it.
    have halone := processClient_sendPDU s.table fd payload [] dataBuffer uninit heap
      hfit.1 hfit.2
    rw [List.append_nil] at halone
    have hevents : (processClient s.table fd (sendPDU payload payload.length ++ rest) dataBuffer
        uninit heap).events = (processClient s.table fd (sendPDU payload payload.length)
          dataBuffer uninit heap).events := by rw [hprocessed, halone]
    have htable : (processClient s.table fd (sendPDU payload payload.length ++ rest) dataBuffer
        uninit heap).table = (processClient s.table fd (sendPDU payload payload.length)
          dataBuffer uninit heap).table := by rw [hprocessed, halone]
    have hrest : (processClient s.table fd (sendPDU payload payload.length ++ rest) dataBuffer
        uninit heap).rest = rest := by rw [hprocessed]
    rw [hpdu] at hnext hdefined ⊢
    rw [htable, hrest] at hnext
    rw [hevents] at hdefined ⊢
    obtain ⟨-, hnext⟩ | ⟨hclosed, -⟩ := hnext
    · exact refines_served hrelated hopen hfit hbuffer hstreams hconsumed hdefined hinv hnext _
    · rw [hprocessed] at hclosed
      cases hclosed

private theorem refines_step (hmain : 0 < mainServerSocket) {action : ControlAction}
    (h : controlStep mainServerSocket s action = some (output, s'))
    (hrelated : Refines mainServerSocket s t) (hspeaks : SpeaksProtocol s action) :
    ∃ actions' group t', run serverStep t actions' = some (group, t') ∧
      Refines mainServerSocket s' t' ∧ Matches ⟨s, action, output, s'⟩ group := by
  have hinv := controlInv_step hmain h hrelated.inv
  cases action with
  | connect =>
    cases h
    exact refines_silent hrelated hinv ⟨rfl, ⟨rfl, rfl, rfl, fun _ => rfl⟩⟩ hrelated.streams
  | arrive c bytes =>
    obtain ⟨-, hopen, rfl, rfl⟩ := controlStep_arrive h
    obtain ⟨payloads, hpayloads, hbytes⟩ := hspeaks
    refine refines_silent hrelated hinv
      ⟨rfl, ⟨rfl, rfl, rfl, fun c' => consumed_update _ c c' rfl⟩⟩ ?_
    exact streams_update hrelated.streams ((hrelated.streams c).receive hopen hpayloads hbytes)
  | close c =>
    obtain ⟨-, rfl, rfl⟩ := controlStep_close h
    obtain ⟨payloads, hpayloads, harrived⟩ := hspeaks
    refine refines_silent hrelated hinv
      ⟨rfl, ⟨rfl, rfl, rfl, fun c' => consumed_update _ c c' rfl⟩⟩ ?_
    exact streams_update hrelated.streams ((hrelated.streams c).shut hpayloads harrived)
  | failInput =>
    cases h
    exact refines_silent hrelated hinv ⟨rfl, ⟨rfl, rfl, rfl, fun _ => rfl⟩⟩ hrelated.streams
  | poll =>
    obtain ⟨_, _, -, -, -, rfl, ⟨-, rfl⟩ | ⟨-, rfl⟩⟩ := controlStep_poll h <;>
      exact refines_silent hrelated hinv ⟨rfl, ⟨rfl, rfl, rfl, fun _ => rfl⟩⟩ hrelated.streams
  | accept clientSocket stale => exact refines_accept h hinv hrelated
  | serve dataBuffer uninit heap => exact refines_serve h hinv hrelated

end Simulation

/-! ## Runs -/

/-- The bytes that an event brings to a connection. -/
def arriving (c : Nat) : ControlAction → List UInt8
  | .arrive c' bytes => if c' = c then bytes else []
  | _ => []

private theorem recvPDU_rest (stream dataBuffer : List UInt8) (bufferSize : Int) (uninit : Nat) :
    (recvPDU stream dataBuffer bufferSize uninit).rest <:+ stream := by
  have hheader : (safeRecv stream dataBuffer 0 2).rest <:+ stream := List.drop_suffix _ _
  unfold recvPDU
  dsimp only
  split
  · exact hheader
  · split
    · split
      · exact hheader
      · exact (List.drop_suffix _ _).trans hheader
    · exact hheader

theorem processClient_rest (T : HandleTable) (fd : Nat) (stream dataBuffer : List UInt8)
    (uninit : Nat) (heap : Heap) :
    (processClient T fd stream dataBuffer uninit heap).rest <:+ stream := by
  have hcall := recvPDU_rest stream dataBuffer 1024 uninit
  unfold processClient
  dsimp only
  split
  · exact hcall
  · split <;> exact hcall

private theorem Connection.arrived_leave {connection : Connection} {rest : List UInt8}
    (h : rest <:+ connection.unread) : (connection.leave rest).arrived = connection.arrived := by
  obtain ⟨taken, htaken⟩ := h
  simp only [Connection.arrived, Connection.leave, ← htaken, List.length_append,
    Nat.add_sub_cancel, List.take_left, List.append_assoc]

private theorem arrived_update (connections : Nat → Connection) (c c' : Nat)
    {connection : Connection} (h : connection.arrived = (connections c).arrived) :
    (Function.update connections c connection c').arrived = (connections c').arrived := by
  by_cases heq : c' = c
  · rw [heq, Function.update_self, h]
  · rw [Function.update_of_ne heq]

private theorem controlStep_arrived {mainServerSocket : Nat} {s s' : ControlState}
    {output : List Event} {action : ControlAction}
    (h : controlStep mainServerSocket s action = some (output, s')) (c : Nat) :
    (s'.connections c).arrived = (s.connections c).arrived ++ arriving c action := by
  cases action with
  | connect =>
    cases h
    exact (List.append_nil _).symm
  | arrive c' bytes =>
    obtain ⟨-, -, -, rfl⟩ := controlStep_arrive h
    change (Function.update s.connections c' ((s.connections c').receive bytes) c).arrived =
      (s.connections c).arrived ++ if c' = c then bytes else []
    by_cases heq : c' = c
    · rw [heq, Function.update_self, if_pos rfl]
      exact (List.append_assoc _ _ _).symm
    · rw [Function.update_of_ne (Ne.symm heq), if_neg heq, List.append_nil]
  | close c' =>
    obtain ⟨-, -, rfl⟩ := controlStep_close h
    have hkept : (s.connections c').shut.arrived = (s.connections c').arrived := rfl
    exact (arrived_update _ c' c hkept).trans (List.append_nil _).symm
  | failInput =>
    cases h
    exact (List.append_nil _).symm
  | poll =>
    obtain ⟨_, _, -, -, -, -, ⟨-, rfl⟩ | ⟨-, rfl⟩⟩ := controlStep_poll h <;>
      exact (List.append_nil _).symm
  | accept clientSocket stale =>
    obtain ⟨-, -, -, -, -, _, -, rfl⟩ := controlStep_accept h
    exact (List.append_nil _).symm
  | serve dataBuffer uninit heap =>
    obtain ⟨fd, c', -, -, -, -, -, -, hnext⟩ := controlStep_serve h
    have hkept := Connection.arrived_leave
      (processClient_rest s.table fd (s.connections c').unread dataBuffer uninit heap)
    obtain ⟨-, rfl⟩ | ⟨-, _, -, rfl⟩ := hnext <;>
      exact (arrived_update _ c' c hkept).trans (List.append_nil _).symm

/-- The groups of moments that match a run make up a run on whole messages, and the messages in them
are the PDUs that have arrived and are no longer unread. -/
theorem exists_groups {mainServerSocket : Nat} (hmain : 0 < mainServerSocket)
    {stale : Nat → Nat} {heap : Heap} {initial last : ControlState} {actions : List ControlAction}
    {moments : List (Moment ControlState ControlAction (List Event))}
    (hinitial : initialControl mainServerSocket stale heap = .ok initial)
    (hrun : run (controlStep mainServerSocket) initial actions = some (moments, last))
    (hspeaks : ∀ m ∈ moments, SpeaksProtocol m.before m.action) :
    ∃ actions' groups last', run serverStep (initialServer heap) actions' =
        some (groups.flatten, last') ∧
      Refines mainServerSocket last last' ∧ List.Forall₂ Matches moments groups ∧
      ∀ c, (moments.map Moment.action).flatMap (arriving c) =
        wire (handledOn c groups.flatten) ++ (last.connections c).unread := by
  obtain ⟨s, hs, hinv, htable, haccepted, hconnections, hdescriptors, -⟩ :=
    initialControl_eq mainServerSocket stale heap
  obtain rfl : s = initial := Except.ok.inj (hs.symm.trans hinitial)
  have hrelated : Refines mainServerSocket s (initialServer heap) := by
    refine ⟨hinv, htable.symm, haccepted.symm, hdescriptors.symm, ?_⟩
    intro c
    rw [hconnections]
    exact ⟨[], [], List.forall_mem_nil _, List.forall_mem_nil _, rfl, List.prefix_rfl, fun _ => rfl⟩
  obtain ⟨actions', groups, last', hrun', hlast, hmatches⟩ := run_simulation
    (Refines mainServerSocket) SpeaksProtocol Matches
    (fun _ _ _ _ _ hstep hrelated hspeaks => refines_step hmain hstep hrelated hspeaks)
    hrelated hrun hspeaks
  refine ⟨actions', groups, last', hrun', hlast, hmatches, ?_⟩
  intro c
  have harrived := run_accumulate (fun s => (s.connections c).arrived)
    (fun m : Moment ControlState ControlAction (List Event) => arriving c m.action) hrun
    (List.forall₂_same.mpr fun m hm => controlStep_arrived (run_moments hrun m hm) c)
  have hconsumed := run_accumulate (fun s => (s.connections c).consumed)
    (fun group => wire (handledOn c group)) hrun (hmatches.imp fun _ _ hmatch => hmatch.consumed c)
  rw [hconnections] at harrived hconsumed
  have hhandled : groups.flatMap (fun group => wire (handledOn c group)) =
      wire (handledOn c groups.flatten) := by
    clear hmatches hconsumed hrun'
    induction groups with
    | nil => rfl
    | cons group groups ih =>
      rw [List.flatMap_cons, ih, ← wire_append, handledOn, handledOn, ← List.filterMap_append,
        ← List.flatten_cons, ← handledOn]
  rw [List.flatMap_map, ← hhandled]
  simp only [Connection.arrived, List.nil_append] at harrived hconsumed
  rw [← hconsumed, harrived]

theorem flatMap_groups {γ : Type} {f : Moment ControlState ControlAction (List Event) → List γ}
    {g : Moment ServerState Action (List Event) → List γ}
    {moments : List (Moment ControlState ControlAction (List Event))}
    {groups : List (List (Moment ServerState Action (List Event)))}
    (hmatches : List.Forall₂ Matches moments groups)
    (h : ∀ m group, Matches m group → f m = group.flatMap g) :
    moments.flatMap f = groups.flatten.flatMap g := by
  induction hmatches with
  | nil => rfl
  | cons hmatch _ ih =>
    rw [List.flatMap_cons, List.flatten_cons, List.flatMap_append, h _ _ hmatch, ih]

/-- In every run in which the clients speak the protocol, the server does what a run on whole
messages does, with the same handle table, and the messages that it handles on a connection are, in
order, the PDUs that have arrived on it and are no longer unread. -/
theorem controlStep_refines {mainServerSocket : Nat} (hmain : 0 < mainServerSocket)
    {stale : Nat → Nat} {heap : Heap} {initial last : ControlState} {actions : List ControlAction}
    {moments : List (Moment ControlState ControlAction (List Event))}
    (hinitial : initialControl mainServerSocket stale heap = .ok initial)
    (hrun : run (controlStep mainServerSocket) initial actions = some (moments, last))
    (hspeaks : ∀ m ∈ moments, SpeaksProtocol m.before m.action) :
    ∃ actions' moments' last', run serverStep (initialServer heap) actions' =
        some (moments', last') ∧
      moments.flatMap Moment.output = moments'.flatMap Moment.output ∧
      last.table = last'.table ∧ last.descriptors = last'.connections ∧
      ∀ c, (moments.map Moment.action).flatMap (arriving c) =
        wire (handledOn c moments') ++ (last.connections c).unread := by
  obtain ⟨actions', groups, last', hrun', hlast, hmatches, hhandled⟩ :=
    exists_groups hmain hinitial hrun hspeaks
  exact ⟨actions', groups.flatten, last', hrun', flatMap_groups hmatches fun _ _ h => h.output,
    hlast.table.symm, hlast.connections.symm, hhandled⟩

/-- Every client sends the PDUs with the payloads that are given for its connection. -/
def Sends (payloads : Nat → List (List UInt8)) (s : ControlState) : ControlAction → Prop
  | .arrive c bytes => (s.connections c).arrived ++ bytes <+: wire (payloads c)
  | .close c => (s.connections c).arrived = wire (payloads c)
  | _ => True

instance (payloads : Nat → List (List UInt8)) (s : ControlState) :
    (action : ControlAction) → Decidable (Sends payloads s action)
  | .arrive _ _ => inferInstanceAs (Decidable (_ <+: _))
  | .close _ => inferInstanceAs (Decidable (_ = _))
  | .connect => inferInstanceAs (Decidable True)
  | .failInput => inferInstanceAs (Decidable True)
  | .poll => inferInstanceAs (Decidable True)
  | .accept _ _ => inferInstanceAs (Decidable True)
  | .serve _ _ _ => inferInstanceAs (Decidable True)

theorem Sends.speaksProtocol {payloads : Nat → List (List UInt8)} {s : ControlState}
    {action : ControlAction} (h : Sends payloads s action)
    (hfits : ∀ c, ∀ p ∈ payloads c, Fits p) : SpeaksProtocol s action := by
  cases action with
  | arrive c bytes => exact ⟨payloads c, hfits c, h⟩
  | close c => exact ⟨payloads c, hfits c, h⟩
  | _ => trivial

/-- A server that has just been started. -/
def startedServer : ControlState :=
  (initialControl 3 (fun _ => 0) cleanHeap).toOption.get rfl

theorem initialControl_startedServer :
    initialControl 3 (fun _ => 0) cleanHeap = .ok startedServer := rfl

def serveRequest : ControlAction := .serve (List.replicate 1024 0) 0 cleanHeap

/-- A request arrives in two pieces, the second of which holds the beginning of another. -/
def twoPieces : List ControlAction :=
  [.connect, .poll, .accept 4 fun _ => 0, .arrive 0 [0], .poll, .arrive 0 [3, 10, 0],
    serveRequest]

theorem controlStep_refines_pieces :
    ∃ moments last, run (controlStep 3) startedServer twoPieces = some (moments, last) ∧
      ∃ actions' moments' last', run serverStep (initialServer cleanHeap) actions' =
          some (moments', last') ∧
        moments.flatMap Moment.output = moments'.flatMap Moment.output ∧
        last.table = last'.table ∧ last.descriptors = last'.connections ∧
        ∀ c, (moments.map Moment.action).flatMap (arriving c) =
          wire (handledOn c moments') ++ (last.connections c).unread := by
  obtain ⟨moments, last, hrun, hsends⟩ := exists_run_of (controlStep 3) startedServer twoPieces
    (fun moments => ∀ m ∈ moments, Sends (fun _ => [[10], [10]]) m.before m.action)
    (by decide +kernel)
  have hrequests : ∀ p ∈ [[(10 : UInt8)], [10]], Fits p := by decide
  exact ⟨moments, last, hrun, controlStep_refines (by decide) initialControl_startedServer hrun
    fun m hm => (hsends m hm).speaksProtocol fun _ => hrequests⟩

end Cpe464.Chat
