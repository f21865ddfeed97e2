import Cpe464.Transfer.ReceiveBuffer
import Cpe464.Transfer.SendHook
import Cpe464.Transfer.SharedSocket

/-!
# A session

Any number of clients run `rcopy` against one server. The datagrams between them are in flight until
the network or the send hook loses, duplicates or flips them, or one of the processes receives them,
in any order. A client only answers data packets, and a child waits for a datagram before it sends
the first of them, so that a client alone on a network without duplicates is never sent any.
-/

namespace Cpe464.Transfer

open Runs

/-- The server, the loop of `talkToServer` of every client, and what is in flight to the clients. -/
structure Session where
  server : Server
  clients : List RcopyLoop
  toClients : List Datagram

/-- What can happen to a datagram in flight. -/
inductive Fault
  | lose
  | duplicate
  | flip (byteToFlip : Nat)
  deriving DecidableEq

def Fault.apply (fault : Fault) (index : Nat) (inFlight : List Datagram) : List Datagram :=
  match fault with
  | .lose => inFlight.eraseIdx index
  | .duplicate => inFlight ++ inFlight[index]?.toList
  | .flip byteToFlip =>
      inFlight.modify index fun d => { d with bytes := flipByte d.bytes byteToFlip }

/-- One step of a process of the server, of a client or of the network. -/
inductive SessionAction
  | server (action : Action)
  | client (index : Nat)
  | toServer (fault : Fault) (index : Nat)
  | toClient (fault : Fault) (index : Nat)

inductive SessionEvent
  | server (event : Event)
  | client (client : Nat) (event : RcopyEvent)
  deriving DecidableEq

/-- The datagram that an event of the server sends. -/
def Event.datagram : Event → Option Datagram
  | .received _ _ => none
  | .parentSent client packet => some ⟨client, packet⟩
  | .childSent client event => event.packet.map (⟨client, ·⟩)

def RcopyEvent.packet : RcopyEvent → Option (List UInt8)
  | .readUnsetHeader => none
  | .sendto packet => some packet

/-- What a turn of a client sends. -/
def replies (client : Nat) (events : List RcopyEvent) : List Datagram :=
  (events.filterMap RcopyEvent.packet).map (⟨client, ·⟩)

section Steps

variable (fopen : List UInt8 → Option (List UInt8))

/-- A client takes a datagram out of flight. -/
def clientReceive (s : Session) (index : Nat) (d : Datagram) (loop : RcopyLoop) :
    List SessionEvent × Session :=
  let turn := talkToServer loop d.bytes
  (turn.1.map (.client d.client),
    { server := { s.server with inFlight := s.server.inFlight ++ replies d.client turn.1 }
      clients := s.clients.set d.client turn.2
      toClients := s.toClients.eraseIdx index })

/-- The datagrams to the server are those of the clients. -/
def sessionStep (s : Session) : SessionAction → Option (List SessionEvent × Session)
  | .server (.send _) => none
  | .server action =>
      (serverStep fopen s.server action).map fun (output, server) =>
        (output.map .server, { s with
          server, toClients := s.toClients ++ output.filterMap Event.datagram })
  | .client index =>
      match s.toClients[index]? with
      | none => none
      | some d => s.clients[d.client]?.map (clientReceive s index d)
  | .toServer fault index =>
      some ([], { s with
        server := { s.server with inFlight := fault.apply index s.server.inFlight } })
  | .toClient fault index => some ([], { s with toClients := fault.apply index s.toClients })

end Steps

/-- Every client has sent its connect packet and enters its loop. -/
def initialSession (loop : ServerLoop) (starts : List (List UInt8 × RcopyLoop)) : Session where
  server := { initialServer loop with
    inFlight := starts.mapIdx fun client start => ⟨client, start.1⟩ }
  clients := starts.map Prod.snd
  toClients := []

/-! ## Steps -/

section Step

variable {fopen : List UInt8 → Option (List UInt8)} {s s' : Session} {output : List SessionEvent}

theorem sessionStep_server {action : Action}
    (h : sessionStep fopen s (.server action) = some (output, s')) :
    (∀ d, action ≠ .send d) ∧
      ∃ events server, serverStep fopen s.server action = some (events, server) ∧
        output = events.map .server ∧
        s' = { s with server, toClients := s.toClients ++ events.filterMap Event.datagram } := by
  have hpossible : ∀ d, action ≠ .send d := by
    rintro d rfl
    cases h
  have hmap : (serverStep fopen s.server action).map (fun (output, server) =>
      (output.map SessionEvent.server, ({ s with
        server, toClients := s.toClients ++ output.filterMap Event.datagram } : Session))) =
      some (output, s') := by
    cases action with
    | send d => exact absurd rfl (hpossible d)
    | parentReceive index forked windowOverrun bufferOverrun heap => exact h
    | childReceive child index flag => exact h
    | childExit child => exact h
  obtain ⟨⟨events, server⟩, hstep, heq⟩ := Option.map_eq_some_iff.mp hmap
  cases heq
  exact ⟨hpossible, events, server, hstep, rfl, rfl⟩

theorem sessionStep_client {index : Nat}
    (h : sessionStep fopen s (.client index) = some (output, s')) :
    ∃ d loop, s.toClients[index]? = some d ∧ s.clients[d.client]? = some loop ∧
      (output, s') = clientReceive s index d loop := by
  rw [sessionStep] at h
  split at h
  · cases h
  · rename_i d hd
    obtain ⟨loop, hloop, heq⟩ := Option.map_eq_some_iff.mp h
    exact ⟨d, loop, hd, hloop, heq.symm⟩

theorem sessionStep_toServer {fault : Fault} {index : Nat}
    (h : sessionStep fopen s (.toServer fault index) = some (output, s')) :
    output = [] ∧ s' = { s with
      server := { s.server with inFlight := fault.apply index s.server.inFlight } } := by
  cases h
  exact ⟨rfl, rfl⟩

theorem sessionStep_toClient {fault : Fault} {index : Nat}
    (h : sessionStep fopen s (.toClient fault index) = some (output, s')) :
    output = [] ∧ s' = { s with toClients := fault.apply index s.toClients } := by
  cases h
  exact ⟨rfl, rfl⟩

end Step

theorem mem_apply {fault : Fault} {index : Nat} {inFlight : List Datagram} {d : Datagram}
    (h : d ∈ fault.apply index inFlight) : d ∈ inFlight ∨
      ∃ byteToFlip, fault = .flip byteToFlip ∧
        ∃ d' ∈ inFlight, d = ⟨d'.client, flipByte d'.bytes byteToFlip⟩ := by
  cases fault with
  | lose => exact .inl (List.mem_of_mem_eraseIdx h)
  | duplicate =>
    rcases List.mem_append.mp h with hmem | hmem
    · exact .inl hmem
    · exact .inl (List.mem_of_getElem? (Option.mem_toList.mp hmem))
  | flip byteToFlip =>
    obtain ⟨i, hi⟩ := List.mem_iff_getElem?.mp h
    rw [Fault.apply, List.getElem?_modify] at hi
    obtain ⟨d', hd', hsame⟩ := Option.map_eq_some_iff.mp hi
    split at hsame
    · exact .inr ⟨byteToFlip, rfl, d', List.mem_of_getElem? hd', hsame.symm⟩
    · exact .inl (hsame ▸ List.mem_of_getElem? hd')

private theorem length_apply_le {fault : Fault} (h : fault ≠ .duplicate) (index : Nat)
    (inFlight : List Datagram) : (fault.apply index inFlight).length ≤ inFlight.length := by
  cases fault with
  | lose => exact List.length_eraseIdx_le _ _
  | duplicate => exact absurd rfl h
  | flip byteToFlip => exact Nat.le_of_eq (List.length_modify _ _ _)

/-! ## The processes of the server -/

section Server

variable {fopen : List UInt8 → Option (List UInt8)} {heap : Nat → Nat → UInt8}

theorem startSend_cases {setupInfo : SetupInfo} {buf : List UInt8} {client : Nat}
    {response : SendEvent} {child : Child}
    (h : startSend fopen heap setupInfo buf client = some (response, child)) :
    child.client = client ∧ child.bufferSize = setupInfo.bufferSize ∧
      ((∃ file, fopen (requestedFile buf) = some file ∧
          response = .response (sendData goodFile 9 0 9) ∧
          child.sender = some { file, seq := 0, rrBuf := 0, buf
                                window := (List.range setupInfo.windowSize.toNat).map fun i =>
                                  (List.range setupInfo.bufferSize.toNat).map (heap i) }) ∨
        response = .response (sendData badFile 8 0 9) ∧ child.sender = none) := by
  unfold startSend at h
  split at h
  · cases h
  · cases hopen : fopen (requestedFile buf) with
    | some file =>
      rw [hopen] at h
      cases h
      exact ⟨rfl, rfl, .inl ⟨file, rfl, rfl, rfl⟩⟩
    | none =>
      rw [hopen] at h
      cases h
      exact ⟨rfl, rfl, .inr ⟨rfl, rfl⟩⟩

/-- The parent receives, and forks a child, answers a data packet or goes on. -/
theorem parentReceive_cases {s s' : Server} {loop : ServerLoop} {index : Nat} {d : Datagram}
    {forked : Bool} {windowOverrun bufferOverrun : Nat} {output : List Event}
    (h : parentReceive fopen s loop index d forked windowOverrun bufferOverrun heap =
      some (output, s')) :
    let arrival : Arrival := ⟨d.bytes, d.client, forked, windowOverrun, bufferOverrun⟩
    let turn := processClient loop arrival
    s'.inFlight = s.inFlight.eraseIdx index ∧
      ((Forks loop arrival ∧ ∃ response child,
          startSend fopen heap turn.2.setupInfo turn.2.buf d.client = some (response, child) ∧
          output = [.received .parent d, .childSent d.client response] ∧
          s'.children = s.children ++ [child]) ∨
        s'.children = s.children ∧ (output = [.received .parent d] ∨
          byteAt (landed serverMaxBuf loop.buf d.bytes) 6 = 16 ∧
            output = [.received .parent d,
              .parentSent d.client (sendData msgWasReceived 17 0 9)])) := by
  intro arrival turn
  simp only [parentReceive] at h
  rw [processClient_output] at h
  by_cases hforks : Forks loop arrival
  · simp only [hforks, arrival, if_true] at h
    split at h
    · cases h
    · rename_i response child hstart
      cases h
      exact ⟨rfl, .inl ⟨hforks, response, child, hstart, rfl, rfl⟩⟩
  · simp only [hforks, arrival, if_false] at h
    cases h
    refine ⟨rfl, .inr ⟨rfl, ?_⟩⟩
    split
    · rename_i hflag
      exact .inr ⟨hflag, rfl⟩
    · exact .inl rfl

end Server

/-! ## A client alone -/

/-- The flag is that of a connect response, or its complement. -/
def Datagram.IsResponse (d : Datagram) : Prop :=
  7 ≤ d.bytes.length ∧ (byteAt d.bytes 6 = 9 ∨ byteAt d.bytes 6 = 246)

/-- Nothing is on its way that starts a transfer: what goes to the client is not answered, and no
datagram is left for a child to wake up to. -/
structure Stalled (s : Session) : Prop where
  waiting : s.server.inFlight = [] ∨ s.server.children = [] ∧ s.server.inFlight.length ≤ 1
  unanswered : ∀ d ∈ s.toClients, d.IsResponse

/-- The event is no data packet and no reply to one. -/
def SessionEvent.Idle : SessionEvent → Prop
  | .server (.childSent _ (.data _ _ _)) => False
  | .client _ (.sendto _) => False
  | _ => True

def SessionAction.Duplicates : SessionAction → Prop
  | .toServer .duplicate _ => True
  | .toClient .duplicate _ => True
  | _ => False

private theorem isResponse_flip {d : Datagram} (h : d.IsResponse) (byteToFlip : Nat) :
    (⟨d.client, flipByte d.bytes byteToFlip⟩ : Datagram).IsResponse := by
  obtain ⟨hlength, hflag⟩ := h
  refine ⟨by rw [flipByte, List.length_set]; exact hlength, ?_⟩
  rw [byteAt_flipByte _ _ (show 6 < d.bytes.length from hlength)]
  split
  · rcases hflag with hflag | hflag <;> rw [hflag]
    · exact .inr rfl
    · exact .inl rfl
  · exact hflag

theorem isResponse_sendData (client : Nat) (payload : List UInt8) (h : payload.length ≤ 65535) :
    (⟨client, sendData payload (UInt16.ofNat payload.length) 0 9⟩ : Datagram).IsResponse := by
  have hlength := length_sendData payload 0 9 h
  exact ⟨by dsimp only; omega, .inl (flag_sendData payload 0 9 h)⟩

theorem talkToServer_response (loop : RcopyLoop) {d : Datagram} (h : d.IsResponse) :
    (talkToServer loop d.bytes).1 = if loop.headerSet then [] else [.readUnsetHeader] := by
  have hflag : flagSeen loop.buf d.bytes ≠ 16 := by
    rw [flagSeen, if_pos h.1]
    rcases h.2 with hflag | hflag <;> rw [hflag] <;> decide
  rw [talkToServer_output, flag_received loop.length_buf, if_neg hflag, List.append_nil]

theorem replies_response (loop : RcopyLoop) {d : Datagram} (h : d.IsResponse) :
    replies d.client (talkToServer loop d.bytes).1 = [] := by
  rw [talkToServer_response loop h]
  cases loop.headerSet <;> rfl

section Stalled

variable {fopen : List UInt8 → Option (List UInt8)} {s s' : Session} {output : List SessionEvent}

theorem parentReceive_response {server server' : Server} {loop : ServerLoop} {index : Nat}
    {d : Datagram} {forked : Bool} {windowOverrun bufferOverrun : Nat}
    {heap : Nat → Nat → UInt8} {events : List Event}
    (h : parentReceive fopen server loop index d forked windowOverrun bufferOverrun heap =
      some (events, server')) :
    (∀ event ∈ events, (SessionEvent.server event).Idle) ∧
      ∀ sent ∈ events.filterMap Event.datagram, sent.IsResponse := by
  have hgood := isResponse_sendData d.client goodFile (by decide)
  have hbad := isResponse_sendData d.client badFile (by decide)
  have hreceived := isResponse_sendData d.client msgWasReceived (by decide)
  obtain ⟨-, ⟨-, response, child, hstart, rfl, -⟩ | ⟨-, rfl | ⟨-, rfl⟩⟩⟩ := parentReceive_cases h
  · obtain ⟨-, -, ⟨_, -, rfl, -⟩ | ⟨rfl, -⟩⟩ := startSend_cases hstart
    · exact ⟨by simp [SessionEvent.Idle], List.forall_mem_singleton.mpr hgood⟩
    · exact ⟨by simp [SessionEvent.Idle], List.forall_mem_singleton.mpr hbad⟩
  · exact ⟨by simp [SessionEvent.Idle], List.forall_mem_nil _⟩
  · exact ⟨by simp [SessionEvent.Idle], List.forall_mem_singleton.mpr hreceived⟩

private theorem stalled_serverStep {action : Action} {events : List Event} {server : Server}
    (h : serverStep fopen s.server action = some (events, server))
    (haction : ∀ d, action ≠ .send d) (hs : Stalled s) :
    (server.inFlight = [] ∨ server.children = [] ∧ server.inFlight.length ≤ 1) ∧
      (∀ event ∈ events, (SessionEvent.server event).Idle) ∧
      ∀ sent ∈ events.filterMap Event.datagram, sent.IsResponse := by
  cases action with
  | send d => exact absurd rfl (haction d)
  | parentReceive index forked windowOverrun bufferOverrun heap =>
    rw [serverStep] at h
    split at h
    · rename_i loop d _ hd
      obtain ⟨hlt, -⟩ := List.getElem?_eq_some_iff.mp hd
      have hone : s.server.inFlight.length ≤ 1 := by
        rcases hs.waiting with hnone | hone
        · rw [hnone]
          exact Nat.zero_le 1
        · exact hone.2
      have hleft : server.inFlight = [] := by
        rw [(parentReceive_cases h).1, ← List.length_eq_zero_iff, List.length_eraseIdx_of_lt hlt]
        omega
      exact ⟨.inl hleft, parentReceive_response h⟩
    · cases h
  | childReceive child index flag =>
    -- A child has nothing to receive.
    rw [serverStep] at h
    split at h
    · rename_i c d hc hd
      rcases hs.waiting with hnone | ⟨hnone, -⟩
      · rw [hnone] at hd
        cases hd
      · rw [hnone] at hc
        cases hc
    · cases h
  | childExit child =>
    rw [serverStep] at h
    split at h
    · rename_i hchild
      cases h
      have hnone : s.server.inFlight = [] := by
        refine hs.waiting.resolve_right ?_
        rintro ⟨hchildren, -⟩
        rw [hchildren] at hchild
        exact Nat.not_lt_zero _ hchild
      exact ⟨.inl hnone, List.forall_mem_nil _, List.forall_mem_nil _⟩
    · cases h

private theorem stalled_step {action : SessionAction}
    (h : sessionStep fopen s action = some (output, s')) (hs : Stalled s)
    (haction : ¬action.Duplicates) :
    Stalled s' ∧ ∀ event ∈ output, event.Idle := by
  cases action with
  | server action =>
    obtain ⟨hsend, events, server, hstep, rfl, rfl⟩ := sessionStep_server h
    obtain ⟨hwaiting, hidle, hresponses⟩ := stalled_serverStep hstep hsend hs
    refine ⟨⟨hwaiting, List.forall_mem_append.mpr ⟨hs.unanswered, hresponses⟩⟩, ?_⟩
    exact List.forall_mem_map.mpr hidle
  | client index =>
    obtain ⟨d, loop, hd, -, heq⟩ := sessionStep_client h
    cases heq
    have hturn := talkToServer_response loop (hs.unanswered d (List.mem_of_getElem? hd))
    have hnone := replies_response loop (hs.unanswered d (List.mem_of_getElem? hd))
    refine ⟨⟨?_, fun d hmem => hs.unanswered d (List.mem_of_mem_eraseIdx hmem)⟩, ?_⟩
    · rw [hnone, List.append_nil]
      exact hs.waiting
    · rw [hturn]
      cases loop.headerSet <;> simp [SessionEvent.Idle]
  | toServer fault index =>
    obtain ⟨rfl, rfl⟩ := sessionStep_toServer h
    have hfault : fault ≠ .duplicate := by
      rintro rfl
      exact haction trivial
    have hlength := length_apply_le hfault index s.server.inFlight
    refine ⟨⟨?_, hs.unanswered⟩, List.forall_mem_nil _⟩
    rcases hs.waiting with hnone | ⟨hnone, hone⟩
    · rw [hnone] at hlength
      exact .inl (List.length_eq_zero_iff.mp (Nat.le_zero.mp (hnone ▸ hlength)))
    · exact .inr ⟨hnone, Nat.le_trans hlength hone⟩
  | toClient fault index =>
    obtain ⟨rfl, rfl⟩ := sessionStep_toClient h
    refine ⟨⟨hs.waiting, fun d hmem => ?_⟩, List.forall_mem_nil _⟩
    rcases mem_apply hmem with hmem | ⟨byteToFlip, -, d', hd', rfl⟩
    · exact hs.unanswered d hmem
    · exact isResponse_flip (hs.unanswered d' hd') byteToFlip

end Stalled

/-- Whatever a client alone has asked for, it is never sent a data packet and sends nothing itself
in any run without duplicates. -/
theorem lone_client_stalls (fopen : List UInt8 → Option (List UInt8)) (loop : ServerLoop)
    (packet : List UInt8) (rcopy : RcopyLoop) {actions : List SessionAction}
    {moments : List (Moment Session SessionAction (List SessionEvent))} {last : Session}
    (hrun : run (sessionStep fopen) (initialSession loop [(packet, rcopy)]) actions =
      some (moments, last))
    (honce : ∀ action ∈ actions, ¬action.Duplicates) :
    ∀ m ∈ moments, ∀ event ∈ m.output, event.Idle := by
  have hstart : Stalled (initialSession loop [(packet, rcopy)]) :=
    ⟨.inr ⟨rfl, Nat.le_refl 1⟩, List.forall_mem_nil _⟩
  obtain ⟨-, hmoments⟩ := run_invariant Stalled (fun _ action => ¬action.Duplicates)
    (fun m => ∀ event ∈ m.output, event.Idle)
    (fun _ _ _ _ hstep hs honce => stalled_step hstep hs honce) hstart hrun (fun m hm => honce _
      (run_actions hrun ▸ List.mem_map_of_mem hm))
  exact fun m hm => (hmoments m hm).2.2

/-- The client asks for the file `f`, is told that it is there, and a byte of the answer is
flipped. -/
def loneActions : List SessionAction :=
  [.server (.parentReceive 0 true 0 0 zeroHeap), .toClient (.flip 9) 0, .client 0,
    .server (.childExit 0)]

theorem lone_client_stalls_f :
    ∃ moments last, run (sessionStep oneFile)
        (initialSession serverStart [(connectRequest, rcopyStart)]) loneActions =
          some (moments, last) ∧ ∀ m ∈ moments, ∀ event ∈ m.output, event.Idle := by
  obtain ⟨moments, last, hrun, -⟩ := exists_run_of (sessionStep oneFile)
    (initialSession serverStart [(connectRequest, rcopyStart)]) loneActions (fun _ => True)
    (by decide +kernel)
  exact ⟨moments, last, hrun, lone_client_stalls oneFile serverStart connectRequest rcopyStart
    hrun (by simp [loneActions, SessionAction.Duplicates])⟩

end Cpe464.Transfer
