import Cpe464.Chat.Conversation

/-!
# What the server passes on

Between two connections the server is a channel. What one of them is sent on account of the other
are copies of its messages, in the order in which these have arrived: nothing is made up, altered or
overtaken, except that a broadcast loses its last two bytes, and a list goes to nobody but the
client that asks for it.
-/

namespace Cpe464.Chat

open Runs

/-- What the connection `d` is sent on account of a message of the connection `c`. -/
inductive Relayed (c d : Nat) (payload : List UInt8) : List (List UInt8) → Prop
  | message (recipients : Nat) (hflag : byteAt payload 0 = 5 ∨ byteAt payload 0 = 6) :
      Relayed c d payload (List.replicate recipients payload)
  | broadcast (entries recipients : Nat) (hflag : byteAt payload 0 = 4) :
      Relayed c d payload (List.replicate entries (payload.take (payload.length - 2)) ++
        List.replicate recipients payload)
  | list (start : List UInt8) (entries : List (List UInt8)) (hflag : byteAt payload 0 = 10)
      (hasked : c = d) (hstart : byteAt start 0 = 11)
      (hentries : ∀ entry ∈ entries, byteAt entry 0 = 12) :
      Relayed c d payload (start :: entries ++ [[13]])
  | nothing (hflag : byteAt payload 0 ∉ ([4, 5, 6] : List UInt8))
      (hasked : byteAt payload 0 = 10 → c ≠ d) : Relayed c d payload []

/-- The payloads that some events send over a connection. -/
def sentOver (connections : Nat → Option Nat) (d : Nat) (events : List Event) :
    List (List UInt8) :=
  (sends events).filterMap fun send => if connections send.1 = some d then some send.2.1 else none

/-- The bytes that they put on it. -/
def bytesOver (connections : Nat → Option Nat) (d : Nat) (events : List Event) : List UInt8 :=
  (sends events).flatMap fun send =>
    if connections send.1 = some d then sendPDU send.2.1 send.2.2 else []

/-! ## One message -/

section Message

variable {connections : Nat → Option Nat} {c d : Nat}

private theorem exists_replicate {calls : List (Nat × List UInt8 × Int)} {payload : List UInt8}
    (h : ∀ send ∈ calls, send.2.1 = payload) :
    ∃ n, (calls.filterMap fun send => if connections send.1 = some d then some send.2.1 else none) =
      List.replicate n payload := by
  refine ⟨_, List.eq_replicate_of_mem ?_⟩
  intro copy hcopy
  obtain ⟨send, hsend, hcopy⟩ := List.mem_filterMap.mp hcopy
  split at hcopy
  · rw [← Option.some.inj hcopy, h send hsend]
  · cases hcopy

private theorem filterMap_own {calls : List (Nat × List UInt8 × Int)} {clientSocket : Nat}
    (hopen : connections clientSocket = some c) (h : ∀ send ∈ calls, send.1 = clientSocket) :
    (calls.filterMap fun send => if connections send.1 = some d then some send.2.1 else none) =
      if c = d then calls.map fun send => send.2.1 else [] := by
  by_cases hown : c = d
  · rw [if_pos hown, ← List.filterMap_eq_map]
    apply List.filterMap_congr
    intro send hsend
    rw [h send hsend, hopen, hown, if_pos rfl, Function.comp_apply]
  · rw [if_neg hown, List.filterMap_eq_nil_iff]
    intro send hsend
    rw [h send hsend, hopen]
    exact if_neg fun heq => hown (Option.some.inj heq)

variable {T : HandleTable} {clientSocket : Nat} {payload dataBuffer : List UInt8}

private theorem exists_sends_listSend (T : HandleTable) (clientSocket : Nat) :
    ∃ entries : List (Nat × List UInt8 × Int),
      sends (listSend T clientSocket) =
        (clientSocket, 11 :: toLE 4 (htonl T.entryCount), 5) :: entries ++
          [(clientSocket, [13], 1)] ∧
      ∀ send ∈ entries, send.1 = clientSocket ∧ byteAt send.2.1 0 = 12 := by
  refine ⟨sends (T.entries.flatMap (listEntry T clientSocket)), ?_, ?_⟩
  · rw [listSend, sends_append, sends_append]
    rfl
  · intro send hsend
    obtain ⟨event, hevent, hsend⟩ := List.mem_filterMap.mp hsend
    obtain ⟨e, -, hevent⟩ := List.mem_flatMap.mp hevent
    obtain ⟨_, _, -, rfl⟩ := mem_sends_listEntry (List.mem_filterMap.mpr ⟨event, hevent, hsend⟩)
    exact ⟨rfl, rfl⟩

private theorem relayed_listSend (hopen : connections clientSocket = some c)
    (hflag : byteAt payload 0 = 10) :
    Relayed c d payload (sentOver connections d (listSend T clientSocket)) := by
  obtain ⟨entries, hsends, hentries⟩ := exists_sends_listSend T clientSocket
  have hown : ∀ send ∈ sends (listSend T clientSocket), send.1 = clientSocket := by
    rw [hsends]
    intro send hsend
    rcases List.mem_append.mp hsend with hsend | hsend
    · rcases List.mem_cons.mp hsend with rfl | hsend
      · rfl
      · exact (hentries send hsend).1
    · rw [List.mem_singleton.mp hsend]
  rw [sentOver, filterMap_own hopen hown]
  by_cases hasked : c = d
  · rw [if_pos hasked, hsends, List.map_append, List.map_cons]
    refine .list _ _ hflag hasked rfl ?_
    intro entry hentry
    obtain ⟨send, hsend, rfl⟩ := List.mem_map.mp hentry
    exact (hentries send hsend).2
  · rw [if_neg hasked]
    refine .nothing ?_ fun _ => hasked
    rw [hflag]
    decide

private theorem relayed_messageSend (connections : Nat → Option Nat) (d : Nat) (T : HandleTable)
    (payload dataBuffer : List UInt8) :
    ∃ recipients, sentOver connections d
        (messageSend T (received payload dataBuffer) payload.length) =
      List.replicate recipients payload := by
  apply exists_replicate
  intro send hsend
  rw [sends_messageSend] at hsend
  rw [mem_sends_sendRecipients hsend]
  exact slice_received payload dataBuffer

private theorem relayed_messageBroadcast (connections : Nat → Option Nat) (d : Nat)
    (T : HandleTable) (clientSocket : Nat) (payload dataBuffer : List UInt8) :
    ∃ entries, sentOver connections d (messageBroadcast T (received payload dataBuffer)
        clientSocket ((payload.length : Int) - 2)) =
      List.replicate entries (payload.take (payload.length - 2)) := by
  apply exists_replicate
  intro send hsend
  rw [sends_messageBroadcast] at hsend
  obtain ⟨socket, -, rfl⟩ := List.mem_map.mp hsend
  have hcut : ((payload.length : Int) - 2).toNat = payload.length - 2 := by omega
  simp only [hcut, slice_received_take payload dataBuffer (Nat.sub_le payload.length 2)]

private theorem relayed_handleMessage (heap : Heap) (hlength : 1 ≤ payload.length)
    (hopen : connections clientSocket = some c) :
    Relayed c d payload (sentOver connections d
      (handleMessage T (received payload dataBuffer) clientSocket payload.length heap).2) := by
  have hbyte : byteAt (received payload dataBuffer) 2 = byteAt payload 0 :=
    byteAt_received payload dataBuffer 0 hlength
  rcases sends_handleMessage_cases T (received payload dataBuffer) clientSocket payload.length heap
    with ⟨hflag, hcalls⟩ | ⟨hflag, hcalls⟩ | ⟨hflag, hcalls⟩ | ⟨hflag, hcalls⟩
  all_goals rw [hbyte] at hflag
  · obtain ⟨entries, hentries⟩ :=
      relayed_messageBroadcast connections d T clientSocket payload dataBuffer
    obtain ⟨recipients, hrecipients⟩ := relayed_messageSend connections d T payload dataBuffer
    unfold sentOver at hentries hrecipients ⊢
    rw [hcalls, List.filterMap_append, hentries, hrecipients]
    exact .broadcast entries recipients hflag
  · obtain ⟨recipients, hrecipients⟩ := relayed_messageSend connections d T payload dataBuffer
    unfold sentOver at hrecipients ⊢
    rw [hcalls, hrecipients]
    exact .message recipients hflag
  · have hlist := relayed_listSend (T := T) (d := d) hopen hflag
    unfold sentOver at hlist ⊢
    rwa [hcalls]
  · rw [sentOver, hcalls]
    simp only [List.mem_cons, List.not_mem_nil, or_false, not_or] at hflag
    refine .nothing ?_ fun hten => absurd hten hflag.2.2.2
    simp only [List.mem_cons, List.not_mem_nil, or_false, not_or]
    exact ⟨hflag.1, hflag.2.1, hflag.2.2.1⟩

end Message

/-! ## Runs -/

/-- What a run sends over a connection, each payload behind the connection whose message it
answers. -/
def relayedTo (d : Nat) (moments : List (Moment ServerState Action (List Event))) :
    List (Option Nat × List UInt8) :=
  moments.flatMap fun m =>
    (sentOver m.before.connections d m.output).map fun payload => (authorOf m, payload)

private theorem relayed_moment {m : Moment ServerState Action (List Event)}
    (hstep : serverStep m.before m.action = some (m.output, m.after)) (d : Nat) :
    (sentOver m.before.connections d m.output = [] ∧ ∀ c, takenFrom c m = none) ∨
    ∃ c payload, authorOf m = some c ∧
      (∀ c', takenFrom c' m = if c = c' then some payload else none) ∧
      Relayed c d payload (sentOver m.before.connections d m.output) := by
  obtain ⟨s, action, output, s'⟩ := m
  simp only at hstep ⊢
  cases action with
  | accept clientSocket =>
    obtain ⟨-, rfl, -⟩ := serverStep_accept hstep
    exact .inl ⟨rfl, fun _ => rfl⟩
  | close clientSocket dataBuffer uninit heap =>
    obtain ⟨rfl, -⟩ := serverStep_close hstep
    exact .inl ⟨rfl, fun _ => rfl⟩
  | message clientSocket payload dataBuffer uninit heap =>
    obtain ⟨c, hopen, -⟩ := serverStep_message hstep
    obtain ⟨hfit, -, hsends⟩ := sends_step_message hstep
    refine .inr ⟨c, payload, hopen, ?_, ?_⟩
    · intro c'
      simp only [takenFrom, hopen, Option.some.injEq]
    · rw [sentOver, hsends]
      exact relayed_handleMessage heap hfit.1 hopen

section Moments

variable {moments : List (Moment ServerState Action (List Event))}
  (hsteps : ∀ m ∈ moments, serverStep m.before m.action = some (m.output, m.after))

include hsteps

private theorem handledOn_fits (c : Nat) : ∀ payload ∈ handledOn c moments, Fits payload := by
  intro payload hpayload
  obtain ⟨m, hm, htaken⟩ := List.mem_filterMap.mp hpayload
  have hstep := hsteps m hm
  cases haction : m.action with
  | message clientSocket payload' dataBuffer uninit heap =>
    rw [haction] at hstep
    simp only [takenFrom, haction, Option.ite_none_right_eq_some, Option.some.injEq] at htaken
    rw [← htaken.2]
    exact (sends_step_message hstep).1
  | accept clientSocket => simp [takenFrom, haction] at htaken
  | close clientSocket dataBuffer uninit heap => simp [takenFrom, haction] at htaken

private theorem relayedTo_authors (d : Nat) : ∀ x ∈ relayedTo d moments, x.1 ≠ none := by
  intro x hx
  obtain ⟨m, hm, hx⟩ := List.mem_flatMap.mp hx
  obtain ⟨payload, hpayload, rfl⟩ := List.mem_map.mp hx
  obtain ⟨hnone, -⟩ | ⟨c, _, hauthor, -, -⟩ := relayed_moment (hsteps m hm) d
  · rw [hnone] at hpayload
    cases hpayload
  · rw [hauthor]
    exact Option.some_ne_none c

private theorem relayedTo_ofConnection (c d : Nat) :
    ∃ copies, List.Forall₂ (Relayed c d) (handledOn c moments) copies ∧
      ofConnection c (relayedTo d moments) = copies.flatten := by
  induction moments with
  | nil => exact ⟨[], .nil, rfl⟩
  | cons m moments ih =>
    obtain ⟨hstep, hrest⟩ := List.forall_mem_cons.mp hsteps
    obtain ⟨copies, hcopies, hsent⟩ := ih hrest
    have hsplit : ofConnection c (relayedTo d (m :: moments)) =
        ofConnection c ((sentOver m.before.connections d m.output).map fun payload =>
          (authorOf m, payload)) ++ ofConnection c (relayedTo d moments) := by
      rw [relayedTo, List.flatMap_cons]
      exact List.filterMap_append
    rw [hsplit, hsent]
    obtain ⟨hnone, htaken⟩ | ⟨c', payload, hauthor, htaken, hrelayed⟩ := relayed_moment hstep d
    · refine ⟨copies, ?_, ?_⟩
      · rwa [handledOn, List.filterMap_cons_none (htaken c)]
      · rw [hnone]
        rfl
    · have hown : ofConnection c ((sentOver m.before.connections d m.output).map fun payload =>
          (authorOf m, payload)) =
            if c' = c then sentOver m.before.connections d m.output else [] := by
        rw [hauthor, ofConnection, List.filterMap_map]
        by_cases heq : c' = c
        · simp [heq]
        · simp [heq]
      rw [hown, handledOn]
      by_cases heq : c' = c
      · have hthis : takenFrom c m = some payload := by rw [htaken, if_pos heq]
        rw [List.filterMap_cons_some hthis, if_pos heq]
        exact ⟨_ :: copies, .cons (heq ▸ hrelayed) hcopies, rfl⟩
      · have hthis : takenFrom c m = none := by rw [htaken, if_neg heq]
        rw [List.filterMap_cons_none hthis, if_neg heq]
        exact ⟨copies, hcopies, rfl⟩

private theorem flatMap_bytesOver (d : Nat) :
    (moments.flatMap fun m => bytesOver m.before.connections d m.output) =
      wire ((relayedTo d moments).map Prod.snd) := by
  rw [relayedTo, wire, List.map_flatMap, List.flatMap_assoc]
  apply List.flatMap_congr
  intro m hm
  rw [List.map_map]
  have hbytes := flatMap_eq_wire (fun fd => m.before.connections fd = some d)
    (outgoing_step (hsteps m hm) 0).1
  rw [bytesOver, hbytes, wire, ← sentOver]
  congr 1
  exact (List.map_id' _).symm

end Moments

private theorem bytesOver_flatMap (connections : Nat → Option Nat) (d : Nat)
    (group : List (Moment ServerState Action (List Event))) :
    bytesOver connections d (group.flatMap Moment.output) =
      group.flatMap fun m => bytesOver connections d m.output := by
  simp only [bytesOver, sends, List.filterMap_flatMap, List.flatMap_assoc]

/-- In every run of the server on bytes, whatever clients that speak the protocol do and in whatever
pieces it arrives, what is put on a connection is a sequence of PDUs, each on account of a
connection, and those on account of one are what is passed on of the PDUs that have arrived from it
and are no longer unread, one after the other. -/
theorem server_relays {mainServerSocket : Nat} (hmain : 0 < mainServerSocket)
    {stale : Nat → Nat} {heap : Heap} {initial last : ControlState} {actions : List ControlAction}
    {moments : List (Moment ControlState ControlAction (List Event))}
    (hinitial : initialControl mainServerSocket stale heap = .ok initial)
    (hrun : run (controlStep mainServerSocket) initial actions = some (moments, last))
    (hspeaks : ∀ m ∈ moments, SpeaksProtocol m.before m.action) :
    ∃ handled : Nat → List (List UInt8),
      (∀ c, (∀ payload ∈ handled c, Fits payload) ∧
        (moments.map Moment.action).flatMap (arriving c) =
          wire (handled c) ++ (last.connections c).unread) ∧
      ∀ d, ∃ sent : List (Option Nat × List UInt8),
        (moments.flatMap fun m => bytesOver m.before.descriptors d m.output) =
          wire (sent.map Prod.snd) ∧
        (∀ x ∈ sent, x.1 ≠ none) ∧
        ∀ c, ∃ copies, List.Forall₂ (Relayed c d) (handled c) copies ∧
          ofConnection c sent = copies.flatten := by
  obtain ⟨actions', groups, last', hrun', -, hmatches, hhandled⟩ :=
    exists_groups hmain hinitial hrun hspeaks
  have hsteps := run_moments hrun'
  refine ⟨fun c => handledOn c groups.flatten,
    fun c => ⟨handledOn_fits hsteps c, hhandled c⟩, ?_⟩
  intro d
  refine ⟨relayedTo d groups.flatten, ?_, relayedTo_authors hsteps d, ?_⟩
  · rw [← flatMap_bytesOver hsteps]
    apply flatMap_groups hmatches
    intro m group hmatch
    rw [hmatch.output, bytesOver_flatMap]
    apply List.flatMap_congr
    intro moment hmoment
    rw [hmatch.connections moment hmoment]
  · exact fun c => relayedTo_ofConnection hsteps c d

/-- `a` registers, and `b` sends it `hi` in two pieces. -/
def relaysHi : List ControlAction :=
  [.connect, .poll, .accept 4 fun _ => 0, .connect, .poll, .accept 5 fun _ => 0,
    .arrive 0 [0, 6, 1, 2, 97, 0], .poll, serveRequest, .arrive 1 [0, 11, 5, 1, 98], .poll,
    .arrive 1 [1, 1, 97, 104, 105, 0], serveRequest]

/-- What the two send. -/
def hiPayloads : Nat → List (List UInt8)
  | 0 => [[1, 2, 97, 0]]
  | _ => [[5, 1, 98, 1, 1, 97, 104, 105, 0]]

private theorem hiPayloads_fit (c : Nat) : ∀ p ∈ hiPayloads c, Fits p := by
  cases c with
  | zero => decide
  | succ c => exact (by decide : ∀ p ∈ [[(5 : UInt8), 1, 98, 1, 1, 97, 104, 105, 0]], Fits p)

theorem server_relays_hi :
    ∃ moments last, run (controlStep 3) startedServer relaysHi = some (moments, last) ∧
      (moments.flatMap fun m => bytesOver m.before.descriptors 0 m.output) =
        wire (hiPayloads 1) ∧
      ∃ handled : Nat → List (List UInt8),
        (∀ c, (∀ payload ∈ handled c, Fits payload) ∧
          (moments.map Moment.action).flatMap (arriving c) =
            wire (handled c) ++ (last.connections c).unread) ∧
        ∀ d, ∃ sent : List (Option Nat × List UInt8),
          (moments.flatMap fun m => bytesOver m.before.descriptors d m.output) =
            wire (sent.map Prod.snd) ∧
          (∀ x ∈ sent, x.1 ≠ none) ∧
          ∀ c, ∃ copies, List.Forall₂ (Relayed c d) (handled c) copies ∧
            ofConnection c sent = copies.flatten := by
  obtain ⟨moments, last, hrun, hsends, hbytes⟩ := exists_run_of (controlStep 3) startedServer
    relaysHi (fun moments => (∀ m ∈ moments, Sends hiPayloads m.before m.action) ∧
      (moments.flatMap fun m => bytesOver m.before.descriptors 0 m.output) = wire (hiPayloads 1))
    (by decide +kernel)
  exact ⟨moments, last, hrun, hbytes, server_relays (by decide) initialControl_startedServer hrun
    fun m hm => (hsends m hm).speaksProtocol hiPayloads_fit⟩

end Cpe464.Chat
