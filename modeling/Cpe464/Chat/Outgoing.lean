import Cpe464.Chat.Display
import Cpe464.Chat.Streams

/-!
# What a client is sent

The `sendPDU` calls of the server for one descriptor put a stream on its connection, which the
client there takes apart with one call of `processMsgFromServer` after the other. Every call finds
its PDU whole. An empty one looks like the end of the connection, so that the client reports that
the server has terminated; the server sends one for a broadcast of two bytes.
-/

namespace Cpe464.Chat

open Runs
open Client (DisplayStack Shown ServerMessage processMsgFromServer dispatch)

/-- The payloads that some events send to a descriptor. -/
def payloadsTo (fd : Nat) (events : List Event) : List (List UInt8) :=
  (sends events).filterMap fun send => if send.1 = fd then some send.2.1 else none

/-- The bytes that they put on its connection. -/
def bytesTo (fd : Nat) (events : List Event) : List UInt8 :=
  (sends events).flatMap fun send => if send.1 = fd then sendPDU send.2.1 send.2.2 else []

/-- What the locals of a call of `processMsgFromServer` hold before. -/
structure DisplayCall where
  buf : List UInt8
  uninit : Nat
  stack : DisplayStack

/-- The arrays have the sizes of the source. -/
structure DisplayCall.Sized (call : DisplayCall) : Prop where
  buf : call.buf.length = 1024
  tmpHandle : call.stack.tmpHandle.length = 1024
  senderHandle : call.stack.senderHandle.length = 100

instance (call : DisplayCall) : Decidable call.Sized :=
  decidable_of_iff (call.buf.length = 1024 ∧ call.stack.tmpHandle.length = 1024 ∧
    call.stack.senderHandle.length = 100)
    ⟨fun h => ⟨h.1, h.2.1, h.2.2⟩, fun h => ⟨h.buf, h.tmpHandle, h.senderHandle⟩⟩

/-- Successive calls of `processMsgFromServer`, until one of them ends the client. -/
def processMsgs : List DisplayCall → List UInt8 → List ServerMessage
  | [], _ => []
  | call :: calls, stream =>
      let message := processMsgFromServer stream call.buf call.uninit call.stack
      message :: if message.exits then [] else processMsgs calls message.rest

/-- What a call prints for a payload. -/
def DisplayCall.shows (call : DisplayCall) (payload : List UInt8) : Option (List Shown) :=
  (dispatch call.stack (received payload call.buf)).1

/-! ## The calls of the client -/

private theorem dispatch_exits_iff (stack : DisplayStack) (buf : List UInt8) :
    (dispatch stack buf).2 = true ↔ byteAt buf 2 = 3 := by
  have hflag : byteAt buf 2 = 3 ↔ (byteAt buf 2).toNat = 3 :=
    ⟨fun h => congrArg UInt8.toNat h, fun h => UInt8.toNat.inj h⟩
  rw [hflag]
  unfold dispatch
  split <;> simp_all

private theorem DisplayCall.stays (call : DisplayCall) {payload : List UInt8}
    (hlength : 1 ≤ payload.length) (hflag : byteAt payload 0 ≠ 3) :
    (dispatch call.stack (received payload call.buf)).2 = false := by
  rw [← Bool.not_eq_true, dispatch_exits_iff]
  rwa [byteAt_received payload call.buf 0 hlength]

/-- The flags for which something is printed. -/
def shownFor : Shown → List UInt8
  | .handleReceived => [2]
  | .handleDenied => [3]
  | .broadcast _ _ => [4]
  | .message _ _ => [5, 6]
  | .userNotFound => [7]
  | .listStart _ => [11]
  | .listed _ => [12]
  | .listEnd => [13]
  | .serverTerminated => []

section Printed

variable {stack : DisplayStack} {buf : List UInt8} {shown : Shown}

private theorem shownFor_printBcast (h : Client.printBcast stack buf = some shown) :
    shownFor shown = [4] := by
  simp only [Client.printBcast, Option.bind_eq_bind, Option.bind_eq_some_iff] at h
  obtain ⟨_, -, _, -, _, -, ⟨⟩⟩ := h
  rfl

private theorem shownFor_printMulticast (h : Client.printMulticast stack buf = some shown) :
    shownFor shown = [5, 6] := by
  simp only [Client.printMulticast, Option.bind_eq_bind, Option.bind_eq_some_iff] at h
  obtain ⟨_, -, _, -, _, -, _, -, ⟨⟩⟩ := h
  rfl

private theorem shownFor_printHandle (h : Client.printHandle stack buf = some shown) :
    shownFor shown = [12] := by
  simp only [Client.printHandle, Option.bind_eq_bind, Option.bind_eq_some_iff] at h
  obtain ⟨_, -, _, -, ⟨⟩⟩ := h
  rfl

private theorem map_singleton_eq_some {printed : Option Shown}
    (h : printed.map ([·]) = some [shown]) : printed = some shown := by
  obtain ⟨shown', hshown, heq⟩ := Option.map_eq_some_iff.mp h
  rw [hshown, List.singleton_inj.mp heq]

private theorem mem_shownFor_dispatch (h : (dispatch stack buf).1 = some [shown]) :
    byteAt buf 2 ∈ shownFor shown := by
  have hnumber : (byteAt buf 2).toNat ∈ (shownFor shown).map UInt8.toNat := by
    unfold dispatch at h
    split at h
    all_goals
      rename_i hflag
      first
        | rw [hflag, shownFor_printBcast (map_singleton_eq_some h)]
          decide
        | rw [hflag, shownFor_printMulticast (map_singleton_eq_some h)]
          decide
        | rw [hflag, shownFor_printHandle (map_singleton_eq_some h)]
          decide
        | cases h
          rw [hflag]
          exact List.mem_cons_self
        | cases h
  obtain ⟨b, hb, heq⟩ := List.mem_map.mp hnumber
  rwa [← UInt8.toNat.inj heq]

end Printed

private theorem DisplayCall.mem_shownFor (call : DisplayCall) {payload : List UInt8}
    (hlength : 1 ≤ payload.length) {shown : Shown} (h : call.shows payload = some [shown]) :
    byteAt payload 0 ∈ shownFor shown := by
  rw [← byteAt_received payload call.buf 0 hlength]
  exact mem_shownFor_dispatch h

private theorem processMsgFromServer_empty (rest buf : List UInt8) (uninit : Nat)
    (stack : DisplayStack) : processMsgFromServer (sendPDU [] 0 ++ rest) buf uninit stack =
      { flag := none, shown := some [.serverTerminated], exits := true, rest := rest } := by
  have hcall := recvPDU_sendPDU [] rest buf 1024 uninit (by decide) (by decide)
  rw [show (([] : List UInt8).length : Int) = 0 from rfl,
    show ((1024 : Nat) : Int) = 1024 from rfl] at hcall
  simp only [processMsgFromServer, hcall]
  rfl

section Calls

variable {calls : List DisplayCall} {payloads : List (List UInt8)}
  (hcalls : calls.length = payloads.length)

include hcalls

theorem processMsgs_wire (hpayloads : ∀ payload ∈ payloads, Fits payload ∧ byteAt payload 0 ≠ 3)
    (tail : List UInt8) :
    (processMsgs calls (wire payloads ++ tail)).map ServerMessage.shown =
      List.zipWith DisplayCall.shows calls payloads := by
  induction payloads generalizing calls with
  | nil =>
    obtain rfl : calls = [] := List.length_eq_zero_iff.mp hcalls
    rfl
  | cons payload payloads ih =>
    cases calls with
    | nil => simp at hcalls
    | cons call calls =>
      obtain ⟨⟨hfits, hflag⟩, hrest⟩ := List.forall_mem_cons.mp hpayloads
      have hmessage := Client.processMsgFromServer_sendPDU payload (wire payloads ++ tail) call.buf
        call.uninit call.stack hfits.1 hfits.2
      rw [wire_cons, List.append_assoc, processMsgs, hmessage, List.zipWith_cons_cons]
      simp only [call.stays hfits.1 hflag, Bool.false_eq_true, if_false, List.map_cons]
      rw [ih (by simpa using hcalls) hrest]
      rfl

private theorem mem_processMsgs_wire
    (hpayloads : ∀ payload ∈ payloads, payload.length ≤ 1022 ∧ byteAt payload 0 ≠ 3)
    {message : ServerMessage} (h : message ∈ processMsgs calls (wire payloads)) :
    (message.shown = some [.serverTerminated] ∧ message.exits = true) ∨
      ∃ call : DisplayCall, ∃ payload ∈ payloads, 1 ≤ payload.length ∧
        message.shown = call.shows payload ∧ message.exits = false := by
  induction payloads generalizing calls with
  | nil =>
    obtain rfl : calls = [] := List.length_eq_zero_iff.mp hcalls
    cases h
  | cons payload payloads ih =>
    cases calls with
    | nil => simp at hcalls
    | cons call calls =>
      obtain ⟨⟨hfit, hflag⟩, hrest⟩ := List.forall_mem_cons.mp hpayloads
      rw [wire_cons, processMsgs] at h
      cases payload with
      | nil =>
        rw [show (([] : List UInt8).length : Int) = 0 from rfl, processMsgFromServer_empty] at h
        obtain rfl := List.mem_singleton.mp h
        exact .inl ⟨rfl, rfl⟩
      | cons b payload =>
        have hlength : 1 ≤ (b :: payload).length := Nat.le_add_left 1 payload.length
        rw [Client.processMsgFromServer_sendPDU (b :: payload) (wire payloads) call.buf call.uninit
          call.stack hlength hfit] at h
        simp only [call.stays hlength hflag, Bool.false_eq_true, if_false] at h
        rcases List.mem_cons.mp h with rfl | h
        · exact .inr ⟨call, b :: payload, List.mem_cons_self, hlength, rfl, rfl⟩
        · rcases ih (by simpa using hcalls) hrest h with hend | ⟨call', payload', hmem, hsays⟩
          · exact .inl hend
          · exact .inr ⟨call', payload', List.mem_cons_of_mem _ hmem, hsays⟩

private theorem processMsgs_terminated_iff
    (hpayloads : ∀ payload ∈ payloads, payload.length ≤ 1022 ∧ byteAt payload 0 ≠ 3) :
    (∃ message ∈ processMsgs calls (wire payloads), message.shown = some [.serverTerminated]) ↔
      [] ∈ payloads := by
  induction payloads generalizing calls with
  | nil =>
    obtain rfl : calls = [] := List.length_eq_zero_iff.mp hcalls
    simp [processMsgs]
  | cons payload payloads ih =>
    cases calls with
    | nil => simp at hcalls
    | cons call calls =>
      obtain ⟨⟨hfit, hflag⟩, hrest⟩ := List.forall_mem_cons.mp hpayloads
      rw [wire_cons]
      cases payload with
      | nil =>
        have hmessage := processMsgFromServer_empty (wire payloads) call.buf call.uninit call.stack
        refine iff_of_true ⟨_, List.mem_cons_self, ?_⟩ List.mem_cons_self
        exact congrArg ServerMessage.shown hmessage
      | cons b payload =>
        have hlength : 1 ≤ (b :: payload).length := Nat.le_add_left 1 payload.length
        have hmessage := Client.processMsgFromServer_sendPDU (b :: payload) (wire payloads) call.buf
          call.uninit call.stack hlength hfit
        have hhead : ([] : List UInt8) ∈ (b :: payload) :: payloads ↔ [] ∈ payloads := by simp
        rw [processMsgs, hmessage, hhead, ← ih (by simpa using hcalls) hrest]
        simp only [call.stays hlength hflag, Bool.false_eq_true, if_false,
          List.exists_mem_cons_iff]
        exact or_iff_right fun hterminated => List.not_mem_nil (mem_shownFor_dispatch hterminated)

end Calls

/-! ## The calls of the server -/

/-- The arguments of a `sendPDU` call of the server: the payload has the length that is passed with
it, fits a buffer and has a flag that the server sends, unless it is empty. -/
structure Outgoing (payload : List UInt8) (payloadLength : Int) : Prop where
  length : payloadLength = payload.length
  fits : payload.length ≤ 1022
  flag : payload = [] ∨ byteAt payload 0 ∈ ([4, 5, 6, 11, 12, 13] : List UInt8)

theorem Outgoing.flag_ne {payload : List UInt8} {payloadLength : Int}
    (h : Outgoing payload payloadLength) : byteAt payload 0 ≠ 3 := by
  rcases h.flag with rfl | hflag
  · decide
  · intro hthree
    rw [hthree] at hflag
    exact absurd hflag (by decide)

theorem flatMap_eq_wire (p : Nat → Prop) [DecidablePred p] {calls : List (Nat × List UInt8 × Int)}
    (h : ∀ send ∈ calls, Outgoing send.2.1 send.2.2) :
    (calls.flatMap fun send => if p send.1 then sendPDU send.2.1 send.2.2 else []) =
      wire (calls.filterMap fun send => if p send.1 then some send.2.1 else none) := by
  induction calls with
  | nil => rfl
  | cons send calls ih =>
    obtain ⟨hsend, hrest⟩ := List.forall_mem_cons.mp h
    rw [List.flatMap_cons, ih hrest]
    by_cases hsocket : p send.1
    · simp only [List.filterMap_cons, if_pos hsocket]
      rw [wire_cons, hsend.length]
    · simp only [List.filterMap_cons, if_neg hsocket]
      rw [List.nil_append]

theorem bytesTo_eq_wire {fd : Nat} {events : List Event}
    (h : ∀ send ∈ sends events, Outgoing send.2.1 send.2.2) :
    bytesTo fd events = wire (payloadsTo fd events) := flatMap_eq_wire (· = fd) h

theorem mem_payloadsTo {fd : Nat} {events : List Event} {payload : List UInt8} :
    payload ∈ payloadsTo fd events ↔ ∃ send ∈ sends events, send.1 = fd ∧ send.2.1 = payload := by
  rw [payloadsTo, List.mem_filterMap]
  refine exists_congr fun send => and_congr_right fun _ => ?_
  by_cases hsocket : send.1 = fd
  · simp [hsocket]
  · simp [hsocket]

section Message

variable {T : HandleTable} {clientSocket : Nat} {payload dataBuffer : List UInt8}

theorem slice_received_take (payload dataBuffer : List UInt8) {k : Nat} (h : k ≤ payload.length) :
    slice (received payload dataBuffer) 2 k = payload.take k := by
  have hwhole := slice_received payload dataBuffer
  unfold slice at hwhole ⊢
  rw [← Nat.min_eq_left h, ← List.take_take, hwhole, Nat.min_eq_left h]

theorem mem_sends_sendRecipients {buf : List UInt8} {messageLen : Int} {n readerLocation : Nat}
    {send : Nat × List UInt8 × Int}
    (h : send ∈ sends (sendRecipients T buf messageLen n readerLocation)) :
    send.2 = (slice buf 2 messageLen.toNat, messageLen) := by
  induction n generalizing readerLocation with
  | zero => simp [sendRecipients] at h
  | succ n ih =>
    rw [sendRecipients, sends_append, List.mem_append] at h
    rcases h with h | h
    · rw [sendRecipient, sends_append, List.mem_append] at h
      rcases h with h | h
      · simp [sends, Event.send?] at h
      · split at h
        · simp [sends, Event.send?] at h
        · rw [sends_forward, List.mem_singleton] at h
          rw [h]
    · exact ih h

private theorem outgoing_take (hfit : payload.length ≤ 1022)
    (hflag : byteAt payload 0 ∈ ([4, 5, 6] : List UInt8)) {k : Nat} (hk : k ≤ payload.length) :
    Outgoing (payload.take k) k := by
  have hlength : (payload.take k).length = k := List.length_take_of_le hk
  refine ⟨by rw [hlength], by rw [hlength]; omega, ?_⟩
  cases k with
  | zero => exact .inl List.take_zero
  | succ k =>
    cases payload with
    | nil => simp at hk
    | cons b payload =>
      rw [byteAt_cons_zero] at hflag
      rw [List.take_succ_cons, byteAt_cons_zero]
      exact .inr (List.mem_append_left [11, 12, 13] hflag)

theorem mem_sends_listEntry {e : HandleTableEntry} {send : Nat × List UInt8 × Int}
    (h : send ∈ sends (listEntry T clientSocket e)) :
    ∃ handle n, strlen handle = some n ∧
      send = (clientSocket, 12 :: UInt8.ofNat n :: handle.take (n % 256),
        ((n % 256 : Nat) : Int) + 2) := by
  unfold listEntry at h
  split at h
  · simp [sends, Event.send?] at h
  · rename_i handle _
    split at h
    · simp [sends, Event.send?] at h
    · rename_i n hlen
      exact ⟨handle, n, hlen, List.mem_singleton.mp h⟩

private theorem outgoing_listEntry {e : HandleTableEntry} {send : Nat × List UInt8 × Int}
    (h : send ∈ sends (listEntry T clientSocket e)) :
    Outgoing send.2.1 send.2.2 ∧ send.2.1 ≠ [] := by
  obtain ⟨handle, n, hlen, rfl⟩ := mem_sends_listEntry h
  have hle : n ≤ handle.length := by
    unfold strlen at hlen
    split at hlen
    · rw [← Option.some.inj hlen]
      exact length_cString_le handle
    · cases hlen
  have hlength : (handle.take (n % 256)).length = n % 256 :=
    List.length_take_of_le (Nat.le_trans (Nat.mod_le n 256) hle)
  refine ⟨⟨?_, ?_, .inr (show (12 : UInt8) ∈ _ by decide)⟩, by simp⟩
  · simp only [List.length_cons, hlength]
    omega
  · simp only [List.length_cons, hlength]
    omega

theorem outgoing_listSend {send : Nat × List UInt8 × Int}
    (h : send ∈ sends (listSend T clientSocket)) :
    Outgoing send.2.1 send.2.2 ∧ send.2.1 ≠ [] := by
  rw [listSend, sends_append, sends_append, List.mem_append, List.mem_append] at h
  rcases h with (h | h) | h
  · obtain rfl := List.mem_singleton.mp h
    have hlength : (11 :: toLE 4 (htonl T.entryCount)).length = 5 := by
      rw [List.length_cons, length_toLE]
    exact ⟨⟨by rw [hlength]; rfl, by rw [hlength]; decide, .inr (show (11 : UInt8) ∈ _ by decide)⟩,
      by simp⟩
  · obtain ⟨event, hevent, hsend⟩ := List.mem_filterMap.mp h
    obtain ⟨e, -, hevent⟩ := List.mem_flatMap.mp hevent
    exact outgoing_listEntry (List.mem_filterMap.mpr ⟨event, hevent, hsend⟩)
  · obtain rfl := List.mem_singleton.mp h
    have hflag : (13 : UInt8) ∈ [4, 5, 6, 11, 12, 13] := by decide
    exact ⟨⟨rfl, (by decide : [(13 : UInt8)].length ≤ 1022), .inr hflag⟩, by simp⟩

private theorem payloadLength_nonneg {events : List Event}
    (hdefined : ∀ event ∈ events, event.Defined) {send : Nat × List UInt8 × Int}
    (h : send ∈ sends events) : 0 ≤ send.2.2 := by
  obtain ⟨event, hevent, hsend⟩ := List.mem_filterMap.mp h
  have hnonneg := hdefined event hevent
  cases event with
  | sendPDU addressee socket payload payloadLength =>
    cases hsend
    exact hnonneg
  | _ => cases hsend

private theorem outgoing_messageBroadcast (hfit : payload.length ≤ 1022)
    (hflag : byteAt payload 0 ∈ ([4, 5, 6] : List UInt8))
    (hdefined : ∀ event ∈ messageBroadcast T (received payload dataBuffer) clientSocket
      ((payload.length : Int) - 2), event.Defined)
    {send : Nat × List UInt8 × Int}
    (h : send ∈ sends (messageBroadcast T (received payload dataBuffer) clientSocket
      ((payload.length : Int) - 2))) :
    Outgoing send.2.1 send.2.2 ∧ (send.2.1 = [] ↔ payload.length = 2) := by
  have hnonneg := payloadLength_nonneg hdefined h
  rw [sends_messageBroadcast] at h
  obtain ⟨socket, -, rfl⟩ := List.mem_map.mp h
  have hlow : 2 ≤ payload.length := by
    simp only at hnonneg
    omega
  have hcut : ((payload.length : Int) - 2).toNat = payload.length - 2 := by omega
  have hlength : (payload.length : Int) - 2 = ((payload.length - 2 : Nat) : Int) := by omega
  simp only [hcut, slice_received_take payload dataBuffer (Nat.sub_le payload.length 2)]
  rw [hlength]
  refine ⟨outgoing_take hfit hflag (Nat.sub_le payload.length 2), ?_⟩
  rw [← List.length_eq_zero_iff, List.length_take]
  omega

private theorem outgoing_messageSend (hfit : Fits payload)
    (hflag : byteAt payload 0 ∈ ([4, 5, 6] : List UInt8)) {send : Nat × List UInt8 × Int}
    (h : send ∈ sends (messageSend T (received payload dataBuffer) payload.length)) :
    Outgoing send.2.1 send.2.2 ∧ send.2.1 ≠ [] := by
  rw [sends_messageSend] at h
  have hsend := mem_sends_sendRecipients h
  rw [Int.toNat_natCast, slice_received] at hsend
  rw [hsend]
  have houtgoing := outgoing_take hfit.2 hflag (Nat.le_refl payload.length)
  rw [List.take_length] at houtgoing
  exact ⟨houtgoing, List.ne_nil_of_length_pos hfit.1⟩

end Message

private theorem exists_sends_messageBroadcast_iff (T : HandleTable) (dataBuffer : List UInt8)
    (clientSocket fd : Nat) (messageLen : Int) :
    (∃ send ∈ sends (messageBroadcast T dataBuffer clientSocket messageLen), send.1 = fd) ↔
      fd ∈ otherSockets T clientSocket := by
  rw [sends_messageBroadcast, otherSockets]
  simp only [List.mem_map, exists_exists_and_eq_and, exists_eq_right]

private theorem outgoing_broadcast {T : HandleTable} {clientSocket : Nat}
    {payload dataBuffer : List UInt8}
    (hfit : Fits payload) (hflag : byteAt payload 0 ∈ ([4, 5, 6] : List UInt8))
    (hdefined : ∀ event ∈ messageBroadcast T (received payload dataBuffer) clientSocket
      ((payload.length : Int) - 2), event.Defined) (fd : Nat) :
    let calls := sends (messageBroadcast T (received payload dataBuffer) clientSocket
        ((payload.length : Int) - 2)) ++
      sends (messageSend T (received payload dataBuffer) payload.length)
    (∀ send ∈ calls, Outgoing send.2.1 send.2.2) ∧
      ((∃ send ∈ calls, send.1 = fd ∧ send.2.1 = []) ↔
        payload.length = 2 ∧ fd ∈ otherSockets T clientSocket) := by
  intro calls
  have hbroadcast (send : Nat × List UInt8 × Int) (hsend : send ∈ sends (messageBroadcast T
      (received payload dataBuffer) clientSocket ((payload.length : Int) - 2))) :=
    outgoing_messageBroadcast hfit.2 hflag hdefined hsend
  constructor
  · intro send hsend
    rcases List.mem_append.mp hsend with hsend | hsend
    · exact (hbroadcast send hsend).1
    · exact (outgoing_messageSend hfit hflag hsend).1
  · rw [← exists_sends_messageBroadcast_iff T (received payload dataBuffer) clientSocket fd
      ((payload.length : Int) - 2)]
    constructor
    · rintro ⟨send, hsend, hsocket, hempty⟩
      rcases List.mem_append.mp hsend with hsend | hsend
      · exact ⟨(hbroadcast send hsend).2.mp hempty, send, hsend, hsocket⟩
      · exact absurd hempty (outgoing_messageSend hfit hflag hsend).2
    · rintro ⟨htwo, send, hsend, hsocket⟩
      exact ⟨send, List.mem_append_left _ hsend, hsocket, (hbroadcast send hsend).2.mpr htwo⟩

theorem sends_handleMessage_cases (T : HandleTable) (dataBuffer : List UInt8) (clientSocket : Nat)
    (messageLen : Int) (heap : Heap) :
    let calls := sends (handleMessage T dataBuffer clientSocket messageLen heap).2
    (byteAt dataBuffer 2 = 4 ∧
      calls = sends (messageBroadcast T dataBuffer clientSocket (messageLen - 2)) ++
        sends (messageSend T dataBuffer messageLen)) ∨
    ((byteAt dataBuffer 2 = 5 ∨ byteAt dataBuffer 2 = 6) ∧
      calls = sends (messageSend T dataBuffer messageLen)) ∨
    (byteAt dataBuffer 2 = 10 ∧ calls = sends (listSend T clientSocket)) ∨
    (byteAt dataBuffer 2 ∉ ([4, 5, 6, 10] : List UInt8) ∧ calls = []) := by
  intro calls
  have hflag {n : Nat} {b : UInt8} (h : b.toNat = n) : b = UInt8.ofNat n := by
    rw [← h, UInt8.ofNat_toNat]
  unfold calls handleMessage
  split
  · rename_i h
    exact .inr (.inr (.inr ⟨by rw [hflag h]; decide, sends_register _ _ _ _⟩))
  · rename_i h
    exact .inl ⟨hflag h, sends_append _ _⟩
  · rename_i h
    exact .inr (.inl ⟨.inl (hflag h), rfl⟩)
  · rename_i h
    exact .inr (.inl ⟨.inr (hflag h), rfl⟩)
  · rename_i h
    exact .inr (.inr (.inl ⟨hflag h, rfl⟩))
  · rename_i hfour hfive hsix hten
    refine .inr (.inr (.inr ⟨?_, rfl⟩))
    simp only [List.mem_cons, List.not_mem_nil, or_false, not_or]
    exact ⟨fun h => hfour (congrArg UInt8.toNat h), fun h => hfive (congrArg UInt8.toNat h),
      fun h => hsix (congrArg UInt8.toNat h), fun h => hten (congrArg UInt8.toNat h)⟩

/-- Every `sendPDU` call of the switch is made with a whole payload. The payload is empty exactly
for the other clients of a broadcast of two bytes. -/
private theorem outgoing_handleMessage {T : HandleTable} {clientSocket : Nat}
    {payload dataBuffer : List UInt8} {heap : Heap} (hfit : Fits payload)
    (hdefined : ∀ event ∈ (handleMessage T (received payload dataBuffer) clientSocket
      payload.length heap).2, event.Defined) (fd : Nat) :
    let calls := sends (handleMessage T (received payload dataBuffer) clientSocket
      payload.length heap).2
    (∀ send ∈ calls, Outgoing send.2.1 send.2.2) ∧
      ((∃ send ∈ calls, send.1 = fd ∧ send.2.1 = []) ↔
        byteAt payload 0 = 4 ∧ payload.length = 2 ∧ fd ∈ otherSockets T clientSocket) := by
  intro calls
  have hbyte : byteAt (received payload dataBuffer) 2 = byteAt payload 0 :=
    byteAt_received payload dataBuffer 0 hfit.1
  have hnone (h : ∀ send ∈ calls, send.2.1 ≠ []) (hflag : byteAt payload 0 ≠ 4) :
      (∃ send ∈ calls, send.1 = fd ∧ send.2.1 = []) ↔
        byteAt payload 0 = 4 ∧ payload.length = 2 ∧ fd ∈ otherSockets T clientSocket := by
    refine iff_of_false ?_ (fun hempty => hflag hempty.1)
    rintro ⟨send, hsend, -, hempty⟩
    exact h send hsend hempty
  rcases sends_handleMessage_cases T (received payload dataBuffer) clientSocket payload.length heap
    with ⟨hflag, hcalls⟩ | ⟨hflag, hcalls⟩ | ⟨hflag, hcalls⟩ | ⟨hflag, hcalls⟩
  all_goals
    change calls = _ at hcalls
    rw [hbyte] at hflag
  · rw [handleMessage_broadcast (hbyte.trans hflag)] at hdefined
    have hlisted : byteAt payload 0 ∈ ([4, 5, 6] : List UInt8) := by
      rw [hflag]
      decide
    obtain ⟨houtgoing, hempty⟩ := outgoing_broadcast hfit hlisted
      (fun event hevent => hdefined event (List.mem_append_left _ hevent)) fd
    rw [hcalls]
    exact ⟨houtgoing, hempty.trans (iff_and_self.mpr fun _ => hflag)⟩
  · have hlisted : byteAt payload 0 ∈ ([4, 5, 6] : List UInt8) := by
      rcases hflag with hflag | hflag <;>
        · rw [hflag]
          decide
    have hmessage : ∀ send ∈ calls, Outgoing send.2.1 send.2.2 ∧ send.2.1 ≠ [] := by
      rw [hcalls]
      intro send hsend
      exact outgoing_messageSend hfit hlisted hsend
    refine ⟨fun send hsend => (hmessage send hsend).1,
      hnone (fun send hsend => (hmessage send hsend).2) ?_⟩
    rcases hflag with hflag | hflag <;>
      · rw [hflag]
        decide
  · have hlist : ∀ send ∈ calls, Outgoing send.2.1 send.2.2 ∧ send.2.1 ≠ [] := by
      rw [hcalls]
      intro send hsend
      exact outgoing_listSend hsend
    refine ⟨fun send hsend => (hlist send hsend).1,
      hnone (fun send hsend => (hlist send hsend).2) ?_⟩
    rw [hflag]
    decide
  · rw [hcalls] at hnone ⊢
    refine ⟨List.forall_mem_nil _, hnone (List.forall_mem_nil _) ?_⟩
    intro hfour
    rw [hfour] at hflag
    exact absurd hflag (by decide)

/-! ## Runs -/

/-- The payloads that a run sends to a descriptor. -/
def sentTo (fd : Nat) (moments : List (Moment ServerState Action (List Event))) :
    List (List UInt8) := moments.flatMap fun m => payloadsTo fd m.output

/-- The stream that a run puts on the connection with the descriptor. -/
def streamTo (fd : Nat) (moments : List (Moment ServerState Action (List Event))) : List UInt8 :=
  moments.flatMap fun m => bytesTo fd m.output

/-- A broadcast of two bytes comes from another client than that with the descriptor. -/
def BroadcastsNothing (fd : Nat) (s : ServerState) : Action → Prop
  | .message clientSocket payload _ _ _ =>
      byteAt payload 0 = 4 ∧ payload.length = 2 ∧ fd ∈ otherSockets s.table clientSocket
  | _ => False

instance (fd : Nat) (s : ServerState) :
    (action : Action) → Decidable (BroadcastsNothing fd s action)
  | .message _ _ _ _ _ => inferInstanceAs (Decidable (_ ∧ _))
  | .accept _ => inferInstanceAs (Decidable False)
  | .close _ _ _ _ => inferInstanceAs (Decidable False)

theorem sends_step_message {s s' : ServerState} {clientSocket uninit : Nat}
    {payload dataBuffer : List UInt8} {heap : Heap} {output : List Event}
    (h : serverStep s (.message clientSocket payload dataBuffer uninit heap) = some (output, s')) :
    Fits payload ∧ (∀ event ∈ (handleMessage s.table (received payload dataBuffer) clientSocket
        payload.length heap).2, event.Defined) ∧
      sends output = sends (handleMessage s.table (received payload dataBuffer) clientSocket
        payload.length heap).2 := by
  obtain ⟨-, -, hne, hfit, -, houtput, hdefined, -⟩ := serverStep_message h
  refine ⟨⟨hne, hfit⟩, hdefined, ?_⟩
  rw [houtput, sends_append, sends_printMessage, List.append_nil]
  rfl

theorem outgoing_step {s s' : ServerState} {action : Action} {output : List Event}
    (h : serverStep s action = some (output, s')) (fd : Nat) :
    (∀ send ∈ sends output, Outgoing send.2.1 send.2.2) ∧
      ([] ∈ payloadsTo fd output ↔ BroadcastsNothing fd s action) := by
  rw [mem_payloadsTo]
  cases action with
  | accept clientSocket =>
    obtain ⟨-, rfl, -⟩ := serverStep_accept h
    simp [BroadcastsNothing]
  | close clientSocket dataBuffer uninit heap =>
    obtain ⟨rfl, -⟩ := serverStep_close h
    simp [BroadcastsNothing, sends_readBuffer]
  | message clientSocket payload dataBuffer uninit heap =>
    obtain ⟨hfit, hdefined, hsends⟩ := sends_step_message h
    rw [hsends]
    exact outgoing_handleMessage hfit hdefined fd

theorem streamTo_eq_wire {s last : ServerState} {actions : List Action}
    {moments : List (Moment ServerState Action (List Event))}
    (hrun : run serverStep s actions = some (moments, last)) (fd : Nat) :
    streamTo fd moments = wire (sentTo fd moments) := by
  rw [streamTo, sentTo, wire, List.flatMap_assoc]
  apply List.flatMap_congr
  intro m hm
  exact bytesTo_eq_wire (outgoing_step (run_moments hrun m hm) fd).1

private theorem sentTo_outgoing {s last : ServerState} {actions : List Action}
    {moments : List (Moment ServerState Action (List Event))}
    (hrun : run serverStep s actions = some (moments, last)) (fd : Nat) :
    ∀ payload ∈ sentTo fd moments, Outgoing payload payload.length := by
  intro payload hpayload
  obtain ⟨m, hm, hpayload⟩ := List.mem_flatMap.mp hpayload
  obtain ⟨send, hsend, -, rfl⟩ := mem_payloadsTo.mp hpayload
  have houtgoing := (outgoing_step (run_moments hrun m hm) fd).1 send hsend
  rwa [← houtgoing.length]

private theorem sentTo_fits {s last : ServerState} {actions : List Action}
    {moments : List (Moment ServerState Action (List Event))}
    (hrun : run serverStep s actions = some (moments, last)) (fd : Nat) :
    ∀ payload ∈ sentTo fd moments, payload.length ≤ 1022 ∧ byteAt payload 0 ≠ 3 := by
  intro payload hpayload
  have houtgoing := sentTo_outgoing hrun fd payload hpayload
  exact ⟨houtgoing.fits, houtgoing.flag_ne⟩

theorem sentTo_fits_of_none {s last : ServerState} {actions : List Action}
    {moments : List (Moment ServerState Action (List Event))}
    (hrun : run serverStep s actions = some (moments, last)) {fd : Nat}
    (hnone : ∀ m ∈ moments, ¬BroadcastsNothing fd m.before m.action) :
    ∀ payload ∈ sentTo fd moments, Fits payload ∧ byteAt payload 0 ≠ 3 := by
  intro payload hpayload
  obtain ⟨hfit, hflag⟩ := sentTo_fits hrun fd payload hpayload
  refine ⟨⟨?_, hfit⟩, hflag⟩
  obtain ⟨m, hm, hpayload⟩ := List.mem_flatMap.mp hpayload
  rw [Nat.one_le_iff_ne_zero, ne_eq, List.length_eq_zero_iff]
  rintro rfl
  exact hnone m hm ((outgoing_step (run_moments hrun m hm) fd).2.mp hpayload)

/-- The client without a name broadcasts no text. -/
def broadcastsNothing : List Action :=
  [.accept 4, .message 4 [1, 2, 97, 0] (List.replicate 1024 0) 0 cleanHeap, .accept 5,
    .message 5 [4, 0] (List.replicate 1024 0) 0 cleanHeap]

example : Client.sendBroadcast [] 3 [37, 98, 0] (List.replicate 200 7) = some [[4, 0]] := by
  decide +kernel

def cleanCall : DisplayCall where
  buf := List.replicate 1024 0
  uninit := 0
  stack := ⟨List.replicate 1024 0, List.replicate 100 0⟩

theorem cleanCall_sized : cleanCall.Sized :=
  ⟨List.length_replicate, List.length_replicate, List.length_replicate⟩

/-- The flags of the server's answers to a registration or an unknown handle are never sent: in no
run a client reports that its handle was received or denied, or that there is no such user. It exits
only when it takes the server for terminated. -/
theorem never_answered (s : ServerState) (actions : List Action)
    (moments : List (Moment ServerState Action (List Event))) (last : ServerState)
    (hrun : run serverStep s actions = some (moments, last)) (fd : Nat) (calls : List DisplayCall)
    (hcalls : calls.length = (sentTo fd moments).length) :
    ∀ message ∈ processMsgs calls (streamTo fd moments),
      message.shown ∉ ([some [.handleReceived], some [.handleDenied], some [.userNotFound]] :
        List (Option (List Shown))) ∧
      (message.exits = true ↔ message.shown = some [.serverTerminated]) := by
  intro message hmessage
  rw [streamTo_eq_wire hrun] at hmessage
  rcases mem_processMsgs_wire hcalls (sentTo_fits hrun fd) hmessage with
    ⟨hshown, hexits⟩ | ⟨call, payload, hpayload, hlength, hshown, hexits⟩
  · rw [hshown, hexits]
    decide
  · have hunsent {shown : Shown} (hmissing : ∀ flag ∈ ([4, 5, 6, 11, 12, 13] : List UInt8),
        flag ∉ shownFor shown) : message.shown ≠ some [shown] := by
      intro heq
      have hflag := (sentTo_outgoing hrun fd payload hpayload).flag.resolve_left
        (List.ne_nil_of_length_pos hlength)
      exact hmissing _ hflag (call.mem_shownFor hlength (hshown.symm.trans heq))
    rw [hexits]
    refine ⟨?_, iff_of_false Bool.false_ne_true (hunsent (by simp [shownFor]))⟩
    intro hmem
    simp only [List.mem_cons, List.not_mem_nil, or_false] at hmem
    rcases hmem with hreceived | hdenied | hunknown
    · exact hunsent (by simp [shownFor]) hreceived
    · exact hunsent (by simp [shownFor]) hdenied
    · exact hunsent (by simp [shownFor]) hunknown

theorem never_answered_two :
    ∃ moments last, run serverStep (initialServer cleanHeap) broadcastsNothing =
      some (moments, last) ∧ ∀ message ∈ processMsgs [cleanCall] (streamTo 4 moments),
        message.shown ≠ some [.handleReceived] := by
  obtain ⟨moments, last, hrun, hlength⟩ := exists_run_of serverStep (initialServer cleanHeap)
    broadcastsNothing (fun moments => [cleanCall].length = (sentTo 4 moments).length)
    (by decide +kernel)
  refine ⟨moments, last, hrun, ?_⟩
  intro message hmessage hreceived
  refine (never_answered (initialServer cleanHeap) broadcastsNothing moments last hrun 4 [cleanCall]
    hlength message hmessage).1 ?_
  rw [hreceived]
  exact List.mem_cons_self

end Cpe464.Chat
