import Cpe464.Chat.Broadcast
import Cpe464.Chat.Client

/-!
# Messages from client to client

The encoder of the client, the walk of the server over the recipients and the walk of the
receiving client over them agree on the layout of a message: for every command line the server
routes each PDU of it to the recipients in order, and the receiver finds the text.
-/

namespace Cpe464.Chat

open Client (Command prefixed encodeHandles messageHeader)

section PrefixedHandle

variable {buf before handle after : List UInt8} (hbuf : buf = before ++ prefixed handle ++ after)
  (hfit : before.length + handle.length + 1 ≤ 255)

include hbuf

theorem byteAt_prefixed (hshort : handle.length ≤ 255) :
    (byteAt buf before.length).toNat = handle.length := by
  have hbyte := byteAt_append_right before (prefixed handle ++ after) 0
  rw [Nat.add_zero, ← List.append_assoc, ← hbuf] at hbyte
  rw [hbyte]
  exact UInt8.toNat_ofNat_of_lt' (show _ < 256 by omega)

theorem slice_prefixed : slice buf (before.length + 1) handle.length = handle := by
  have := slice_middle (before ++ [UInt8.ofNat handle.length]) handle after
  rwa [List.length_append, List.length_singleton, List.append_assoc before,
    List.singleton_append, show UInt8.ofNat handle.length :: handle = prefixed handle from rfl,
    ← hbuf] at this

include hfit

private theorem nextLocation_prefixed :
    nextLocation buf before.length = (before ++ prefixed handle).length := by
  rw [nextLocation, byteAt_prefixed hbuf (by omega), List.length_append, Client.length_prefixed]
  omega

private theorem sendRecipient_prefixed (T : HandleTable) (messageLen : Int)
    (hshort : handle.length ≤ 99) (hzero : 0 ∉ handle) :
    sendRecipient T buf messageLen before.length =
      [.readBuffer before.length 1, .readBuffer (before.length + 1) handle.length,
        .storeArray .recipientHandle 0 handle.length,
        .storeArray .recipientHandle handle.length 1] ++
      forward (.recipient handle) (T.socketOf handle).toNat buf messageLen := by
  have hlocation : (before.length + 1) % 256 = before.length + 1 := by omega
  have hname := isString_append_zero hzero []
  unfold sendRecipient
  simp only [byteAt_prefixed hbuf (by omega), hlocation, slice_prefixed hbuf,
    getSocket_eq_socketOf T hname (by omega), cString_of_notMem hzero]

end PrefixedHandle

private theorem sendRecipients_encodeHandles (T : HandleTable) (messageLen : Int)
    (handles : List (List UInt8)) (buf before after : List UInt8)
    (hbuf : buf = before ++ encodeHandles handles ++ after)
    (hfit : before.length + (encodeHandles handles).length ≤ 255)
    (hshort : ∀ h ∈ handles, h.length ≤ 99) (hzero : ∀ h ∈ handles, 0 ∉ h) :
    StoresInArrays (sendRecipients T buf messageLen handles.length before.length) ∧
    sends (sendRecipients T buf messageLen handles.length before.length) =
      handles.map fun h =>
        ((T.socketOf h).toNat, slice buf 2 messageLen.toNat, messageLen) := by
  induction handles generalizing before with
  | nil => exact ⟨List.forall_mem_nil _, rfl⟩
  | cons h handles ih =>
    rw [Client.encodeHandles_cons, List.length_append, Client.length_prefixed] at hfit
    have hhead : buf = before ++ prefixed h ++ (encodeHandles handles ++ after) := by
      rw [hbuf, Client.encodeHandles_cons]
      simp only [List.append_assoc]
    have hrecipient := sendRecipient_prefixed hhead (by omega) T messageLen
      (hshort h (by simp)) (hzero h (by simp))
    obtain ⟨hstores, hsends⟩ := ih (before ++ prefixed h) (by rw [hhead]; simp)
      (by rw [List.length_append, Client.length_prefixed]; omega)
      (fun h hh => hshort h (by simp [hh])) (fun h hh => hzero h (by simp [hh]))
    have hlen := hshort h (by simp)
    rw [List.length_cons, sendRecipients, nextLocation_prefixed hhead (by omega)]
    constructor
    · rw [storesInArrays_append, storesInArrays_sendRecipient_iff, byteAt_prefixed hhead (by omega)]
      exact ⟨hlen, hstores⟩
    · rw [sends_append, hsends, hrecipient, sends_append, sends_forward]
      rfl

private theorem skipHandles_encodeHandles (handles : List (List UInt8))
    (buf before after : List UInt8) (hbuf : buf = before ++ encodeHandles handles ++ after)
    (hfit : before.length + (encodeHandles handles).length ≤ 255) :
    Client.skipHandles buf handles.length before.length =
      before.length + (encodeHandles handles).length := by
  induction handles generalizing before with
  | nil => rfl
  | cons h handles ih =>
    rw [Client.encodeHandles_cons, List.length_append, Client.length_prefixed] at hfit
    have hhead : buf = before ++ prefixed h ++ (encodeHandles handles ++ after) := by
      rw [hbuf, Client.encodeHandles_cons]
      simp only [List.append_assoc]
    have hnext : (before.length + (h.length + 1)) % 256 = (before ++ prefixed h).length := by
      rw [List.length_append, Client.length_prefixed]
      omega
    rw [List.length_cons, Client.skipHandles, byteAt_prefixed hhead (by omega), hnext,
      ih (before ++ prefixed h) (by rw [hhead]; simp)
        (by rw [List.length_append, Client.length_prefixed]; omega)]
    rw [Client.encodeHandles_cons, List.length_append, List.length_append, Nat.add_assoc]

/-! ## A received message -/

theorem processClient_message (T : HandleTable) (clientSocket : Nat)
    (payload rest dataBuffer : List UInt8) (uninit : Nat) (heap : Heap)
    (hflag : byteAt (received payload dataBuffer) 2 = 5 ∨
      byteAt (received payload dataBuffer) 2 = 6)
    (hne : 1 ≤ payload.length) (hfit : payload.length ≤ 1022) :
    let events := (processClient T clientSocket (sendPDU payload payload.length ++ rest)
      dataBuffer uninit heap).events
    let walk := messageSend T (received payload dataBuffer) payload.length
    (StoresInArrays events ↔ StoresInArrays walk) ∧ sends events = sends walk := by
  intro events walk
  have hevents :
      events = [.readBuffer 2 1] ++ walk ++ printMessage (received payload dataBuffer) := by
    show (processClient T clientSocket _ dataBuffer uninit heap).events = _
    rw [processClient_sendPDU T clientSocket payload rest dataBuffer uninit heap hne hfit,
      handleMessage_message hflag]
    rfl
  rw [hevents]
  constructor
  · rw [storesInArrays_append, storesInArrays_append]
    constructor
    · intro h
      exact h.1.2
    · intro h
      exact ⟨⟨storesInArrays_readBuffer _ _, h⟩, storesInArrays_printMessage _⟩
  · rw [sends_append, sends_append, sends_printMessage, List.append_nil, sends_readBuffer,
      List.nil_append]

section Received

variable (flag : UInt8) (sender fragment dataBuffer : List UInt8) (handles : List (List UInt8))

theorem received_flag :
    byteAt (received (messageHeader flag sender handles ++ fragment) dataBuffer) 2 = flag :=
  byteAt_received _ _ 0 (by simp [messageHeader])

theorem received_handles :
    ∃ before after, received (messageHeader flag sender handles ++ fragment) dataBuffer =
        before ++ encodeHandles handles ++ after ∧ before.length = 5 + sender.length := by
  refine ⟨pduHeader (messageHeader flag sender handles ++ fragment).length ++
      flag :: UInt8.ofNat sender.length :: sender ++ [UInt8.ofNat handles.length],
    fragment ++ dataBuffer.drop
      ((messageHeader flag sender handles ++ fragment).length + 2), ?_, ?_⟩
  · simp [received, messageHeader]
  · simp only [List.length_append, length_pduHeader, List.length_cons, List.length_nil]
    omega

theorem received_senderLen (hsender : sender.length ≤ 255) :
    (byteAt (received (messageHeader flag sender handles ++ fragment) dataBuffer) 3).toNat =
      sender.length := by
  have hsize := Client.length_messageHeader flag sender handles
  have hbyte := byteAt_received (messageHeader flag sender handles ++ fragment) dataBuffer 1
    (by rw [List.length_append]; omega)
  rw [hbyte]
  exact UInt8.toNat_ofNat_of_lt' (show _ < 256 by omega)

private theorem received_handleCount (hcount : handles.length ≤ 255) :
    (byteAt (received (messageHeader flag sender handles ++ fragment) dataBuffer)
      (4 + sender.length)).toNat = handles.length := by
  have hsize := Client.length_messageHeader flag sender handles
  have hbyte := byteAt_received (messageHeader flag sender handles ++ fragment) dataBuffer
    (2 + sender.length) (by rw [List.length_append]; omega)
  have hnumber : byteAt (messageHeader flag sender handles ++ fragment) (2 + sender.length) =
      UInt8.ofNat handles.length := by
    have := byteAt_append_right (flag :: UInt8.ofNat sender.length :: sender)
      (UInt8.ofNat handles.length :: (encodeHandles handles ++ fragment)) 0
    rw [Nat.add_zero, List.length_cons, List.length_cons, Nat.add_comm 2] at *
    simpa [messageHeader, Nat.add_assoc] using this
  rw [show 4 + sender.length = 2 + (2 + sender.length) by omega, hbyte, hnumber]
  exact UInt8.toNat_ofNat_of_lt' (show _ < 256 by omega)

theorem received_handleList (hsender : sender.length ≤ 99) (hcount : handles.length ≤ 255) :
    let buf := received (messageHeader flag sender handles ++ fragment) dataBuffer
    handleListStart buf = 4 + sender.length ∧ numRecipients buf = handles.length ∧
      (handleListStart buf + 1) % 256 = 5 + sender.length := by
  intro buf
  have hstart : handleListStart buf = 4 + sender.length := by
    rw [handleListStart, received_senderLen flag sender fragment dataBuffer handles (by omega)]
    omega
  refine ⟨hstart, ?_, ?_⟩
  · rw [numRecipients, hstart]
    exact received_handleCount flag sender fragment dataBuffer handles hcount
  · rw [hstart]
    omega

theorem messageSend_received (hheader : (messageHeader flag sender handles).length ≤ 198)
    (T : HandleTable) (hsender : sender.length ≤ 99)
    (hshort : ∀ h ∈ handles, h.length ≤ 99) (hzero : ∀ h ∈ handles, 0 ∉ h) :
    let payload := messageHeader flag sender handles ++ fragment
    StoresInArrays (messageSend T (received payload dataBuffer) payload.length) ∧
    sends (messageSend T (received payload dataBuffer) payload.length) =
      handles.map fun h => ((T.socketOf h).toNat, payload, (payload.length : Int)) := by
  intro payload
  have hsize := Client.length_messageHeader flag sender handles
  have hfew := Client.length_le_encodeHandles handles
  have hlen := received_senderLen flag sender fragment dataBuffer handles (by omega)
  obtain ⟨-, hcount, hreader⟩ :=
    received_handleList flag sender fragment dataBuffer handles hsender (by omega)
  obtain ⟨before, after, hbuf, hbefore⟩ :=
    received_handles flag sender fragment dataBuffer handles
  rw [← hbefore] at hreader
  obtain ⟨hstores, hsends⟩ := sendRecipients_encodeHandles T payload.length handles _ before after
    hbuf (by omega) hshort hzero
  have hall := slice_received payload dataBuffer
  rw [Int.toNat_natCast, hall] at hsends
  constructor
  · rw [storesInArrays_messageSend_iff, hlen, hcount, hreader]
    exact ⟨hsender, hstores⟩
  · rw [sends_messageSend, hcount, hreader]
    exact hsends

theorem multicast_received (hheader : (messageHeader flag sender handles).length ≤ 253) :
    (Client.multicast (received (messageHeader flag sender handles ++ fragment)
      dataBuffer)).readerLocation = 2 + (messageHeader flag sender handles).length := by
  have hsize := Client.length_messageHeader flag sender handles
  have hfew := Client.length_le_encodeHandles handles
  obtain ⟨before, after, hbuf, hbefore⟩ :=
    received_handles flag sender fragment dataBuffer handles
  have hstart : (4 + sender.length) % 256 = 4 + sender.length := by omega
  have hreader : (4 + sender.length + 1) % 256 = before.length := by omega
  have hskip := skipHandles_encodeHandles handles _ before after hbuf (by omega)
  simp only [Client.multicast,
    received_senderLen flag sender fragment dataBuffer handles (by omega), hstart,
    received_handleCount flag sender fragment dataBuffer handles (by omega), hreader, hskip]
  omega

end Received

/-! ## From the command line to the receiver -/

/-- Every PDU the client emits for a command line is the header of the command and a piece of the
text. The server sends it, as it received it, once to each recipient of the line in order and to
nobody else, and stays inside its arrays; the reader of the receiving client ends where the text
begins. -/
theorem messageSend_routed (c : Command) (hc : c.WellFormed) (sender text behind buf : List UInt8)
    (hsender : 1 ≤ sender.length ∧ sender.length ≤ 99) (hheader : (c.header sender).length ≤ 198)
    (hline : (c.line text).length ≤ 65535) (hbuf : buf.length = 200) :
    ∃ payloads, Client.messageSend sender (UInt16.ofNat (c.line text).length)
        (c.line text ++ behind) c.mode buf = some payloads ∧
      ∀ payload ∈ payloads, ∃ fragment, payload = c.header sender ++ fragment ∧
        (∀ T clientSocket rest dataBuffer uninit heap,
          let processed := processClient T clientSocket
            (sendPDU payload payload.length ++ rest) dataBuffer uninit heap
          StoresInArrays processed.events ∧
          sends processed.events = c.handles.map fun h =>
            ((T.socketOf h).toNat, payload, (payload.length : Int))) ∧
        (∀ rest dataBuffer uninit,
          let call := recvPDU (sendPDU payload payload.length ++ rest) dataBuffer 1024 uninit
          (Client.multicast call.dataBuffer).readerLocation = 2 + (c.header sender).length ∧
          call.dataBuffer.drop (2 + (c.header sender).length) =
            fragment ++ dataBuffer.drop (payload.length + 2)) := by
  obtain ⟨fragments, hsend, -, hle⟩ :=
    Client.messageSend_command c hc sender text behind buf hheader hline hbuf
  refine ⟨_, hsend, ?_⟩
  intro payload hpayload
  obtain ⟨fragment, hfragment, rfl⟩ := List.mem_map.mp hpayload
  have hfit := hle fragment hfragment
  have hlong : 1 ≤ (c.header sender ++ fragment).length := by
    simp [Command.header, messageHeader]
  refine ⟨fragment, rfl, ?_, ?_⟩
  · intro T clientSocket rest dataBuffer uninit heap
    have hflag := received_flag c.flag sender fragment dataBuffer c.handles
    have hmessage : byteAt (received (c.header sender ++ fragment) dataBuffer) 2 = 5 ∨
        byteAt (received (c.header sender ++ fragment) dataBuffer) 2 = 6 := by
      cases c with
      | message handle => exact .inl hflag
      | multicast handles => exact .inr hflag
    obtain ⟨hstores, hsends⟩ := messageSend_received c.flag sender fragment dataBuffer c.handles
      hheader T hsender.2 hc.short hc.noZero
    obtain ⟨hstores', hsends'⟩ := processClient_message T clientSocket _ rest dataBuffer uninit heap
      hmessage hlong (by omega)
    exact ⟨hstores'.mpr hstores, hsends'.trans hsends⟩
  · intro rest dataBuffer uninit
    have hcall := recvPDU_sendPDU (c.header sender ++ fragment) rest dataBuffer 1024 uninit
      (by decide) (by omega)
    rw [show ((1024 : Nat) : Int) = 1024 from rfl] at hcall
    simp only [hcall]
    constructor
    · exact multicast_received c.flag sender fragment dataBuffer c.handles
        (Nat.le_trans hheader (by decide))
    · rw [← List.append_assoc, List.append_assoc, List.drop_left']
      rw [List.length_append, length_pduHeader]

theorem messageSend_routed_message :
    let c := Command.message [98]
    ∃ payloads, Client.messageSend [97] (UInt16.ofNat (c.line [104, 105, 0]).length)
        (c.line [104, 105, 0] ++ [7, 7]) c.mode (List.replicate 200 7) = some payloads ∧
      ∀ payload ∈ payloads, ∃ fragment, payload = c.header [97] ++ fragment ∧
        (∀ T clientSocket rest dataBuffer uninit heap,
          let processed := processClient T clientSocket
            (sendPDU payload payload.length ++ rest) dataBuffer uninit heap
          StoresInArrays processed.events ∧
          sends processed.events = c.handles.map fun h =>
            ((T.socketOf h).toNat, payload, (payload.length : Int))) ∧
        (∀ rest dataBuffer uninit,
          let call := recvPDU (sendPDU payload payload.length ++ rest) dataBuffer 1024 uninit
          (Client.multicast call.dataBuffer).readerLocation = 2 + (c.header [97]).length ∧
          call.dataBuffer.drop (2 + (c.header [97]).length) =
            fragment ++ dataBuffer.drop (payload.length + 2)) :=
  messageSend_routed (.message [98])
    ⟨by decide, by decide, by decide, by decide, by decide⟩ [97] [104, 105, 0] [7, 7]
    (List.replicate 200 7) (by decide) (by decide) (by decide) List.length_replicate

end Cpe464.Chat
