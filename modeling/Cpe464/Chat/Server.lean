import Cpe464.Chat.Framing
import Cpe464.Chat.HandleTable

/-!
# The chat server

`processClient` takes one PDU from a client and handles it: a registration, a broadcast, a message
to named clients or a request for the list of handles. A handler is the list of what it does in
order. A step that leaves its arrays is an event like any other, and what follows it in the list
is what the code would do if the memory behind the array were harmless.
-/

namespace Cpe464.Chat

/-- The arrays of 100 bytes that are filled from a message. -/
inductive LocalArray
  | handleName
  | senderHandle
  | recipientHandle
  deriving DecidableEq

/-- On whose behalf the server sends a PDU. -/
inductive Addressee
  | recipient (handle : List UInt8)
  | entry (handle : List UInt8)
  | sender
  deriving DecidableEq

inductive Event
  /-- `count` bytes of the receive buffer are read from `offset` on. -/
  | readBuffer (offset count : Nat)
  | storeArray (array : LocalArray) (offset count : Nat)
  | storeEntry (index allocated : Nat)
  /-- A `strcmp` or `strlen` runs off the handle table. -/
  | overrun
  /-- The null pointer is used as a handle. -/
  | nullHandle
  | sendPDU (addressee : Addressee) (socket : Nat) (payload : List UInt8) (payloadLength : Int)
  deriving DecidableEq

def Event.send? : Event → Option (Nat × List UInt8 × Int)
  | .sendPDU _ socket payload payloadLength => some (socket, payload, payloadLength)
  | _ => none

def sends (events : List Event) : List (Nat × List UInt8 × Int) := events.filterMap Event.send?

/-- `sendPDU(socket, dataBuffer + 2, payloadLength)`. -/
def forward (addressee : Addressee) (socket : Nat) (dataBuffer : List UInt8)
    (payloadLength : Int) : List Event :=
  [.readBuffer 2 payloadLength.toNat,
    .sendPDU addressee socket (slice dataBuffer 2 payloadLength.toNat) payloadLength]

/-- `messageBroadcast`, with the receive buffer in place of `buf`, which points behind its
header. -/
def messageBroadcast (T : HandleTable) (dataBuffer : List UInt8) (senderSocket : Nat)
    (messageLen : Int) : List Event :=
  T.entries.flatMap fun e =>
    if e.socketNumber.toNat ≠ senderSocket then
      forward (.entry (cString e.handleName)) e.socketNumber.toNat dataBuffer messageLen
    else []

/-- What `messageSend` does for one recipient, whose length byte is at `readerLocation`. -/
def sendRecipient (T : HandleTable) (buf : List UInt8) (messageLen : Int) (readerLocation : Nat) :
    List Event :=
  let recipientHandleLen := (byteAt buf readerLocation).toNat
  let handleLocation := (readerLocation + 1) % 256
  let recipientHandle := slice buf handleLocation recipientHandleLen
  [.readBuffer readerLocation 1, .readBuffer handleLocation recipientHandleLen,
      .storeArray .recipientHandle 0 recipientHandleLen,
      .storeArray .recipientHandle recipientHandleLen 1] ++
    match getSocket T (recipientHandle ++ [0]) with
    | none => [.overrun]
    | some recipientSocket =>
        forward (.recipient (cString recipientHandle)) recipientSocket.toNat buf messageLen

/-- Where the reader stands behind the recipient at `readerLocation`; the reader is a `uint8_t`. -/
def nextLocation (buf : List UInt8) (readerLocation : Nat) : Nat :=
  ((readerLocation + 1) % 256 + (byteAt buf readerLocation).toNat) % 256

/-- The loop of `messageSend` over the next `n` recipients. -/
def sendRecipients (T : HandleTable) (buf : List UInt8) (messageLen : Int) :
    Nat → Nat → List Event
  | 0, _ => []
  | n + 1, readerLocation =>
      sendRecipient T buf messageLen readerLocation ++
        sendRecipients T buf messageLen n (nextLocation buf readerLocation)

/-- Where `messageSend` finds the number of recipients, a `uint8_t`. -/
def handleListStart (buf : List UInt8) : Nat := (4 + (byteAt buf 3).toNat) % 256

def numRecipients (buf : List UInt8) : Nat := (byteAt buf (handleListStart buf)).toNat

def messageSend (T : HandleTable) (buf : List UInt8) (messageLen : Int) : List Event :=
  let senderHandleLen := (byteAt buf 3).toNat
  [.readBuffer 3 1, .readBuffer 4 senderHandleLen, .storeArray .senderHandle 0 senderHandleLen,
      .storeArray .senderHandle senderHandleLen 1, .readBuffer (handleListStart buf) 1] ++
    sendRecipients T buf messageLen (numRecipients buf) ((handleListStart buf + 1) % 256)

/-- What `listSend` sends for one entry. -/
def listEntry (T : HandleTable) (clientSocket : Nat) (e : HandleTableEntry) : List Event :=
  match getHandle T e.socketNumber with
  | none => [.nullHandle]
  | some handle =>
    match strlen handle with
    | none => [.overrun]
    | some n =>
        [.sendPDU .sender clientSocket (12 :: UInt8.ofNat n :: handle.take (n % 256))
          ((n % 256 : Nat) + 2)]

def listSend (T : HandleTable) (clientSocket : Nat) : List Event :=
  [.sendPDU .sender clientSocket (11 :: toLE 4 (htonl T.entryCount)) 5] ++
    T.entries.flatMap (listEntry T clientSocket) ++ [.sendPDU .sender clientSocket [13] 1]

/-- The message that closes a registration prints the handle that `get_handle` finds for the client,
up to its zero byte. -/
def printRegistered (T : HandleTable) (clientSocket : Nat) : List Event :=
  match getHandle T (UInt16.ofNat clientSocket) with
  | none => [.nullHandle]
  | some handle => if 0 ∈ handle then [] else [.overrun]

/-- The first case of the switch: `add_entry` with the bytes of the message. -/
def register (T : HandleTable) (dataBuffer : List UInt8) (clientSocket : Nat) (heap : Heap) :
    HandleTable × List Event :=
  let newHandleName := dataBuffer.drop 4
  let newHandleSize := (byteAt dataBuffer 3).toNat
  let reads : List Event := [.readBuffer 3 1, .readBuffer 4 (getSocketSpan T newHandleName)]
  let copies : List Event :=
    [.readBuffer 4 newHandleSize, .storeArray .handleName 0 newHandleSize]
  match addEntry (UInt16.ofNat clientSocket) newHandleName newHandleSize T heap with
  | .error .lookup => (T, reads ++ [.overrun])
  | .error .handleName => (T, reads ++ copies)
  | .error (.slot index allocated) => (T, reads ++ copies ++ [.storeEntry index allocated])
  | .ok (ret, T') =>
      (T', reads ++ (if ret = 0 then copies ++ [.storeEntry T.entryCount T.nextSize] else []) ++
        printRegistered T' clientSocket)

/-- The switch of `processClient`. Case 4 has no `break` and goes on into case 5. -/
def handleMessage (T : HandleTable) (dataBuffer : List UInt8) (clientSocket : Nat)
    (messageLen : Int) (heap : Heap) : HandleTable × List Event :=
  match (byteAt dataBuffer 2).toNat with
  | 1 => register T dataBuffer clientSocket heap
  | 4 => (T, messageBroadcast T dataBuffer clientSocket (messageLen - 2) ++
      messageSend T dataBuffer messageLen)
  | 5 => (T, messageSend T dataBuffer messageLen)
  | 6 => (T, messageSend T dataBuffer messageLen)
  | 10 => (T, listSend T clientSocket)
  | _ => (T, [])

/-- The message that `processClient` prints behind the switch; case 1 returns before it. -/
def printMessage (dataBuffer : List UInt8) : List Event :=
  if byteAt dataBuffer 2 = 1 then []
  else [.readBuffer 2 ((cString (dataBuffer.drop 2)).length + 1)]

inductive Status
  | served
  | closed
  | exited
  deriving DecidableEq

structure Processed where
  status : Status
  table : HandleTable
  events : List Event
  rest : List UInt8

/-- `processClient`, with the stream of the client's connection and what its buffer and the
locals of `recvPDU` hold before. -/
def processClient (T : HandleTable) (clientSocket : Nat) (stream dataBuffer : List UInt8)
    (uninit : Nat) (heap : Heap) : Processed :=
  let call := recvPDU stream dataBuffer 1024 uninit
  if call.ret > 0 then
    let handled := handleMessage T call.dataBuffer clientSocket call.ret heap
    { status := .served
      table := handled.1
      events := .readBuffer 2 1 :: handled.2 ++ printMessage call.dataBuffer
      rest := call.rest }
  else if call.ret = 0 then
    { status := .closed, table := T, events := [.readBuffer 2 1], rest := call.rest }
  else
    { status := .exited, table := T, events := [.readBuffer 2 1], rest := call.rest }

/-! ## Received messages -/

/-- The receive buffer once a payload has arrived over what it held before. -/
def received (payload dataBuffer : List UInt8) : List UInt8 :=
  pduHeader payload.length ++ payload ++ dataBuffer.drop (payload.length + 2)

/-- The bytes of the receive buffer that belong to the message. -/
def pdu (payload : List UInt8) : List UInt8 := pduHeader payload.length ++ payload

@[simp] theorem length_pdu (payload : List UInt8) : (pdu payload).length = payload.length + 2 := by
  rw [pdu, List.length_append, length_pduHeader, Nat.add_comm]

theorem received_eq (payload dataBuffer : List UInt8) :
    received payload dataBuffer = pdu payload ++ dataBuffer.drop (payload.length + 2) := rfl

theorem length_received (payload dataBuffer : List UInt8) (hfit : payload.length ≤ 1022)
    (hbuffer : dataBuffer.length = 1024) : (received payload dataBuffer).length = 1024 := by
  rw [received_eq, List.length_append, length_pdu, List.length_drop]
  omega

theorem slice_received (payload dataBuffer : List UInt8) :
    slice (received payload dataBuffer) 2 payload.length = payload := by
  have := slice_middle (pduHeader payload.length) payload (dataBuffer.drop (payload.length + 2))
  rwa [length_pduHeader] at this

/-- A framed payload of 1 to 1022 bytes goes through the switch. -/
theorem processClient_sendPDU (T : HandleTable) (clientSocket : Nat)
    (payload rest dataBuffer : List UInt8) (uninit : Nat) (heap : Heap)
    (hne : 1 ≤ payload.length) (hfit : payload.length ≤ 1022) :
    processClient T clientSocket (sendPDU payload payload.length ++ rest) dataBuffer uninit heap =
      let handled := handleMessage T (received payload dataBuffer) clientSocket payload.length heap
      { status := .served
        table := handled.1
        events := .readBuffer 2 1 :: handled.2 ++ printMessage (received payload dataBuffer)
        rest := rest } := by
  have hcall := recvPDU_sendPDU payload rest dataBuffer 1024 uninit (by decide) (by omega)
  have hpos : (payload.length : Int) > 0 := by omega
  rw [processClient]
  rw [show ((1024 : Nat) : Int) = 1024 from rfl] at hcall
  simp only [hcall, if_pos hpos, received]

theorem byteAt_received (payload dataBuffer : List UInt8) (i : Nat) (h : i < payload.length) :
    byteAt (received payload dataBuffer) (2 + i) = byteAt payload i := by
  rw [received_eq, byteAt_append_left _ _ _ (by rw [length_pdu]; omega), pdu]
  have := byteAt_append_right (pduHeader payload.length) payload i
  rwa [length_pduHeader] at this

/-! ## The switch -/

theorem handleMessage_register {dataBuffer : List UInt8} (h : byteAt dataBuffer 2 = 1)
    (T : HandleTable) (clientSocket : Nat) (messageLen : Int) (heap : Heap) :
    handleMessage T dataBuffer clientSocket messageLen heap =
      register T dataBuffer clientSocket heap := by
  rw [handleMessage, h]
  rfl

theorem handleMessage_broadcast {dataBuffer : List UInt8} (h : byteAt dataBuffer 2 = 4)
    (T : HandleTable) (clientSocket : Nat) (messageLen : Int) (heap : Heap) :
    handleMessage T dataBuffer clientSocket messageLen heap =
      (T, messageBroadcast T dataBuffer clientSocket (messageLen - 2) ++
        messageSend T dataBuffer messageLen) := by
  rw [handleMessage, h]
  rfl

theorem handleMessage_message {dataBuffer : List UInt8}
    (h : byteAt dataBuffer 2 = 5 ∨ byteAt dataBuffer 2 = 6)
    (T : HandleTable) (clientSocket : Nat) (messageLen : Int) (heap : Heap) :
    handleMessage T dataBuffer clientSocket messageLen heap =
      (T, messageSend T dataBuffer messageLen) := by
  rcases h with h | h <;>
    · rw [handleMessage, h]
      rfl

theorem handleMessage_table {dataBuffer : List UInt8} (h : byteAt dataBuffer 2 ≠ 1)
    (T : HandleTable) (clientSocket : Nat) (messageLen : Int) (heap : Heap) :
    (handleMessage T dataBuffer clientSocket messageLen heap).1 = T := by
  unfold handleMessage
  split
  · rename_i hone
    exact absurd (UInt8.toNat.inj hone) h
  all_goals rfl

/-! ## The calls of the handlers -/

@[simp] theorem sends_append (events events' : List Event) :
    sends (events ++ events') = sends events ++ sends events' := List.filterMap_append

@[simp] theorem sends_nil : sends [] = [] := rfl

theorem sends_readBuffer (offset count : Nat) : sends [.readBuffer offset count] = [] := rfl

@[simp] theorem sends_forward (addressee : Addressee) (socket : Nat) (dataBuffer : List UInt8)
    (payloadLength : Int) : sends (forward addressee socket dataBuffer payloadLength) =
      [(socket, slice dataBuffer 2 payloadLength.toNat, payloadLength)] := rfl

theorem sends_messageBroadcast (T : HandleTable) (dataBuffer : List UInt8) (senderSocket : Nat)
    (messageLen : Int) : sends (messageBroadcast T dataBuffer senderSocket messageLen) =
      ((T.entries.map fun e => e.socketNumber.toNat).filter (· ≠ senderSocket)).map fun socket =>
        (socket, slice dataBuffer 2 messageLen.toNat, messageLen) := by
  unfold messageBroadcast
  induction T.entries with
  | nil => rfl
  | cons e es ih =>
    rw [List.flatMap_cons, sends_append, ih]
    by_cases h : e.socketNumber.toNat ≠ senderSocket
    · rw [if_pos h]
      simp [h]
    · rw [if_neg h]
      simp only [ne_eq, not_not] at h
      simp [h]

theorem sends_messageSend (T : HandleTable) (buf : List UInt8) (messageLen : Int) :
    sends (messageSend T buf messageLen) =
      sends (sendRecipients T buf messageLen (numRecipients buf)
        ((handleListStart buf + 1) % 256)) := rfl

private theorem sends_printRegistered (T : HandleTable) (clientSocket : Nat) :
    sends (printRegistered T clientSocket) = [] := by
  unfold printRegistered
  split
  · rfl
  · split <;> rfl

theorem sends_register (T : HandleTable) (dataBuffer : List UInt8) (clientSocket : Nat)
    (heap : Heap) : sends (register T dataBuffer clientSocket heap).2 = [] := by
  cases hadd : addEntry (UInt16.ofNat clientSocket) (dataBuffer.drop 4)
      (byteAt dataBuffer 3).toNat T heap with
  | error fault =>
    cases fault <;>
      · simp only [register, hadd]
        rfl
  | ok out =>
    obtain ⟨ret, T'⟩ := out
    simp only [register, hadd, sends_append]
    have hcopies : sends (if ret = 0 then
        [Event.readBuffer 4 (byteAt dataBuffer 3).toNat,
          .storeArray .handleName 0 (byteAt dataBuffer 3).toNat] ++
            [.storeEntry T.entryCount T.nextSize] else []) = [] := by
      split <;> rfl
    rw [hcopies, sends_printRegistered]
    rfl

theorem sends_printMessage (dataBuffer : List UInt8) : sends (printMessage dataBuffer) = [] := by
  unfold printMessage
  by_cases h : byteAt dataBuffer 2 = 1
  · rw [if_pos h]
    rfl
  · rw [if_neg h]
    rfl

end Cpe464.Chat
