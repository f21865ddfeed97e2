import Cpe464.Chat.Bounds

/-!
# Broadcasts

A broadcast is to reach every other client once, as it was received. The case of the switch for
it hands a length to `messageBroadcast` that is two too small and goes on into the case for
messages to named clients, which takes the text for a list of recipients.
-/

namespace Cpe464.Chat

/-- No store leaves its array. -/
def StoresInArrays (events : List Event) : Prop :=
  ∀ event ∈ events, match event with
    | .storeArray _ offset count => count = 0 ∨ offset + count ≤ 100
    | _ => True

/-- The sockets of the other clients, in the order of the table. -/
def otherSockets (T : HandleTable) (clientSocket : Nat) : List Nat :=
  (T.entries.map fun e => e.socketNumber.toNat).filter (· ≠ clientSocket)

/-- Every other client is sent the payload once and whole, and nothing else is sent. -/
def BroadcastDelivered (T : HandleTable) (clientSocket : Nat) (payload : List UInt8)
    (events : List Event) : Prop :=
  StoresInArrays events ∧
  (sends events).Perm ((otherSockets T clientSocket).map fun socket =>
    (socket, payload, (payload.length : Int)))

theorem storesInArrays_append (events events' : List Event) :
    StoresInArrays (events ++ events') ↔ StoresInArrays events ∧ StoresInArrays events' :=
  List.forall_mem_append

theorem storesInArrays_readBuffer (offset count : Nat) :
    StoresInArrays [.readBuffer offset count] := by
  intro event hevent
  rw [List.mem_singleton.mp hevent]
  trivial

theorem storesInArrays_printMessage (dataBuffer : List UInt8) :
    StoresInArrays (printMessage dataBuffer) := by
  unfold printMessage
  by_cases h : byteAt dataBuffer 2 = 1
  · rw [if_pos h]
    exact List.forall_mem_nil _
  · rw [if_neg h]
    exact storesInArrays_readBuffer _ _

section Forward

variable (T : HandleTable) (buf : List UInt8) (messageLen : Int)

private theorem storesInArrays_forward (addressee : Addressee) (socket : Nat) :
    StoresInArrays (forward addressee socket buf messageLen) := by
  intro event hevent
  rw [forward, List.mem_cons, List.mem_singleton] at hevent
  rcases hevent with rfl | rfl <;> trivial

theorem storesInArrays_sendRecipient_iff (location : Nat) :
    StoresInArrays (sendRecipient T buf messageLen location) ↔
      (byteAt buf location).toNat ≤ 99 := by
  constructor
  · intro hstores
    have hterminator := hstores (.storeArray .recipientHandle (byteAt buf location).toNat 1)
      (by simp [sendRecipient])
    omega
  · intro hshort
    unfold sendRecipient
    rw [storesInArrays_append]
    constructor
    · intro event hevent
      simp only [List.mem_cons, List.not_mem_nil, or_false] at hevent
      rcases hevent with rfl | rfl | rfl | rfl
      · trivial
      · trivial
      · right
        omega
      · right
        omega
    · split
      · intro event hevent
        rw [List.mem_singleton.mp hevent]
        trivial
      · exact storesInArrays_forward buf messageLen _ _

theorem sends_sendRecipient (location : Nat)
    (hshort : (slice buf ((location + 1) % 256) (byteAt buf location).toNat).length ≤ 99) :
    sends (sendRecipient T buf messageLen location) =
      [((T.socketOf (cString (slice buf ((location + 1) % 256)
        (byteAt buf location).toNat))).toNat, slice buf 2 messageLen.toNat, messageLen)] := by
  simp only [sendRecipient, getSocket_copied T _ hshort]
  rfl

theorem storesInArrays_messageSend_iff :
    StoresInArrays (messageSend T buf messageLen) ↔ (byteAt buf 3).toNat ≤ 99 ∧
      StoresInArrays (sendRecipients T buf messageLen (numRecipients buf)
        ((handleListStart buf + 1) % 256)) := by
  rw [messageSend, storesInArrays_append]
  refine and_congr_left fun _ => ?_
  constructor
  · intro hstores
    have hterminator := hstores (.storeArray .senderHandle (byteAt buf 3).toNat 1) (by simp)
    omega
  · intro hshort event hevent
    simp only [List.mem_cons, List.not_mem_nil, or_false] at hevent
    rcases hevent with rfl | rfl | rfl | rfl | rfl
    · trivial
    · trivial
    · right
      omega
    · right
      omega
    · trivial

end Forward

private theorem storesInArrays_messageBroadcast (T : HandleTable) (dataBuffer : List UInt8)
    (senderSocket : Nat) (messageLen : Int) :
    StoresInArrays (messageBroadcast T dataBuffer senderSocket messageLen) := by
  intro event hevent
  obtain ⟨e, -, hevent⟩ := List.mem_flatMap.mp hevent
  by_cases hsocket : e.socketNumber.toNat ≠ senderSocket
  · rw [if_pos hsocket] at hevent
    exact storesInArrays_forward _ _ _ _ event hevent
  · rw [if_neg hsocket] at hevent
    simp at hevent

/-- `messageSend` stores inside its arrays and sends nothing exactly when it finds a sender handle
of at most 99 bytes and no recipients behind it. -/
private theorem messageSend_silent_iff (T : HandleTable) (buf : List UInt8) (messageLen : Int) :
    StoresInArrays (messageSend T buf messageLen) ∧ sends (messageSend T buf messageLen) = [] ↔
      (byteAt buf 3).toNat ≤ 99 ∧ byteAt buf (4 + (byteAt buf 3).toNat) = 0 := by
  have hstart (hlen : (byteAt buf 3).toNat ≤ 99) :
      handleListStart buf = 4 + (byteAt buf 3).toNat := by
    rw [handleListStart]
    omega
  rw [storesInArrays_messageSend_iff, sends_messageSend]
  constructor
  · intro h
    obtain ⟨⟨hlen, hstores⟩, hsends⟩ := h
    refine ⟨hlen, ?_⟩
    rw [← hstart hlen]
    cases hcount : numRecipients buf with
    | zero => exact UInt8.toNat.inj hcount
    | succ n =>
      rw [hcount, sendRecipients, storesInArrays_append, storesInArrays_sendRecipient_iff]
        at hstores
      rw [hcount, sendRecipients, sends_append, sends_sendRecipient T buf messageLen _
        (Nat.le_trans (length_slice_le _ _ _) hstores.1)] at hsends
      exact absurd hsends (List.cons_ne_nil _ _)
  · intro h
    obtain ⟨hlen, hzero⟩ := h
    have hcount : numRecipients buf = 0 := by
      rw [numRecipients, hstart hlen, hzero]
      rfl
    rw [hcount]
    exact ⟨⟨hlen, List.forall_mem_nil _⟩, rfl⟩

private theorem clipped_mem_sends (T : HandleTable) (clientSocket : Nat) (dataBuffer : List UInt8)
    (messageLen : Int) {e : HandleTableEntry} (he : e ∈ T.entries)
    (hother : e.socketNumber.toNat ≠ clientSocket) :
    (e.socketNumber.toNat, slice dataBuffer 2 (messageLen - 2).toNat, messageLen - 2) ∈
      sends (messageBroadcast T dataBuffer clientSocket (messageLen - 2)) := by
  rw [sends_messageBroadcast]
  refine List.mem_map.mpr ⟨e.socketNumber.toNat, ?_, rfl⟩
  rw [List.mem_filter]
  exact ⟨List.mem_map.mpr ⟨e, he, rfl⟩, by simpa using hother⟩

private theorem otherSockets_eq_nil_iff (T : HandleTable) (clientSocket : Nat) :
    otherSockets T clientSocket = [] ↔
      ∀ e ∈ T.entries, e.socketNumber.toNat = clientSocket := by
  simp [otherSockets, List.filter_eq_nil_iff]

private theorem processClient_broadcast (T : HandleTable) (clientSocket : Nat)
    (payload rest dataBuffer : List UInt8) (uninit : Nat) (heap : Heap)
    (hflag : byteAt payload 0 = 4) (hlow : 2 ≤ payload.length) (hfit : payload.length ≤ 1022) :
    (processClient T clientSocket (sendPDU payload payload.length ++ rest) dataBuffer uninit
        heap).events =
      [.readBuffer 2 1] ++
        (messageBroadcast T (received payload dataBuffer) clientSocket (payload.length - 2) ++
          messageSend T (received payload dataBuffer) payload.length) ++
        printMessage (received payload dataBuffer) := by
  have hbyte : byteAt (received payload dataBuffer) 2 = 4 := by
    rw [← hflag]
    exact byteAt_received payload dataBuffer 0 (by omega)
  rw [processClient_sendPDU T clientSocket payload rest dataBuffer uninit heap (by omega) hfit,
    handleMessage_broadcast hbyte]
  rfl

private theorem not_broadcastDelivered_of_other (T : HandleTable) (clientSocket : Nat)
    (payload rest dataBuffer : List UInt8) (uninit : Nat) (heap : Heap)
    (hflag : byteAt payload 0 = 4) (hlow : 2 ≤ payload.length) (hfit : payload.length ≤ 1022)
    {e : HandleTableEntry} (he : e ∈ T.entries) (hother : e.socketNumber.toNat ≠ clientSocket) :
    ¬BroadcastDelivered T clientSocket payload (processClient T clientSocket
      (sendPDU payload payload.length ++ rest) dataBuffer uninit heap).events := by
  intro h
  have hperm := h.2
  rw [processClient_broadcast T clientSocket payload rest dataBuffer uninit heap hflag hlow hfit,
    sends_append, sends_append, sends_append] at hperm
  have hmem := hperm.subset (List.mem_append_left _ (List.mem_append_right _
    (List.mem_append_left _ (clipped_mem_sends T clientSocket (received payload dataBuffer)
      payload.length he hother))))
  obtain ⟨socket, -, heq⟩ := List.mem_map.mp hmem
  have : (payload.length : Int) = payload.length - 2 := congrArg (·.2.2) heq
  omega

/-- A broadcast is delivered as it should be only by a client that is alone in the table, and only
when the byte behind its sender handle, which is taken for a number of recipients, is zero. -/
theorem processClient_broadcastDelivered_iff (T : HandleTable) (clientSocket : Nat)
    (payload rest dataBuffer : List UInt8) (uninit : Nat) (heap : Heap)
    (hflag : byteAt payload 0 = 4) (hlow : 2 ≤ payload.length) (hfit : payload.length ≤ 1022) :
    BroadcastDelivered T clientSocket payload (processClient T clientSocket
        (sendPDU payload payload.length ++ rest) dataBuffer uninit heap).events ↔
      (∀ e ∈ T.entries, e.socketNumber.toNat = clientSocket) ∧
      (byteAt payload 1).toNat ≤ 99 ∧
      byteAt (received payload dataBuffer) (4 + (byteAt payload 1).toNat) = 0 := by
  have hsender : byteAt (received payload dataBuffer) 3 = byteAt payload 1 :=
    byteAt_received payload dataBuffer 1 (by omega)
  have hsilent := messageSend_silent_iff T (received payload dataBuffer) payload.length
  rw [hsender] at hsilent
  rw [← hsilent]
  constructor
  · intro h
    have halone : ∀ e ∈ T.entries, e.socketNumber.toNat = clientSocket := by
      intro e he
      by_contra hother
      exact not_broadcastDelivered_of_other T clientSocket payload rest dataBuffer uninit heap
        hflag hlow hfit he hother h
    obtain ⟨hstores, hperm⟩ := h
    rw [processClient_broadcast T clientSocket payload rest dataBuffer uninit heap hflag hlow hfit]
      at hstores hperm
    rw [(otherSockets_eq_nil_iff T clientSocket).mpr halone, List.map_nil, List.perm_nil,
      sends_append, sends_append, sends_append] at hperm
    simp only [List.append_eq_nil_iff] at hperm
    simp only [storesInArrays_append] at hstores
    exact ⟨halone, hstores.1.2.2, hperm.1.2.2⟩
  · intro h
    obtain ⟨halone, hstores, hsend⟩ := h
    have hnone := (otherSockets_eq_nil_iff T clientSocket).mpr halone
    have hbroadcast : sends (messageBroadcast T (received payload dataBuffer) clientSocket
        (payload.length - 2)) = [] := by
      rw [sends_messageBroadcast]
      exact List.map_eq_nil_iff.mpr hnone
    unfold BroadcastDelivered
    rw [processClient_broadcast T clientSocket payload rest dataBuffer uninit heap hflag hlow hfit]
    simp only [storesInArrays_append, sends_append]
    refine ⟨⟨⟨storesInArrays_readBuffer _ _, storesInArrays_messageBroadcast _ _ _ _, hstores⟩,
      storesInArrays_printMessage _⟩, ?_⟩
    rw [hbroadcast, hsend, hnone, sends_printMessage, sends_readBuffer]
    exact List.Perm.refl _

/-- Nobody but `a` has registered. -/
def soleClient : HandleTable where
  handleTableEntries := twoClients.handleTableEntries.take 1 ++ [dirtyHeap.grown 1]
  entryCount := 1
  tableSize := 2
  allocated := rfl
  entryCount_le := Nat.le_succ 1
  tableSize_lt := twoClients.tableSize_lt

theorem processClient_broadcastDelivered_alone :
    BroadcastDelivered soleClient 4 [4, 1, 97, 0] (processClient soleClient 4
      (sendPDU [4, 1, 97, 0] 4) (List.replicate 1024 7) 0 dirtyHeap).events :=
  (processClient_broadcastDelivered_iff soleClient 4 [4, 1, 97, 0] []
    (List.replicate 1024 7) 0 dirtyHeap rfl (by decide) (by decide)).mpr (by decide)

/-- `a` broadcasts `hi` to `b`. -/
theorem broadcast_clipped :
    ¬BroadcastDelivered twoClients 4 [4, 1, 97, 104, 105, 0] (processClient twoClients 4
      (sendPDU [4, 1, 97, 104, 105, 0] 6) (List.replicate 1024 7) 0 dirtyHeap).events :=
  not_broadcastDelivered_of_other twoClients 4 [4, 1, 97, 104, 105, 0] []
    (List.replicate 1024 7) 0 dirtyHeap rfl (by decide) (by decide)
    (show newEntry 5 [98, 0] dirtyHeap (by decide) ∈ twoClients.entries by
      simp [twoClients, HandleTable.entries]) (by decide)

end Cpe464.Chat
