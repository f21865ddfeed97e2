import Cpe464.Chat.Server

/-!
# Memory bounds of the message handlers

The lengths and counts in a message come from the client. `SafeMessage` is what they have to
satisfy for the handling of the message to stay inside the received bytes and the arrays of the
server, and it is exactly that: every other message leads out of bounds.
-/

namespace Cpe464.Chat

/-- One step stays inside the `2 + messageLen` received bytes and the arrays it fills, uses no null
pointer, and sends between 1 and 1022 bytes. -/
def Event.InBounds (messageLen : Nat) : Event → Prop
  | .readBuffer offset count => count = 0 ∨ offset + count ≤ 2 + messageLen
  | .storeArray _ offset count => count = 0 ∨ offset + count ≤ 100
  | .storeEntry index allocated => index < allocated
  | .overrun => False
  | .nullHandle => False
  | .sendPDU _ _ _ payloadLength => 1 ≤ payloadLength ∧ payloadLength ≤ 1022

instance (messageLen : Nat) : (event : Event) → Decidable (event.InBounds messageLen)
  | .readBuffer _ _ => inferInstanceAs (Decidable (_ ∨ _))
  | .storeArray _ _ _ => inferInstanceAs (Decidable (_ ∨ _))
  | .storeEntry _ _ => inferInstanceAs (Decidable (_ < _))
  | .overrun => inferInstanceAs (Decidable False)
  | .nullHandle => inferInstanceAs (Decidable False)
  | .sendPDU _ _ _ _ => inferInstanceAs (Decidable (_ ∧ _))

def StaysInBounds (messageLen : Nat) (events : List Event) : Prop :=
  ∀ event ∈ events, event.InBounds messageLen

instance (messageLen : Nat) (events : List Event) : Decidable (StaysInBounds messageLen events) :=
  inferInstanceAs (Decidable (∀ _ ∈ _, _))

/-- From `readerLocation` on the bytes hold `n` handles of at most 99 bytes, each behind its
length. The location wraps around at 256, as the reader of `messageSend` does. -/
def HoldsHandles (bytes : List UInt8) : Nat → Nat → Prop
  | 0, _ => True
  | n + 1, readerLocation =>
      readerLocation < bytes.length ∧ (byteAt bytes readerLocation).toNat ≤ 99 ∧
      (byteAt bytes readerLocation = 0 ∨
        (readerLocation + 1) % 256 + (byteAt bytes readerLocation).toNat ≤ bytes.length) ∧
      HoldsHandles bytes n (nextLocation bytes readerLocation)

instance decidableHoldsHandles (bytes : List UInt8) :
    (n readerLocation : Nat) → Decidable (HoldsHandles bytes n readerLocation)
  | 0, _ => isTrue trivial
  | n + 1, readerLocation =>
      have := decidableHoldsHandles bytes n (nextLocation bytes readerLocation)
      inferInstanceAs (Decidable (_ ∧ _ ∧ _ ∧ _))

/-- The message has a sender handle of at most 99 bytes, a count of recipients and their
handles. -/
def HoldsMessage (payload : List UInt8) : Prop :=
  (byteAt payload 1).toNat ≤ 99 ∧ (byteAt payload 1).toNat + 3 ≤ payload.length ∧
  HoldsHandles (pdu payload) (byteAt payload ((byteAt payload 1).toNat + 2)).toNat
    ((byteAt payload 1).toNat + 5)

instance (payload : List UInt8) : Decidable (HoldsMessage payload) :=
  inferInstanceAs (Decidable (_ ∧ _ ∧ _))

/-- The memory that `get_handle` finds for a client once its new name is stored. -/
def registeredHandle (T : HandleTable) (clientSocket : UInt16) (name : List UInt8) (heap : Heap) :
    Option (List UInt8) :=
  getHandleFrom clientSocket (T.entryCount + 1) ((T.nextEntries heap).set T.entryCount
    (newEntry clientSocket (name.take 100) heap (List.length_take_le 100 name)))

/-- The name in a registration ends inside the message for every comparison with the table. If it
is new it lies in the message, fits the name field and there is room for it. The name that is
printed in the end, the first one of the client, has an end inside the table. -/
def SafeRegistration (T : HandleTable) (clientSocket : Nat) (payload : List UInt8) (heap : Heap) :
    Prop :=
  2 ≤ payload.length ∧
  match getSocket T (payload.drop 2) with
  | none => False
  | some found =>
      if found = 0 then
        (byteAt payload 1).toNat ≤ 100 ∧ (byteAt payload 1).toNat + 2 ≤ payload.length ∧
          T.HasRoom ∧ 0 ∈ (registeredHandle T (UInt16.ofNat clientSocket)
            (slice payload 2 (byteAt payload 1).toNat) heap).getD []
      else
        0 ∈ (getHandle T (UInt16.ofNat clientSocket)).getD []

/-- Every stored name that `listSend` copies has an end. -/
def ListableNames (T : HandleTable) : Prop :=
  ∀ e ∈ T.entries, 0 ∈ (getHandle T e.socketNumber).getD []

def SafeMessage (T : HandleTable) (clientSocket : Nat) (payload : List UInt8) (heap : Heap) :
    Prop :=
  match (byteAt payload 0).toNat with
  | 1 => SafeRegistration T clientSocket payload heap
  | 4 => HoldsMessage payload
  | 5 => HoldsMessage payload
  | 6 => HoldsMessage payload
  | 10 => ListableNames T
  | _ => True

private theorem staysInBounds_append (messageLen : Nat) (events events' : List Event) :
    StaysInBounds messageLen (events ++ events') ↔
      StaysInBounds messageLen events ∧ StaysInBounds messageLen events' :=
  List.forall_mem_append

private theorem staysInBounds_cons (messageLen : Nat) (event : Event) (events : List Event) :
    StaysInBounds messageLen (event :: events) ↔
      event.InBounds messageLen ∧ StaysInBounds messageLen events :=
  List.forall_mem_cons

private theorem staysInBounds_nil (messageLen : Nat) : StaysInBounds messageLen [] :=
  List.forall_mem_nil _

private theorem staysInBounds_forward (messageLen : Nat) (addressee : Addressee) (socket : Nat)
    (dataBuffer : List UInt8) (payloadLength : Int) (hpos : 1 ≤ payloadLength)
    (hle : payloadLength ≤ messageLen) (hfit : messageLen ≤ 1022) :
    StaysInBounds messageLen (forward addressee socket dataBuffer payloadLength) := by
  rw [forward, staysInBounds_cons, staysInBounds_cons]
  refine ⟨?_, ?_, staysInBounds_nil _⟩
  · right
    omega
  · exact ⟨hpos, by omega⟩

/-! ## `messageSend` and `messageBroadcast` -/

theorem getSocket_copied (T : HandleTable) (handle : List UInt8) (h : handle.length ≤ 99) :
    getSocket T (handle ++ [0]) = some (T.socketOf (cString handle)) := by
  have hlen : (cString handle).length < 100 :=
    Nat.lt_of_le_of_lt (length_cString_le handle) (by omega)
  apply getSocket_eq_socketOf T _ hlen
  by_cases hz : 0 ∈ handle
  · exact IsString.append ⟨hz, rfl⟩ _
  · rw [cString_of_notMem hz]
    exact isString_append_zero hz []

private theorem nextLocation_append (bytes after : List UInt8) (readerLocation : Nat)
    (h : readerLocation < bytes.length) :
    nextLocation (bytes ++ after) readerLocation = nextLocation bytes readerLocation := by
  rw [nextLocation, byteAt_append_left _ _ _ h, nextLocation]

private theorem staysInBounds_sendRecipient (T : HandleTable) (payload after : List UInt8)
    (readerLocation : Nat) (hne : 1 ≤ payload.length) (hfit : payload.length ≤ 1022) :
    StaysInBounds payload.length
        (sendRecipient T (pdu payload ++ after) payload.length readerLocation) ↔
      readerLocation < (pdu payload).length ∧ (byteAt (pdu payload) readerLocation).toNat ≤ 99 ∧
      (byteAt (pdu payload) readerLocation = 0 ∨
        (readerLocation + 1) % 256 + (byteAt (pdu payload) readerLocation).toNat ≤
          (pdu payload).length) := by
  unfold sendRecipient
  simp only [staysInBounds_append, staysInBounds_cons, staysInBounds_nil, Event.InBounds,
    and_true, length_pdu]
  constructor
  · intro h
    obtain ⟨⟨hreader, hcopy, -, hterminator⟩, -⟩ := h
    have hlt : readerLocation < (pdu payload).length := by
      rw [length_pdu]
      omega
    rw [byteAt_append_left _ _ _ hlt] at hcopy hterminator
    refine ⟨by omega, by omega, ?_⟩
    rcases hcopy with hzero | hcopy
    · left
      exact UInt8.toNat.inj hzero
    · right
      omega
  · intro h
    obtain ⟨hreader, hlen, hcopy⟩ := h
    have hlt : readerLocation < (pdu payload).length := by
      rw [length_pdu]
      exact hreader
    rw [byteAt_append_left _ _ _ hlt]
    refine ⟨⟨by omega, ?_, by omega, by omega⟩, ?_⟩
    · rcases hcopy with hzero | hcopy
      · left
        rw [hzero]
        rfl
      · right
        omega
    · rw [getSocket_copied]
      · exact staysInBounds_forward _ _ _ _ _ (by omega) (by omega) hfit
      · exact Nat.le_trans (length_slice_le _ _ _) hlen

private theorem staysInBounds_sendRecipients (T : HandleTable) (payload after : List UInt8)
    (n readerLocation : Nat) (hne : 1 ≤ payload.length) (hfit : payload.length ≤ 1022) :
    StaysInBounds payload.length
        (sendRecipients T (pdu payload ++ after) payload.length n readerLocation) ↔
      HoldsHandles (pdu payload) n readerLocation := by
  induction n generalizing readerLocation with
  | zero =>
    simp only [sendRecipients, HoldsHandles, iff_true]
    exact staysInBounds_nil _
  | succ n ih =>
    rw [sendRecipients, staysInBounds_append,
      staysInBounds_sendRecipient T payload after readerLocation hne hfit, HoldsHandles]
    constructor
    · intro h
      obtain ⟨⟨hreader, hlen, hcopy⟩, hrest⟩ := h
      rw [nextLocation_append _ _ _ hreader, ih] at hrest
      exact ⟨hreader, hlen, hcopy, hrest⟩
    · intro h
      obtain ⟨hreader, hlen, hcopy, hrest⟩ := h
      rw [nextLocation_append _ _ _ hreader, ih]
      exact ⟨⟨hreader, hlen, hcopy⟩, hrest⟩

private theorem staysInBounds_messageSend (T : HandleTable) (payload dataBuffer : List UInt8)
    (hne : 1 ≤ payload.length) (hfit : payload.length ≤ 1022) :
    StaysInBounds payload.length
        (messageSend T (received payload dataBuffer) payload.length) ↔
      HoldsMessage payload := by
  unfold messageSend
  simp only [staysInBounds_append, staysInBounds_cons, staysInBounds_nil, Event.InBounds,
    and_true]
  rw [HoldsMessage]
  by_cases hshort : payload.length < 2
  · constructor
    · intro h
      omega
    · intro h
      omega
  · have hsender : byteAt (received payload dataBuffer) 3 = byteAt payload 1 :=
      byteAt_received payload dataBuffer 1 (by omega)
    unfold numRecipients handleListStart
    rw [hsender]
    by_cases hcount : (byteAt payload 1).toNat + 3 ≤ payload.length ∧
        (byteAt payload 1).toNat ≤ 99
    · have hstart : (4 + (byteAt payload 1).toNat) % 256 = 2 + ((byteAt payload 1).toNat + 2) := by
        omega
      have hnumber := byteAt_received payload dataBuffer ((byteAt payload 1).toNat + 2) (by omega)
      have hreader : (2 + ((byteAt payload 1).toNat + 2) + 1) % 256 =
          (byteAt payload 1).toNat + 5 := by omega
      rw [hstart, hnumber, hreader, received_eq,
        staysInBounds_sendRecipients T payload _ _ _ hne hfit]
      constructor
      · intro h
        exact ⟨hcount.2, hcount.1, h.2⟩
      · intro h
        exact ⟨⟨by omega, by omega, by omega, by omega, by omega⟩, h.2.2⟩
    · constructor
      · intro h
        omega
      · intro h
        exact absurd ⟨h.2.1, h.1⟩ hcount

private theorem staysInBounds_messageBroadcast (T : HandleTable) (dataBuffer : List UInt8)
    (senderSocket messageLen : Nat) (hlow : 3 ≤ messageLen) (hfit : messageLen ≤ 1022) :
    StaysInBounds messageLen
      (messageBroadcast T dataBuffer senderSocket ((messageLen : Int) - 2)) := by
  intro event hevent
  obtain ⟨e, -, hevent⟩ := List.mem_flatMap.mp hevent
  by_cases hsocket : e.socketNumber.toNat ≠ senderSocket
  · rw [if_pos hsocket] at hevent
    exact staysInBounds_forward _ _ _ _ _ (by omega) (by omega) hfit event hevent
  · rw [if_neg hsocket] at hevent
    simp at hevent

/-! ## Registration and listing -/

private theorem drop_received (payload dataBuffer : List UInt8) (hlow : 2 ≤ payload.length) :
    (received payload dataBuffer).drop 4 =
      payload.drop 2 ++ dataBuffer.drop (payload.length + 2) := by
  rw [received_eq, List.drop_append_of_le_length (by rw [length_pdu]; omega), pdu,
    List.drop_append, length_pduHeader, List.drop_of_length_le (by simp), List.nil_append]

private theorem getSocketSpan_inBounds (T : HandleTable) (payload dataBuffer : List UInt8)
    (hlow : 2 ≤ payload.length) {found : UInt16}
    (hfound : getSocket T ((received payload dataBuffer).drop 4) = some found) :
    getSocket T (payload.drop 2) = some found ↔
      getSocketSpan T ((received payload dataBuffer).drop 4) + 4 ≤ payload.length + 2 := by
  have hdrop := drop_received payload dataBuffer hlow
  have hspan := getSocketSpan_le_iff T (payload.drop 2) (dataBuffer.drop (payload.length + 2))
  rw [← hdrop, hfound, List.length_drop] at hspan
  constructor
  · intro h
    have := hspan.mp (by rw [h]; rfl)
    omega
  · intro h
    obtain ⟨found', hfound'⟩ :=
      Option.isSome_iff_exists.mp (hspan.mpr ⟨rfl, by omega⟩)
    have happ := getSocket_append T hfound' (dataBuffer.drop (payload.length + 2))
    rw [← hdrop, hfound] at happ
    rw [hfound', happ]

private theorem register_reads (T : HandleTable) (dataBuffer : List UInt8) (clientSocket : Nat)
    (heap : Heap) :
    ∃ events, (register T dataBuffer clientSocket heap).2 =
      .readBuffer 3 1 :: .readBuffer 4 (getSocketSpan T (dataBuffer.drop 4)) :: events := by
  cases hadd : addEntry (UInt16.ofNat clientSocket) (dataBuffer.drop 4)
      (byteAt dataBuffer 3).toNat T heap with
  | error fault =>
    cases fault <;>
      · simp only [register, hadd]
        exact ⟨_, rfl⟩
  | ok out =>
    simp only [register, hadd]
    exact ⟨_, rfl⟩

private theorem staysInBounds_printRegistered (T : HandleTable) (clientSocket messageLen : Nat) :
    StaysInBounds messageLen (printRegistered T clientSocket) ↔
      0 ∈ (getHandle T (UInt16.ofNat clientSocket)).getD [] := by
  unfold printRegistered
  cases getHandle T (UInt16.ofNat clientSocket) with
  | none => simp [staysInBounds_cons, Event.InBounds]
  | some handle =>
    by_cases h : 0 ∈ handle
    · simp [h, staysInBounds_nil]
    · simp [h, staysInBounds_cons, Event.InBounds]

private theorem registered_eq {T T' : HandleTable} {name : List UInt8} {size : Nat} {heap : Heap}
    {socket : UInt16} (hnone : getSocket T name = some 0) (hsize : size ≤ name.length)
    (hfield : size ≤ 100) (hroom : T.HasRoom)
    (hadd : addEntry socket name size T heap = .ok (0, T')) :
    getHandle T' socket = registeredHandle T socket (name.take size) heap := by
  have hcount : (T.entryCount + 1) % 65536 = T.entryCount + 1 := by
    have := T.nextSize_lt
    unfold HandleTable.HasRoom at hroom
    omega
  have hwhole : (name.take size).take 100 = name.take size := by
    rw [List.take_take, Nat.min_eq_right hfield]
  simp only [addEntry, hnone, ne_eq, not_true_eq_false, if_false, dif_pos (And.intro hsize hfield),
    dif_pos (show T.entryCount < T.nextSize from hroom), Except.ok.injEq, Prod.mk.injEq,
    true_and] at hadd
  rw [← hadd]
  simp only [getHandle, registeredHandle, hcount, hwhole]

private theorem staysInBounds_register_new (T : HandleTable) (dataBuffer : List UInt8)
    (clientSocket messageLen : Nat) (heap : Heap) (hnone : getSocket T (dataBuffer.drop 4) = some 0)
    (hlow : 2 ≤ messageLen) (hread : getSocketSpan T (dataBuffer.drop 4) + 4 ≤ messageLen + 2)
    (hroomy : (byteAt dataBuffer 3).toNat ≤ (dataBuffer.drop 4).length) :
    StaysInBounds messageLen (register T dataBuffer clientSocket heap).2 ↔
      (byteAt dataBuffer 3).toNat ≤ 100 ∧ (byteAt dataBuffer 3).toNat + 2 ≤ messageLen ∧
        T.HasRoom ∧ 0 ∈ (registeredHandle T (UInt16.ofNat clientSocket)
          (slice dataBuffer 4 (byteAt dataBuffer 3).toNat) heap).getD [] := by
  by_cases hfield : (byteAt dataBuffer 3).toNat ≤ 100
  · by_cases hroom : T.HasRoom
    · obtain ⟨T', hadd, -, -, -⟩ :=
        addEntry_new hnone hroomy hfield hroom (UInt16.ofNat clientSocket) heap
      have hslot : T.entryCount < T.nextSize := hroom
      have hstored := registered_eq hnone hroomy hfield hroom hadd
      simp only [register, hadd, if_true, staysInBounds_append, staysInBounds_printRegistered,
        staysInBounds_cons, staysInBounds_nil, Event.InBounds, and_true, hstored, slice]
      constructor
      · intro h
        exact ⟨hfield, by omega, hroom, h.2⟩
      · intro h
        obtain ⟨-, hcopy, -, hend⟩ := h
        exact ⟨by omega, hend⟩
    · simp only [register, addEntry_slot hnone ⟨hroomy, hfield⟩ hroom, staysInBounds_append,
        staysInBounds_cons, staysInBounds_nil, Event.InBounds]
      constructor
      · intro h
        exact absurd h.2.1 hroom
      · intro h
        exact absurd h.2.2.1 hroom
  · have hsize : ¬((byteAt dataBuffer 3).toNat ≤ (dataBuffer.drop 4).length ∧
        (byteAt dataBuffer 3).toNat ≤ 100) := fun h => hfield h.2
    simp only [register, addEntry_handleName hnone hsize, staysInBounds_append,
      staysInBounds_cons, staysInBounds_nil, Event.InBounds]
    constructor
    · intro h
      omega
    · intro h
      exact absurd h.1 hfield

private theorem staysInBounds_register_found (T : HandleTable) (dataBuffer : List UInt8)
    (clientSocket messageLen : Nat) (heap : Heap) {found : UInt16}
    (hfound : getSocket T (dataBuffer.drop 4) = some found) (hne : found ≠ 0)
    (hlow : 2 ≤ messageLen) (hread : getSocketSpan T (dataBuffer.drop 4) + 4 ≤ messageLen + 2) :
    StaysInBounds messageLen (register T dataBuffer clientSocket heap).2 ↔
      0 ∈ (getHandle T (UInt16.ofNat clientSocket)).getD [] := by
  have hreads : StaysInBounds messageLen
      [.readBuffer 3 1, .readBuffer 4 (getSocketSpan T (dataBuffer.drop 4))] := by
    rw [staysInBounds_cons, staysInBounds_cons]
    exact ⟨.inr (by omega), .inr (by omega), staysInBounds_nil _⟩
  have hcopies : StaysInBounds messageLen [] := staysInBounds_nil _
  simp only [register, addEntry_found hfound hne, staysInBounds_append,
    staysInBounds_printRegistered, hreads, true_and, if_neg (show (2 : Int) ≠ 0 by decide),
    hcopies]

private theorem staysInBounds_register (T : HandleTable) (clientSocket : Nat)
    (payload dataBuffer : List UInt8) (heap : Heap) (hne : 1 ≤ payload.length)
    (hfit : payload.length ≤ 1022) (hbuffer : dataBuffer.length = 1024) :
    StaysInBounds payload.length
        (register T (received payload dataBuffer) clientSocket heap).2 ↔
      SafeRegistration T clientSocket payload heap := by
  have hreads : StaysInBounds payload.length
      (register T (received payload dataBuffer) clientSocket heap).2 →
        2 ≤ payload.length ∧
        getSocketSpan T ((received payload dataBuffer).drop 4) + 4 ≤ payload.length + 2 := by
    intro h
    obtain ⟨events, hevents⟩ := register_reads T (received payload dataBuffer) clientSocket heap
    rw [hevents, staysInBounds_cons, staysInBounds_cons] at h
    simp only [Event.InBounds] at h
    omega
  unfold SafeRegistration
  by_cases hlow : 2 ≤ payload.length
  · have hsize : byteAt (received payload dataBuffer) 3 = byteAt payload 1 :=
      byteAt_received payload dataBuffer 1 (by omega)
    cases hget : getSocket T (payload.drop 2) with
    | none =>
      simp only [and_false, iff_false]
      intro h
      cases hfound : getSocket T ((received payload dataBuffer).drop 4) with
      | none =>
        simp only [register, addEntry_lookup hfound] at h
        exact h .overrun (by simp)
      | some found =>
        have hspan := (getSocketSpan_inBounds T payload dataBuffer hlow hfound).mpr (hreads h).2
        rw [hget] at hspan
        cases hspan
    | some found =>
      have hfound := getSocket_append T hget (dataBuffer.drop (payload.length + 2))
      rw [← drop_received _ _ hlow] at hfound
      have hread := (getSocketSpan_inBounds T payload dataBuffer hlow hfound).mp hget
      simp only [hlow, true_and]
      by_cases hz : found = 0
      · subst hz
        have hroomy : (byteAt (received payload dataBuffer) 3).toNat ≤
            ((received payload dataBuffer).drop 4).length := by
          have := (byteAt (received payload dataBuffer) 3).toNat_lt
          rw [List.length_drop, length_received _ _ hfit hbuffer]
          omega
        rw [if_pos rfl, ← hsize]
        refine (staysInBounds_register_new T _ clientSocket _ heap hfound hlow hread hroomy).trans
          (and_congr_right fun _ => and_congr_right fun hfits => ?_)
        have hname : slice (received payload dataBuffer) 4
            (byteAt (received payload dataBuffer) 3).toNat =
              slice payload 2 (byteAt (received payload dataBuffer) 3).toNat := by
          rw [slice, drop_received _ _ hlow, List.take_append_of_le_length
            (by rw [List.length_drop]; omega), slice]
        rw [hname]
      · rw [if_neg hz]
        exact staysInBounds_register_found T _ clientSocket _ heap hfound hz hlow hread
  · constructor
    · intro h
      exact absurd (hreads h).1 hlow
    · intro h
      exact absurd h.1 hlow

private theorem staysInBounds_listSend (T : HandleTable) (clientSocket messageLen : Nat) :
    StaysInBounds messageLen (listSend T clientSocket) ↔ ListableNames T := by
  unfold listSend
  simp only [staysInBounds_append, staysInBounds_cons, staysInBounds_nil, Event.InBounds]
  constructor
  · intro h e he
    have hentry : StaysInBounds messageLen (listEntry T clientSocket e) := by
      intro event hevent
      exact h.1.2 event (List.mem_flatMap.mpr ⟨e, he, hevent⟩)
    unfold listEntry at hentry
    cases hhandle : getHandle T e.socketNumber with
    | none =>
      rw [hhandle] at hentry
      exact absurd (hentry .nullHandle (by simp)) id
    | some handle =>
      rw [Option.getD_some]
      by_cases hz : 0 ∈ handle
      · exact hz
      · rw [hhandle] at hentry
        simp only [strlen, if_neg hz] at hentry
        exact absurd (hentry .overrun (by simp)) id
  · intro h
    refine ⟨⟨by decide, ?_⟩, by decide⟩
    intro event hevent
    obtain ⟨e, he, hevent⟩ := List.mem_flatMap.mp hevent
    have hz := h e he
    unfold listEntry at hevent
    cases hhandle : getHandle T e.socketNumber with
    | none => exact absurd rfl ((getHandle_eq_none_iff _ _).mp hhandle e he)
    | some handle =>
      rw [hhandle, Option.getD_some] at hz
      simp only [hhandle, strlen, if_pos hz, List.mem_singleton] at hevent
      rw [hevent]
      simp only [Event.InBounds]
      omega

/-! ## Every message -/

private theorem staysInBounds_printMessage (payload dataBuffer : List UInt8)
    (hne : 1 ≤ payload.length) :
    StaysInBounds payload.length (printMessage (received payload dataBuffer)) ↔
      byteAt payload 0 = 1 ∨ 0 ∈ payload := by
  have hflag : byteAt (received payload dataBuffer) 2 = byteAt payload 0 :=
    byteAt_received payload dataBuffer 0 hne
  have hdrop : (received payload dataBuffer).drop 2 =
      payload ++ dataBuffer.drop (payload.length + 2) := by
    rw [received, List.append_assoc, List.drop_left' (length_pduHeader _)]
  rw [printMessage, hflag, hdrop]
  by_cases h : byteAt payload 0 = 1
  · rw [if_pos h]
    simp only [h, true_or, iff_true]
    exact staysInBounds_nil _
  · rw [if_neg h, staysInBounds_cons,
      ← length_cString_append_lt_iff payload (dataBuffer.drop (payload.length + 2))]
    simp only [h, false_or, staysInBounds_nil, and_true, Event.InBounds]
    omega

private theorem staysInBounds_handleMessage (T : HandleTable) (clientSocket : Nat)
    (payload dataBuffer : List UInt8) (heap : Heap) (hne : 1 ≤ payload.length)
    (hfit : payload.length ≤ 1022) (hbuffer : dataBuffer.length = 1024) :
    StaysInBounds payload.length
        (handleMessage T (received payload dataBuffer) clientSocket payload.length heap).2 ↔
      SafeMessage T clientSocket payload heap := by
  have hflag : byteAt (received payload dataBuffer) 2 = byteAt payload 0 :=
    byteAt_received payload dataBuffer 0 hne
  have hsend := staysInBounds_messageSend T payload dataBuffer hne hfit
  rw [handleMessage, hflag, SafeMessage]
  generalize (byteAt payload 0).toNat = flag
  split
  · exact staysInBounds_register T clientSocket payload dataBuffer heap hne hfit hbuffer
  · rw [staysInBounds_append, hsend]
    constructor
    · intro h
      exact h.2
    · intro h
      have hlow : 3 ≤ payload.length := by
        have := h.2.1
        omega
      exact ⟨staysInBounds_messageBroadcast T _ clientSocket payload.length hlow hfit, h⟩
  · exact hsend
  · exact hsend
  · exact staysInBounds_listSend T clientSocket payload.length
  · simp only [staysInBounds_nil]

/-- The handling of a message stays in bounds exactly when the message is safe, whatever lies in
the buffer behind it. With the text that `processClient` prints in the end it
does so exactly when the message also has an end of its own. -/
theorem processClient_staysInBounds_iff (T : HandleTable) (clientSocket : Nat)
    (payload rest dataBuffer : List UInt8) (uninit : Nat) (heap : Heap)
    (hne : 1 ≤ payload.length) (hfit : payload.length ≤ 1022)
    (hbuffer : dataBuffer.length = 1024) :
    (StaysInBounds payload.length
        (handleMessage T (received payload dataBuffer) clientSocket payload.length heap).2 ↔
      SafeMessage T clientSocket payload heap) ∧
    (StaysInBounds payload.length (processClient T clientSocket
        (sendPDU payload payload.length ++ rest) dataBuffer uninit heap).events ↔
      SafeMessage T clientSocket payload heap ∧ (byteAt payload 0 = 1 ∨ 0 ∈ payload)) := by
  have hhandle :=
    staysInBounds_handleMessage T clientSocket payload dataBuffer heap hne hfit hbuffer
  refine ⟨hhandle, ?_⟩
  rw [processClient_sendPDU T clientSocket payload rest dataBuffer uninit heap hne hfit]
  simp only [staysInBounds_append, List.cons_append, staysInBounds_cons]
  rw [hhandle, staysInBounds_printMessage payload dataBuffer hne]
  constructor
  · intro h
    exact h.2
  · intro h
    refine ⟨?_, h⟩
    right
    omega

theorem processClient_staysInBounds_short :
    StaysInBounds 5 (processClient (createTable dirtyHeap) 4
      (sendPDU [5, 1, 97, 0, 0] 5) (List.replicate 1024 7) 0 dirtyHeap).events :=
  (processClient_staysInBounds_iff (createTable dirtyHeap) 4 [5, 1, 97, 0, 0] []
    (List.replicate 1024 7) 0 dirtyHeap (by decide) (by decide) List.length_replicate).2.mpr
    ⟨show HoldsMessage _ by decide, by decide⟩

/-- A sender length of 200 in a message of four bytes. -/
theorem messageSend_leaves_bounds :
    ¬StaysInBounds 4 (handleMessage (createTable dirtyHeap)
      (received [5, 200, 0, 0] (List.replicate 1024 7)) 4 4 dirtyHeap).2 := by
  rw [show (4 : Int) = (([5, 200, 0, 0] : List UInt8).length : Int) from rfl]
  intro h
  have hsafe := (staysInBounds_handleMessage (createTable dirtyHeap) 4 [5, 200, 0, 0]
    (List.replicate 1024 7) dirtyHeap (by decide) (by decide) List.length_replicate).mp h
  revert hsafe
  show ¬HoldsMessage _
  decide

end Cpe464.Chat
