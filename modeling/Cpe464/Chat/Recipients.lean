import Cpe464.Chat.Delivery
import Cpe464.Chat.Registration
import Cpe464.Chat.Routing

/-!
# The recipients of a message

`messageSend` walks over the records of the recipients with a `uint8_t`. A record that begins at
offset 255 or behind it is looked for modulo 256, among the bytes in front.
-/

namespace Cpe464.Chat

open Client (prefixed encodeHandles messageHeader)

/-- The table has an entry under the name. -/
def HandleTable.Registered (T : HandleTable) (h : List UInt8) : Prop :=
  ∃ e ∈ T.entries, IsString e.handleName h

instance (T : HandleTable) (h : List UInt8) : Decidable (T.Registered h) :=
  inferInstanceAs (Decidable (∃ _ ∈ _, _))

section Walk

variable (T : HandleTable) (buf : List UInt8) (messageLen : Int)

private theorem length_slice_name (hbuf : 510 ≤ buf.length) (location : Nat) :
    (slice buf ((location + 1) % 256) (byteAt buf location).toNat).length =
      (byteAt buf location).toNat := by
  have hbyte := (byteAt buf location).toNat_lt
  apply length_slice
  omega

private theorem storesInArrays_sendRecipients_iff (hbuf : 510 ≤ buf.length) (n location : Nat) :
    StoresInArrays (sendRecipients T buf messageLen n location) ↔
      ∀ name ∈ recipientsFrom buf n location, name.length ≤ 99 := by
  induction n generalizing location with
  | zero =>
    constructor
    · intro _
      exact List.forall_mem_nil _
    · intro _
      exact List.forall_mem_nil _
  | succ n ih =>
    rw [sendRecipients, recipientsFrom, storesInArrays_append, List.forall_mem_cons,
      storesInArrays_sendRecipient_iff, ih, length_slice_name buf hbuf]

private theorem sends_sendRecipients (n location : Nat)
    (hshort : ∀ name ∈ recipientsFrom buf n location, name.length ≤ 99) :
    sends (sendRecipients T buf messageLen n location) =
      (recipientsFrom buf n location).map fun name =>
        ((T.socketOf (cString name)).toNat, slice buf 2 messageLen.toNat, messageLen) := by
  induction n generalizing location with
  | zero => rfl
  | succ n ih =>
    rw [recipientsFrom, List.forall_mem_cons] at hshort
    rw [sendRecipients, recipientsFrom, sends_append, ih _ hshort.2, List.map_cons,
      sends_sendRecipient T buf messageLen location hshort.1]
    rfl

end Walk

/-! ## Records -/

/-- The record of a handle lies at an offset modulo 256: its length and its bytes. -/
def HoldsRecord (buf : List UInt8) (offset : Nat) (handle : List UInt8) : Prop :=
  (byteAt buf (offset % 256)).toNat = handle.length ∧
  slice buf ((offset + 1) % 256) handle.length = handle

instance (buf : List UInt8) (offset : Nat) (handle : List UInt8) :
    Decidable (HoldsRecord buf offset handle) := inferInstanceAs (Decidable (_ ∧ _))

/-- Records that are laid out from `offset` on: those that begin at `start` or behind it lie at
their offsets modulo 256. -/
def HoldsRecordsFrom (start : Nat) (buf : List UInt8) : Nat → List (List UInt8) → Prop
  | _, [] => True
  | offset, handle :: handles =>
      (start ≤ offset → HoldsRecord buf offset handle) ∧
      HoldsRecordsFrom start buf (offset + (handle.length + 1)) handles

instance decidableHoldsRecordsFrom (start : Nat) (buf : List UInt8) : (offset : Nat) →
    (handles : List (List UInt8)) → Decidable (HoldsRecordsFrom start buf offset handles)
  | _, [] => isTrue trivial
  | offset, handle :: handles =>
      have := decidableHoldsRecordsFrom start buf (offset + (handle.length + 1)) handles
      inferInstanceAs (Decidable (_ ∧ _))

/-- Every record that begins at offset 255 or behind it is repeated where the walk looks for it. -/
def RepeatsWrapped (buf : List UInt8) (offset : Nat) (handles : List (List UInt8)) : Prop :=
  HoldsRecordsFrom 255 buf offset handles

instance (buf : List UInt8) (offset : Nat) (handles : List (List UInt8)) :
    Decidable (RepeatsWrapped buf offset handles) :=
  inferInstanceAs (Decidable (HoldsRecordsFrom _ _ _ _))

/-- The walk finds the handles exactly when their records lie at the offsets modulo 256. -/
private theorem recipientsFrom_eq_iff {buf : List UInt8} (hbuf : 510 ≤ buf.length)
    (handles : List (List UInt8)) (offset : Nat) :
    recipientsFrom buf handles.length (offset % 256) = handles ↔
      HoldsRecordsFrom 0 buf offset handles := by
  induction handles generalizing offset with
  | nil => exact iff_of_true rfl trivial
  | cons handle handles ih =>
    have hstart : (offset % 256 + 1) % 256 = (offset + 1) % 256 := by omega
    have hlength := length_slice_name buf hbuf (offset % 256)
    rw [hstart] at hlength
    have hnext (hbyte : (byteAt buf (offset % 256)).toNat = handle.length) :
        nextLocation buf (offset % 256) = (offset + (handle.length + 1)) % 256 := by
      rw [nextLocation, hbyte]
      omega
    rw [List.length_cons, recipientsFrom, List.cons.injEq, HoldsRecordsFrom, hstart]
    constructor
    · intro h
      obtain ⟨hhandle, hrest⟩ := h
      have hbyte : (byteAt buf (offset % 256)).toNat = handle.length := by
        rw [← hlength, hhandle]
      rw [hnext hbyte] at hrest
      refine ⟨fun _ => ⟨hbyte, ?_⟩, (ih _).mp hrest⟩
      rw [← hbyte]
      exact hhandle
    · intro h
      obtain ⟨hrecord, hrest⟩ := h
      obtain ⟨hbyte, hhandle⟩ := hrecord (Nat.zero_le _)
      rw [hnext hbyte, hbyte]
      exact ⟨hhandle, (ih _).mpr hrest⟩

private theorem holdsRecord_prefixed {buf before handle after : List UInt8}
    (hbuf : buf = before ++ prefixed handle ++ after) (hlow : before.length < 255)
    (hshort : handle.length ≤ 255) : HoldsRecord buf before.length handle := by
  have hlocation : before.length % 256 = before.length := by omega
  have hstart : (before.length + 1) % 256 = before.length + 1 := by omega
  rw [HoldsRecord, hlocation, hstart]
  exact ⟨byteAt_prefixed hbuf hshort, slice_prefixed hbuf⟩

/-- Of the records of a message only those at offset 255 or behind it are in question. -/
private theorem holdsRecordsFrom_encodeHandles_iff (handles : List (List UInt8))
    (buf before after : List UInt8) (hbuf : buf = before ++ encodeHandles handles ++ after)
    (hshort : ∀ h ∈ handles, h.length ≤ 99) :
    HoldsRecordsFrom 0 buf before.length handles ↔ RepeatsWrapped buf before.length handles := by
  induction handles generalizing before with
  | nil => exact Iff.rfl
  | cons handle handles ih =>
    rw [List.forall_mem_cons] at hshort
    have hhead : buf = before ++ prefixed handle ++ (encodeHandles handles ++ after) := by
      rw [hbuf, Client.encodeHandles_cons]
      simp only [List.append_assoc]
    have hrest := ih (before ++ prefixed handle) (by rw [hhead]; simp) hshort.2
    rw [List.length_append, Client.length_prefixed] at hrest
    apply and_congr _ hrest
    constructor
    · intro hrecord _
      exact hrecord (Nat.zero_le _)
    · intro hrecord _
      by_cases hlow : before.length < 255
      · exact holdsRecord_prefixed hhead hlow (by omega)
      · exact hrecord (by omega)

/-! ## The walk over a received message -/

section ReceivedMessage

variable {flag : UInt8} {sender text dataBuffer : List UInt8} {handles : List (List UInt8)}
  (hsender : ProperName sender) (hhandles : ∀ h ∈ handles, ProperName h)
  (hcount : handles.length ≤ 255)
  (hfit : (messageHeader flag sender handles ++ text).length ≤ 1022)
  (hbuffer : dataBuffer.length = 1024)

include hsender hfit hbuffer

/-- A message to named clients stays inside the arrays as long as the walk finds names of at most 99
bytes, and is then sent once for each of them. -/
theorem processClient_walk (hflag : flag = 5 ∨ flag = 6) (T : HandleTable) (clientSocket : Nat)
    (rest : List UInt8) (uninit : Nat) (heap : Heap) :
    let payload := messageHeader flag sender handles ++ text
    let names := recipients (received payload dataBuffer)
    let events := (processClient T clientSocket (sendPDU payload payload.length ++ rest)
      dataBuffer uninit heap).events
    (StoresInArrays events ↔ ∀ name ∈ names, name.length ≤ 99) ∧
    ((∀ name ∈ names, name.length ≤ 99) → sends events = names.map fun name =>
      ((T.socketOf (cString name)).toNat, payload, (payload.length : Int))) := by
  intro payload names events
  have hlength := length_received payload dataBuffer hfit hbuffer
  have hbyte : byteAt (received payload dataBuffer) 2 = flag :=
    received_flag flag sender text dataBuffer handles
  have hshort : (byteAt (received payload dataBuffer) 3).toNat ≤ 99 := by
    have := hsender.2.1
    rw [received_senderLen flag sender text dataBuffer handles (by omega)]
    exact this
  have hsize := Client.length_messageHeader flag sender handles
  have hne : 1 ≤ payload.length := by
    rw [List.length_append]
    omega
  obtain ⟨hstores, hsends⟩ := processClient_message T clientSocket payload rest dataBuffer uninit
    heap (by rw [hbyte]; exact hflag) hne hfit
  constructor
  · rw [hstores, storesInArrays_messageSend_iff,
      storesInArrays_sendRecipients_iff _ _ _ (by omega)]
    exact and_iff_right hshort
  · intro hnames
    rw [hsends, sends_messageSend, sends_sendRecipients T _ _ _ _ hnames, Int.toNat_natCast,
      slice_received]
    rfl

include hhandles hcount

theorem recipients_received_iff :
    recipients (received (messageHeader flag sender handles ++ text) dataBuffer) = handles ↔
      RepeatsWrapped (received (messageHeader flag sender handles ++ text) dataBuffer)
        (5 + sender.length) handles := by
  have hlength := length_received _ dataBuffer hfit hbuffer
  obtain ⟨-, hnumber, hreader⟩ :=
    received_handleList flag sender text dataBuffer handles hsender.2.1 hcount
  obtain ⟨before, after, hbuf, hbefore⟩ := received_handles flag sender text dataBuffer handles
  have hstart : 5 + sender.length = (5 + sender.length) % 256 := by
    have := hsender.2.1
    omega
  rw [recipients, hnumber, hreader, hstart, recipientsFrom_eq_iff (by omega), ← hstart, ← hbefore]
  exact holdsRecordsFrom_encodeHandles_iff handles _ before after hbuf
    fun h hh => (hhandles h hh).2.1

end ReceivedMessage

/-- The server finds the listed handles in its receive buffer, and sends the payload once to the
socket of each of them in order and to nobody else. -/
structure RoutedAsListed (T : HandleTable) (buf payload : List UInt8)
    (handles : List (List UInt8)) (events : List Event) : Prop where
  inArrays : StoresInArrays events
  found : recipients buf = handles
  sent : sends events =
    handles.map fun h => ((T.socketOf h).toNat, payload, (payload.length : Int))

/-- A message to named clients is routed as listed exactly when no record begins at offset 255 of
the receive buffer or behind it, except where the bytes modulo 256 happen to repeat it. -/
theorem processClient_routedAsListed_iff (T : HandleTable) (clientSocket : Nat) (flag : UInt8)
    (sender text rest dataBuffer : List UInt8) (handles : List (List UInt8)) (uninit : Nat)
    (heap : Heap) (hflag : flag = 5 ∨ flag = 6) (hsender : ProperName sender)
    (hhandles : ∀ h ∈ handles, ProperName h) (hcount : handles.length ≤ 255)
    (hfit : (messageHeader flag sender handles ++ text).length ≤ 1022)
    (hbuffer : dataBuffer.length = 1024) :
    let payload := messageHeader flag sender handles ++ text
    RoutedAsListed T (received payload dataBuffer) payload handles
        (processClient T clientSocket (sendPDU payload payload.length ++ rest) dataBuffer uninit
          heap).events ↔
      RepeatsWrapped (received payload dataBuffer) (5 + sender.length) handles := by
  intro payload
  obtain ⟨hstores, hsends⟩ := processClient_walk hsender hfit hbuffer hflag T
    clientSocket rest uninit heap
  have hfound : recipients (received payload dataBuffer) = handles ↔ _ :=
    recipients_received_iff hsender hhandles hcount hfit hbuffer
  rw [← hfound]
  constructor
  · intro h
    exact h.found
  · intro h
    have hshort : ∀ name ∈ recipients (received payload dataBuffer), name.length ≤ 99 := by
      rw [h]
      exact fun name hname => (hhandles name hname).2.1
    refine ⟨hstores.mpr hshort, h, ?_⟩
    rw [hsends hshort, show recipients _ = handles from h]
    apply List.map_congr_left
    intro name hname
    rw [cString_of_notMem (hhandles name hname).2.2]

theorem processClient_routedAsListed_hi :
    let payload := messageHeader 6 [97] [[98], [97]] ++ [104, 105, 0]
    RoutedAsListed twoClients (received payload (List.replicate 1024 0)) payload [[98], [97]]
      (processClient twoClients 4 (sendPDU payload payload.length ++ []) (List.replicate 1024 0) 0
        dirtyHeap).events :=
  (processClient_routedAsListed_iff twoClients 4 6 [97] [104, 105, 0] [] (List.replicate 1024 0)
    [[98], [97]] 0 dirtyHeap (by decide) (by decide) (by decide) (by decide) (by decide)
    List.length_replicate).mpr (by decide +kernel)

def fourNames : List (List UInt8) := [97, 98, 99, 100].map (List.replicate 99)

def fourClients : HandleTable where
  handleTableEntries :=
    [newEntry 4 (List.replicate 99 97 ++ [0]) dirtyHeap (by decide),
      newEntry 5 (List.replicate 99 98 ++ [0]) dirtyHeap (by decide),
      newEntry 6 (List.replicate 99 99 ++ [0]) dirtyHeap (by decide),
      newEntry 7 (List.replicate 99 100 ++ [0]) dirtyHeap (by decide)]
  entryCount := 4
  tableSize := 4
  allocated := rfl
  entryCount_le := by decide
  tableSize_lt := by decide

/-- The record of the fourth recipient begins at offset 306 and is looked for at offset 50, inside
the first handle. -/
theorem fourth_recipient_lost :
    let payload := messageHeader 6 [97] fourNames ++ [104, 105, 0]
    (∀ h ∈ fourNames, ProperName h ∧ fourClients.Registered h) ∧
    payload.length ≤ 1022 ∧
    ¬RoutedAsListed fourClients (received payload (List.replicate 1024 0)) payload fourNames
      (processClient fourClients 4 (sendPDU payload payload.length) (List.replicate 1024 0) 0
        dirtyHeap).events := by
  refine ⟨by decide +kernel, by decide +kernel, ?_⟩
  intro h
  have hfound := h.found
  revert hfound
  decide +kernel

end Cpe464.Chat
