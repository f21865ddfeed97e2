import Cpe464.Chat.Broadcast
import Cpe464.Chat.ServerRuns

/-!
# Delivery to the registrants

A PDU for a handle is to go out only on an open connection that registered the handle. The table
knows sockets, not connections, and a connection that ends leaves its entries behind, so this holds
as long as no connection with an entry ends and every named recipient is in the table.
-/

namespace Cpe464.Chat

open Runs

/-- The connection that is open at a descriptor has registered a handle. -/
def ServerState.HasRegistered (s : ServerState) (socket : Nat) (handle : List UInt8) : Prop :=
  ∃ r ∈ s.registrations, s.connections socket = some r.connection ∧ cString r.name = handle

instance (s : ServerState) (socket : Nat) (handle : List UInt8) :
    Decidable (s.HasRegistered socket handle) :=
  inferInstanceAs (Decidable (∃ _ ∈ _, _))

/-- A PDU that is sent for a handle goes to a connection that registered it. -/
def DeliveredToRegistrant (s : ServerState) : Event → Prop
  | .sendPDU (.recipient handle) socket _ _ => s.HasRegistered socket handle
  | .sendPDU (.entry handle) socket _ _ => s.HasRegistered socket handle
  | _ => True

instance (s : ServerState) : (event : Event) → Decidable (DeliveredToRegistrant s event)
  | .sendPDU (.recipient handle) socket _ _ =>
      inferInstanceAs (Decidable (s.HasRegistered socket handle))
  | .sendPDU (.entry handle) socket _ _ =>
      inferInstanceAs (Decidable (s.HasRegistered socket handle))
  | .sendPDU .sender _ _ _ => inferInstanceAs (Decidable True)
  | .readBuffer _ _ => inferInstanceAs (Decidable True)
  | .storeArray _ _ _ => inferInstanceAs (Decidable True)
  | .storeEntry _ _ => inferInstanceAs (Decidable True)
  | .overrun => inferInstanceAs (Decidable True)
  | .nullHandle => inferInstanceAs (Decidable True)

/-- The next `n` recipients of a message from `readerLocation` on. -/
def recipientsFrom (buf : List UInt8) : Nat → Nat → List (List UInt8)
  | 0, _ => []
  | n + 1, readerLocation =>
      slice buf ((readerLocation + 1) % 256) (byteAt buf readerLocation).toNat ::
        recipientsFrom buf n (nextLocation buf readerLocation)

/-- The recipients that `messageSend` finds in the receive buffer. -/
def recipients (buf : List UInt8) : List (List UInt8) :=
  recipientsFrom buf (numRecipients buf) ((handleListStart buf + 1) % 256)

/-- The stored copy of the name is terminated: by a zero byte of its own or by fresh memory. -/
def TerminatedName (name : List UInt8) (heap : Heap) : Prop :=
  IsString (name ++ heap.tmpEntry.handleName.drop name.length) (cString name)

instance (name : List UInt8) (heap : Heap) : Decidable (TerminatedName name heap) :=
  inferInstanceAs (Decidable (IsString _ _))

/-- The switch passes the message to `messageSend`. -/
def IsRouted (buf : List UInt8) : Prop :=
  byteAt buf 2 = 4 ∨ byteAt buf 2 = 5 ∨ byteAt buf 2 = 6

instance (buf : List UInt8) : Decidable (IsRouted buf) := inferInstanceAs (Decidable (_ ∨ _))

/-- Descriptors fit the table, registered names are terminated, the recipients of a message have
an entry and a connection that ends has none. -/
def DeliveryPermitted (s : ServerState) : Action → Prop
  | .accept clientSocket => clientSocket < 65536
  | .message _ payload dataBuffer _ heap =>
      (byteAt (received payload dataBuffer) 2 = 1 →
        TerminatedName (nameBytes (received payload dataBuffer)) heap) ∧
      (IsRouted (received payload dataBuffer) →
        ∀ handle ∈ recipients (received payload dataBuffer),
          getSocket s.table (handle ++ [0]) ≠ some 0)
  | .close clientSocket _ _ _ => getHandle s.table (UInt16.ofNat clientSocket) = none

instance (s : ServerState) : (action : Action) → Decidable (DeliveryPermitted s action)
  | .accept _ => inferInstanceAs (Decidable (_ < _))
  | .message _ _ _ _ _ => inferInstanceAs (Decidable (_ ∧ _))
  | .close _ _ _ _ => inferInstanceAs (Decidable (_ = _))

/-- The invariant of a run: every entry is the registration of an open connection. -/
structure DeliveryInv (s : ServerState) : Prop where
  terminated : ∀ e ∈ s.table.entries, 0 ∈ e.handleName
  registered : ∀ e ∈ s.table.entries,
    s.HasRegistered e.socketNumber.toNat (cString e.handleName)
  descriptors : ∀ clientSocket, s.connections clientSocket ≠ none → clientSocket < 65536

/-! ## One message -/

private theorem delivered_messageBroadcast {s : ServerState} (hinv : DeliveryInv s)
    (dataBuffer : List UInt8) (senderSocket : Nat) (messageLen : Int) :
    ∀ event ∈ messageBroadcast s.table dataBuffer senderSocket messageLen,
      DeliveredToRegistrant s event := by
  intro event hevent
  obtain ⟨e, he, hevent⟩ := List.mem_flatMap.mp hevent
  by_cases hsocket : e.socketNumber.toNat ≠ senderSocket
  · rw [if_pos hsocket, forward, List.mem_cons, List.mem_singleton] at hevent
    rcases hevent with rfl | rfl
    · trivial
    · exact hinv.registered e he
  · rw [if_neg hsocket] at hevent
    simp at hevent

private theorem delivered_sendRecipient {s : ServerState} (hinv : DeliveryInv s)
    (buf : List UInt8) (messageLen : Int) (readerLocation : Nat)
    (hdefined : ∀ event ∈ sendRecipient s.table buf messageLen readerLocation, event.Defined)
    (hknown : getSocket s.table (slice buf ((readerLocation + 1) % 256)
      (byteAt buf readerLocation).toNat ++ [0]) ≠ some 0) :
    ∀ event ∈ sendRecipient s.table buf messageLen readerLocation,
      DeliveredToRegistrant s event := by
  have hterminator := hdefined
    (.storeArray .recipientHandle (byteAt buf readerLocation).toNat 1) (by simp [sendRecipient])
  simp only [Event.Defined] at hterminator
  have hlen : (slice buf ((readerLocation + 1) % 256) (byteAt buf readerLocation).toNat).length ≤
      99 :=
    Nat.le_trans (length_slice_le _ _ _) (by omega)
  have hsocket := getSocket_copied s.table _ hlen
  rw [hsocket] at hknown
  obtain ⟨e, he, hname, hfound⟩ := exists_of_socketOf (fun hz => hknown (congrArg some hz))
  intro event hevent
  simp only [sendRecipient, hsocket, forward, List.cons_append, List.nil_append, List.mem_cons,
    List.not_mem_nil, or_false] at hevent
  rcases hevent with rfl | rfl | rfl | rfl | rfl | rfl
  · trivial
  · trivial
  · trivial
  · trivial
  · trivial
  · show s.HasRegistered _ _
    rw [← hfound, ← hname.2]
    exact hinv.registered e he

private theorem delivered_sendRecipients {s : ServerState} (hinv : DeliveryInv s) (buf : List UInt8)
    (messageLen : Int) (n readerLocation : Nat)
    (hdefined : ∀ event ∈ sendRecipients s.table buf messageLen n readerLocation, event.Defined)
    (hknown : ∀ handle ∈ recipientsFrom buf n readerLocation,
      getSocket s.table (handle ++ [0]) ≠ some 0) :
    ∀ event ∈ sendRecipients s.table buf messageLen n readerLocation,
      DeliveredToRegistrant s event := by
  induction n generalizing readerLocation with
  | zero => simp [sendRecipients]
  | succ n ih =>
    rw [sendRecipients] at hdefined ⊢
    rw [recipientsFrom] at hknown
    have hfirst := delivered_sendRecipient hinv buf messageLen readerLocation
      (fun event h => hdefined event (List.mem_append_left _ h)) (hknown _ List.mem_cons_self)
    have hrest := ih (nextLocation buf readerLocation)
      (fun event h => hdefined event (List.mem_append_right _ h))
      (fun handle h => hknown handle (List.mem_cons_of_mem _ h))
    intro event hevent
    rcases List.mem_append.mp hevent with h | h
    · exact hfirst event h
    · exact hrest event h

private theorem delivered_messageSend {s : ServerState} (hinv : DeliveryInv s) (buf : List UInt8)
    (messageLen : Int)
    (hdefined : ∀ event ∈ messageSend s.table buf messageLen, event.Defined)
    (hknown : ∀ handle ∈ recipients buf, getSocket s.table (handle ++ [0]) ≠ some 0) :
    ∀ event ∈ messageSend s.table buf messageLen, DeliveredToRegistrant s event := by
  intro event hevent
  rw [messageSend, List.mem_append] at hevent
  rcases hevent with hevent | hevent
  · simp only [List.mem_cons, List.not_mem_nil, or_false] at hevent
    rcases hevent with rfl | rfl | rfl | rfl | rfl <;> trivial
  · refine delivered_sendRecipients hinv buf messageLen _ _ ?_ hknown event hevent
    intro event hevent
    exact hdefined event (List.mem_append_right _ hevent)

private theorem delivered_of_sends_eq_nil (s : ServerState) {events : List Event}
    (h : sends events = []) : ∀ event ∈ events, DeliveredToRegistrant s event := by
  intro event hevent
  have hsend := List.filterMap_eq_nil_iff.mp h event hevent
  cases event with
  | sendPDU addressee socket payload payloadLength => cases hsend
  | _ => trivial

private theorem delivered_listSend (s : ServerState) (T : HandleTable) (clientSocket : Nat) :
    ∀ event ∈ listSend T clientSocket, DeliveredToRegistrant s event := by
  intro event hevent
  rw [listSend, List.mem_append, List.mem_append, List.mem_singleton, List.mem_singleton]
    at hevent
  rcases hevent with (rfl | hevent) | rfl
  · trivial
  · obtain ⟨e, -, hevent⟩ := List.mem_flatMap.mp hevent
    unfold listEntry at hevent
    cases hhandle : getHandle T e.socketNumber with
    | none =>
      simp only [hhandle, List.mem_singleton] at hevent
      rw [hevent]
      trivial
    | some handle =>
      cases hlen : strlen handle with
      | none =>
        simp only [hhandle, hlen, List.mem_singleton] at hevent
        rw [hevent]
        trivial
      | some n =>
        simp only [hhandle, hlen, List.mem_singleton] at hevent
        rw [hevent]
        trivial
  · trivial

private theorem delivered_handleMessage {s : ServerState} (hinv : DeliveryInv s) (buf : List UInt8)
    (clientSocket : Nat) (messageLen : Int) (heap : Heap)
    (hdefined : ∀ event ∈ (handleMessage s.table buf clientSocket messageLen heap).2,
      event.Defined)
    (hknown : IsRouted buf → ∀ handle ∈ recipients buf,
      getSocket s.table (handle ++ [0]) ≠ some 0) :
    ∀ event ∈ (handleMessage s.table buf clientSocket messageLen heap).2,
      DeliveredToRegistrant s event := by
  intro event hevent
  by_cases hrouted : IsRouted buf
  · rcases hrouted with hflag | hflag
    · rw [handleMessage_broadcast hflag] at hevent hdefined
      rcases List.mem_append.mp hevent with h | h
      · exact delivered_messageBroadcast hinv buf clientSocket _ event h
      · exact delivered_messageSend hinv buf messageLen
          (fun event h => hdefined event (List.mem_append_right _ h)) (hknown (.inl hflag)) event h
    · rw [handleMessage_message hflag] at hevent hdefined
      exact delivered_messageSend hinv buf messageLen hdefined (hknown (.inr hflag)) event hevent
  · unfold handleMessage at hevent
    split at hevent
    · exact delivered_of_sends_eq_nil s (sends_register _ _ _ _) event hevent
    · rename_i hflag
      exact absurd (.inl (UInt8.toNat.inj hflag)) hrouted
    · rename_i hflag
      exact absurd (.inr (.inl (UInt8.toNat.inj hflag))) hrouted
    · rename_i hflag
      exact absurd (.inr (.inr (UInt8.toNat.inj hflag))) hrouted
    · exact delivered_listSend s _ _ event hevent
    · simp at hevent

/-! ## Runs -/

private theorem deliveryInv_append {s s' : ServerState} {clientSocket connection : Nat}
    {dataBuffer : List UInt8} {heap : Heap} (hinv : DeliveryInv s) {hsize : _}
    (hentries : s'.table.entries = s.table.entries ++
      [newEntry (UInt16.ofNat clientSocket) (nameBytes dataBuffer) heap hsize])
    (hconnections : s'.connections = s.connections)
    (hregistrations : s'.registrations =
      s.registrations ++ [⟨connection, clientSocket, nameBytes dataBuffer⟩])
    (hopen : s.connections clientSocket = some connection)
    (hname : TerminatedName (nameBytes dataBuffer) heap) : DeliveryInv s' where
  terminated := by
    intro e he
    rw [hentries, List.mem_append, List.mem_singleton] at he
    rcases he with he | rfl
    · exact hinv.terminated e he
    · exact hname.1
  registered := by
    intro e he
    rw [ServerState.HasRegistered, hconnections, hregistrations]
    rw [hentries, List.mem_append, List.mem_singleton] at he
    rcases he with he | rfl
    · obtain ⟨r, hr, hopen, hname⟩ := hinv.registered e he
      exact ⟨r, List.mem_append_left _ hr, hopen, hname⟩
    · have hlt := hinv.descriptors clientSocket (by rw [hopen]; simp)
      have hsocket : (UInt16.ofNat clientSocket).toNat = clientSocket :=
        UInt16.toNat_ofNat_of_lt' hlt
      refine ⟨_, List.mem_append_right _ (List.mem_singleton_self _), ?_, hname.2.symm⟩
      show s.connections (UInt16.ofNat clientSocket).toNat = some connection
      rw [hsocket, hopen]
  descriptors := by
    rw [hconnections]
    exact hinv.descriptors

private theorem deliveryInv_update {s s' : ServerState} {clientSocket : Nat}
    {connection : Option Nat} (hinv : DeliveryInv s) (htable : s'.table = s.table)
    (hregistrations : s'.registrations = s.registrations)
    (hconnections : s'.connections = Function.update s.connections clientSocket connection)
    (hunused : ∀ e ∈ s.table.entries, e.socketNumber.toNat ≠ clientSocket)
    (hfits : connection ≠ none → clientSocket < 65536) : DeliveryInv s' where
  terminated := by
    rw [htable]
    exact hinv.terminated
  registered := by
    intro e he
    rw [htable] at he
    obtain ⟨r, hr, hopen, hname⟩ := hinv.registered e he
    refine ⟨r, by rw [hregistrations]; exact hr, ?_, hname⟩
    rw [hconnections, Function.update_of_ne (hunused e he), hopen]
  descriptors := by
    intro socket hsocket
    rw [hconnections] at hsocket
    by_cases heq : socket = clientSocket
    · rw [heq, Function.update_self] at hsocket
      rw [heq]
      exact hfits hsocket
    · rw [Function.update_of_ne heq] at hsocket
      exact hinv.descriptors socket hsocket

private theorem deliveryInv_step {s s' : ServerState} {action : Action} {output : List Event}
    (h : serverStep s action = some (output, s')) (hinv : DeliveryInv s)
    (hpermitted : DeliveryPermitted s action) :
    DeliveryInv s' ∧ ∀ event ∈ output, DeliveredToRegistrant s event := by
  cases action with
  | accept clientSocket =>
    obtain ⟨hfree, rfl, rfl⟩ := serverStep_accept h
    have hunused : ∀ e ∈ s.table.entries, e.socketNumber.toNat ≠ clientSocket := by
      intro e he heq
      obtain ⟨r, -, hopen, -⟩ := hinv.registered e he
      rw [heq, hfree] at hopen
      cases hopen
    exact ⟨deliveryInv_update hinv rfl rfl rfl hunused (fun _ => hpermitted), by simp⟩
  | close clientSocket dataBuffer uninit heap =>
    obtain ⟨rfl, rfl⟩ := serverStep_close h
    have hunused : ∀ e ∈ s.table.entries, e.socketNumber.toNat ≠ clientSocket := by
      intro e he heq
      apply (getHandle_eq_none_iff _ _).mp hpermitted e he
      rw [← heq]
      exact UInt16.ofNat_toNat.symm
    refine ⟨deliveryInv_update hinv rfl rfl rfl hunused (fun hopen => absurd rfl hopen), ?_⟩
    intro event hevent
    rw [List.mem_singleton.mp hevent]
    trivial
  | message clientSocket payload dataBuffer uninit heap =>
    obtain ⟨-, -, -, -, -, houtput, hdefined, -⟩ := serverStep_message h
    obtain ⟨hname, hknown⟩ := hpermitted
    constructor
    · rcases serverStep_message_cases h with ⟨-, rfl⟩ |
        ⟨hflag, -, -, connection, hsize, hopen, hentries, -, hconnections, hregistrations⟩
      · exact hinv
      · exact deliveryInv_append hinv hentries hconnections hregistrations hopen (hname hflag)
    · intro event hevent
      rw [houtput, List.mem_append, List.mem_cons] at hevent
      rcases hevent with (rfl | hevent) | hevent
      · trivial
      · exact delivered_handleMessage hinv _ clientSocket payload.length heap hdefined hknown event
          hevent
      · exact delivered_of_sends_eq_nil s (sends_printMessage _) event hevent

private theorem deliveryInv_initial (heap : Heap) : DeliveryInv (initialServer heap) where
  terminated := by simp [initialServer, createTable, HandleTable.entries]
  registered := by simp [initialServer, createTable, HandleTable.entries]
  descriptors := by simp [initialServer]

/-- In every run of permitted actions each PDU that is sent for a handle goes to an open
connection that registered the handle. -/
theorem delivered_only_to_registrants (heap : Heap) (actions : List Action)
    (moments : List (Moment ServerState Action (List Event))) (last : ServerState)
    (hrun : run serverStep (initialServer heap) actions = some (moments, last))
    (hpermitted : ∀ m ∈ moments, DeliveryPermitted m.before m.action) :
    ∀ m ∈ moments, ∀ event ∈ m.output, DeliveredToRegistrant m.before event := by
  obtain ⟨-, hmoments⟩ := run_invariant DeliveryInv DeliveryPermitted
    (fun m => ∀ event ∈ m.output, DeliveredToRegistrant m.before event)
    (fun _ _ _ _ => deliveryInv_step) (deliveryInv_initial heap) hrun hpermitted
  intro m hm
  exact (hmoments m hm).2.2

/-- `a` and `b` register and `b` writes to `a`. -/
def writesTo : List Action :=
  [.accept 4, .message 4 [1, 2, 97, 0] (List.replicate 1024 0) 0 cleanHeap, .accept 5,
    .message 5 [1, 2, 98, 0] (List.replicate 1024 0) 0 cleanHeap,
    .message 5 [5, 1, 98, 1, 1, 97, 104, 0] (List.replicate 1024 0) 0 cleanHeap]

theorem delivered_only_to_registrants_writesTo :
    ∃ moments last, run serverStep (initialServer cleanHeap) writesTo = some (moments, last) ∧
      ∀ m ∈ moments, ∀ event ∈ m.output, DeliveredToRegistrant m.before event := by
  obtain ⟨moments, last, hrun, hpermitted⟩ := exists_run_of serverStep (initialServer cleanHeap)
    writesTo (fun moments => ∀ m ∈ moments, DeliveryPermitted m.before m.action)
    (by decide +kernel)
  exact ⟨moments, last, hrun,
    delivered_only_to_registrants cleanHeap writesTo moments last hrun hpermitted⟩

/-- `a` leaves, a third client is given its descriptor, and `b` writes to `a`. -/
def writesToStranger : List Action :=
  [.accept 4, .message 4 [1, 2, 97, 0] (List.replicate 1024 0) 0 cleanHeap, .accept 5,
    .message 5 [1, 2, 98, 0] (List.replicate 1024 0) 0 cleanHeap,
    .close 4 (List.replicate 1024 0) 0 cleanHeap, .accept 4,
    .message 5 [5, 1, 98, 1, 1, 97, 104, 0] (List.replicate 1024 0) 0 cleanHeap]

theorem stranger_receives :
    ∃ moments last,
      run serverStep (initialServer cleanHeap) writesToStranger = some (moments, last) ∧
      ¬∀ m ∈ moments, ∀ event ∈ m.output, DeliveredToRegistrant m.before event :=
  exists_run_of serverStep (initialServer cleanHeap) writesToStranger
    (fun moments => ¬∀ m ∈ moments, ∀ event ∈ m.output, DeliveredToRegistrant m.before event)
    (by decide +kernel)

end Cpe464.Chat
