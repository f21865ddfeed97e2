import Cpe464.Chat.Reception
import Cpe464.Chat.Recipients

/-!
# Unknown recipients

`get_socket` answers 0 for a handle that is not in the table, and `messageSend` sends to whatever
it answers. The reply for an unknown recipient, flag 7, is known to the clients only. The process
ends when `processClient` exits, and in `safeSend` when a send fails.
-/

namespace Cpe464.Chat

open Client (messageHeader)

/-- The step is no send, or one on a descriptor that takes it. -/
def Event.Accepted (accepts : Nat → Bool) : Event → Prop
  | .sendPDU _ socket _ _ => accepts socket = true
  | _ => True

instance (accepts : Nat → Bool) : (event : Event) → Decidable (event.Accepted accepts)
  | .sendPDU _ _ _ _ => inferInstanceAs (Decidable (_ = _))
  | .readBuffer _ _ => inferInstanceAs (Decidable True)
  | .storeArray _ _ _ => inferInstanceAs (Decidable True)
  | .storeEntry _ _ => inferInstanceAs (Decidable True)
  | .overrun => inferInstanceAs (Decidable True)
  | .nullHandle => inferInstanceAs (Decidable True)

/-- What the process does of some steps, and whether it goes on behind them: it exits at the first
send that fails. -/
def performed (accepts : Nat → Bool) : List Event → List Event × Bool
  | [] => ([], true)
  | event :: events =>
      if event.Accepted accepts then
        (event :: (performed accepts events).1, (performed accepts events).2)
      else ([event], false)

/-- What the server does for a PDU, and whether it goes on behind it. -/
def outcome (accepts : Nat → Bool) (processed : Processed) : List Event × Bool :=
  ((performed accepts processed.events).1,
    (performed accepts processed.events).2 && decide (processed.status ≠ .exited))

private theorem performed_survives_iff (accepts : Nat → Bool) (events : List Event) :
    (performed accepts events).2 = true ↔ ∀ event ∈ events, event.Accepted accepts := by
  induction events with
  | nil => exact iff_of_true rfl (List.forall_mem_nil _)
  | cons event events ih =>
    rw [performed, List.forall_mem_cons]
    by_cases h : event.Accepted accepts
    · rw [if_pos h, ih]
      exact (and_iff_right h).symm
    · rw [if_neg h]
      exact iff_of_false Bool.false_ne_true (fun hall => h hall.1)

private theorem performed_of_survives {accepts : Nat → Bool} {events : List Event}
    (h : ∀ event ∈ events, event.Accepted accepts) : performed accepts events = (events, true) := by
  induction events with
  | nil => rfl
  | cons event events ih =>
    rw [List.forall_mem_cons] at h
    rw [performed, if_pos h.1, ih h.2]

private theorem accepted_iff_sends (accepts : Nat → Bool) (events : List Event) :
    (∀ event ∈ events, event.Accepted accepts) ↔ ∀ send ∈ sends events, accepts send.1 = true := by
  constructor
  · intro h send hsend
    obtain ⟨event, hevent, hsome⟩ := List.mem_filterMap.mp hsend
    have haccepted := h event hevent
    cases event with
    | sendPDU addressee socket payload payloadLength =>
      cases hsome
      exact haccepted
    | _ => cases hsome
  · intro h event hevent
    cases event with
    | sendPDU addressee socket payload payloadLength =>
      exact h _ (List.mem_filterMap.mpr ⟨_, hevent, rfl⟩)
    | _ => trivial

/-- An unknown recipient is an error for the sender only: the process goes on, every registered
recipient is sent the payload, nobody but registered recipients and the sender is sent anything,
and the sender is sent a PDU of flag 7 for each recipient that is not registered. -/
structure UnknownReported (T : HandleTable) (clientSocket : Nat) (payload : List UInt8)
    (handles : List (List UInt8)) (done : List Event × Bool) : Prop where
  inArrays : StoresInArrays done.1
  survives : done.2 = true
  delivered : ∀ h ∈ handles, T.Registered h →
    ((T.socketOf h).toNat, payload, (payload.length : Int)) ∈ sends done.1
  confined : ∀ send ∈ sends done.1, send.1 = clientSocket ∨
    ∃ h ∈ handles, T.Registered h ∧ (T.socketOf h).toNat = send.1
  reported : ((sends done.1).filter fun send =>
      send.1 = clientSocket ∧ send.2.1.head? = some 7).length =
    (handles.filter fun h => ¬T.Registered h).length

/-- The names that lie where the walk looks are of use to registered recipients: each is short
enough, its socket takes a send and is the sender's or a recipient's, and none of the recipients'
sockets is left out. -/
structure WalkServes (T : HandleTable) (accepts : Nat → Bool) (clientSocket : Nat)
    (handles names : List (List UInt8)) : Prop where
  short : ∀ name ∈ names, name.length ≤ 99
  accepted : ∀ name ∈ names, accepts (T.socketOf (cString name)).toNat = true
  confined : ∀ name ∈ names, (T.socketOf (cString name)).toNat = clientSocket ∨
    ∃ h ∈ handles, (T.socketOf h).toNat = (T.socketOf (cString name)).toNat
  reaches : ∀ h ∈ handles, ∃ name ∈ names, T.socketOf (cString name) = T.socketOf h

private theorem walkServes_self_iff (T : HandleTable) (accepts : Nat → Bool) (clientSocket : Nat)
    {handles : List (List UInt8)} (hhandles : ∀ h ∈ handles, ProperName h) :
    WalkServes T accepts clientSocket handles handles ↔
      ∀ h ∈ handles, accepts (T.socketOf h).toNat = true := by
  have hstring : ∀ h ∈ handles, cString h = h :=
    fun h hh => cString_of_notMem (hhandles h hh).2.2
  constructor
  · intro hserves h hh
    have haccepted := hserves.accepted h hh
    rwa [hstring h hh] at haccepted
  · intro haccepts
    refine ⟨fun h hh => (hhandles h hh).2.1, ?_, ?_, ?_⟩
    · intro h hh
      rw [hstring h hh]
      exact haccepts h hh
    · intro h hh
      rw [hstring h hh]
      exact .inr ⟨h, hh, rfl⟩
    · intro h hh
      exact ⟨h, hh, by rw [hstring h hh]⟩

private theorem replies_eq_nil {payload : List UInt8} (hflag : payload.head? ≠ some 7)
    (clientSocket : Nat) (sockets : List Nat) :
    (sockets.map fun socket => (socket, payload, (payload.length : Int))).filter (fun send =>
      send.1 = clientSocket ∧ send.2.1.head? = some 7) = [] := by
  rw [List.filter_eq_nil_iff]
  intro send hsend
  obtain ⟨socket, -, rfl⟩ := List.mem_map.mp hsend
  simp [hflag]

section WalkOutcome

variable {T : HandleTable} {accepts : Nat → Bool} {clientSocket : Nat} {payload : List UInt8}
  {handles names : List (List UInt8)} {events : List Event} (hflag : payload.head? ≠ some 7)
  (hstores : StoresInArrays events ↔ ∀ name ∈ names, name.length ≤ 99)
  (hsends : (∀ name ∈ names, name.length ≤ 99) → sends events = names.map fun name =>
    ((T.socketOf (cString name)).toNat, payload, (payload.length : Int)))

include hflag hstores hsends

private theorem UnknownReported.walkServes
    (h : UnknownReported T clientSocket payload handles (performed accepts events)) :
    (∀ h ∈ handles, T.Registered h) ∧ WalkServes T accepts clientSocket handles names := by
  have hreplies := replies_eq_nil hflag clientSocket
    (names.map fun name => (T.socketOf (cString name)).toNat)
  rw [List.map_map] at hreplies
  have haccepted := (performed_survives_iff accepts events).mp h.survives
  obtain ⟨hinArrays, -, hdelivered, hconfined, hreported⟩ := h
  rw [performed_of_survives haccepted] at hinArrays hdelivered hconfined hreported
  have hshort := hstores.mp hinArrays
  rw [accepted_iff_sends] at haccepted
  simp only [hsends hshort] at haccepted hdelivered hconfined hreported
  have hregistered : ∀ h ∈ handles, T.Registered h := by
    intro h hh
    have hnone := hreported.symm.trans (congrArg List.length hreplies)
    have hall := List.filter_eq_nil_iff.mp (List.length_eq_zero_iff.mp hnone) h hh
    simpa using hall
  refine ⟨hregistered, hshort, ?_, ?_, ?_⟩
  · intro name hname
    exact haccepted _ (List.mem_map_of_mem hname)
  · intro name hname
    rcases hconfined _ (List.mem_map_of_mem hname) with hclient | ⟨h, hh, -, hsocket⟩
    · exact .inl hclient
    · exact .inr ⟨h, hh, hsocket⟩
  · intro h hh
    obtain ⟨name, hname, heq⟩ := List.mem_map.mp (hdelivered h hh (hregistered h hh))
    exact ⟨name, hname, UInt16.toNat.inj (congrArg Prod.fst heq)⟩

private theorem WalkServes.unknownReported
    (hserves : WalkServes T accepts clientSocket handles names)
    (hregistered : ∀ h ∈ handles, T.Registered h) :
    UnknownReported T clientSocket payload handles (performed accepts events) := by
  have hreplies := replies_eq_nil hflag clientSocket
    (names.map fun name => (T.socketOf (cString name)).toNat)
  rw [List.map_map] at hreplies
  have hall := hsends hserves.short
  have haccepted : ∀ event ∈ events, event.Accepted accepts := by
    rw [accepted_iff_sends, hall]
    intro send hsend
    obtain ⟨name, hname, rfl⟩ := List.mem_map.mp hsend
    exact hserves.accepted name hname
  have hunknown : handles.filter (fun h => ¬T.Registered h) = [] := by
    rw [List.filter_eq_nil_iff]
    intro h hh
    simp [hregistered h hh]
  rw [performed_of_survives haccepted]
  refine ⟨hstores.mpr hserves.short, rfl, ?_, ?_, ?_⟩
  · intro h hh _
    obtain ⟨name, hname, hsocket⟩ := hserves.reaches h hh
    change _ ∈ sends events
    rw [hall, ← hsocket]
    exact List.mem_map_of_mem hname
  · intro send hsend
    change send ∈ sends events at hsend
    rw [hall] at hsend
    obtain ⟨name, hname, rfl⟩ := List.mem_map.mp hsend
    rcases hserves.confined name hname with hclient | ⟨h, hh, hsocket⟩
    · exact .inl hclient
    · exact .inr ⟨h, hh, hregistered h hh, hsocket⟩
  · change ((sends events).filter _).length = _
    rw [hall, hunknown]
    exact congrArg List.length hreplies

end WalkOutcome

private theorem processClient_exits (T : HandleTable) (clientSocket : Nat)
    (payload rest dataBuffer : List UInt8) (uninit : Nat) (heap : Heap)
    (hlong : 1022 < payload.length) (hfield : payload.length ≤ 65533)
    (hbuffer : dataBuffer.length = 1024) :
    (processClient T clientSocket (sendPDU payload payload.length ++ rest) dataBuffer uninit
      heap).status = .exited := by
  have hseen := lengthSeen_sendPDU payload rest dataBuffer hfield
  have hne : sendPDU payload payload.length ++ rest ≠ [] := by
    rw [sendPDU_eq payload hfield]
    apply List.ne_nil_of_length_pos
    simp only [List.length_append, length_pduHeader]
    omega
  have hret := recvPDU_ret hne dataBuffer 1024 uninit (by omega)
  rw [hseen, if_pos (by omega)] at hret
  simp [processClient, hret]

/-- An unknown recipient of a message to named clients is reported exactly when there is none, the
message fits the receive buffer and the walk serves the recipients; where it finds the recipients
themselves, exactly when each of them is registered with a socket that takes a send. -/
theorem processClient_unknownReported_iff (T : HandleTable) (accepts : Nat → Bool)
    (clientSocket : Nat) (flag : UInt8) (sender text rest dataBuffer : List UInt8)
    (handles : List (List UInt8)) (uninit : Nat) (heap : Heap) (hflag : flag = 5 ∨ flag = 6)
    (hsender : ProperName sender) (hhandles : ∀ h ∈ handles, ProperName h)
    (hcount : handles.length ≤ 255)
    (hfield : (messageHeader flag sender handles ++ text).length ≤ 65533)
    (hbuffer : dataBuffer.length = 1024) :
    let payload := messageHeader flag sender handles ++ text
    let buf := received payload dataBuffer
    let done := outcome accepts (processClient T clientSocket
      (sendPDU payload payload.length ++ rest) dataBuffer uninit heap)
    (UnknownReported T clientSocket payload handles done ↔
      payload.length ≤ 1022 ∧ (∀ h ∈ handles, T.Registered h) ∧
        WalkServes T accepts clientSocket handles (recipients buf)) ∧
    (RepeatsWrapped buf (5 + sender.length) handles →
      (UnknownReported T clientSocket payload handles done ↔
        payload.length ≤ 1022 ∧
          ∀ h ∈ handles, T.Registered h ∧ accepts (T.socketOf h).toNat = true)) := by
  intro payload buf done
  by_cases hfit : payload.length ≤ 1022
  · obtain ⟨hstores, hsends⟩ := processClient_walk hsender hfit hbuffer hflag T
      clientSocket rest uninit heap
    have hhead : payload.head? ≠ some 7 := by
      show some flag ≠ some 7
      rcases hflag with rfl | rfl <;> decide
    have hdone : done = performed accepts (processClient T clientSocket
        (sendPDU payload payload.length ++ rest) dataBuffer uninit heap).events := by
      have hne : 1 ≤ payload.length := by simp [payload, messageHeader]
      show outcome accepts (processClient T clientSocket _ dataBuffer uninit heap) = _
      rw [processClient_sendPDU T clientSocket payload rest dataBuffer uninit heap hne hfit]
      exact Prod.ext rfl (Bool.and_true _)
    have hiff : UnknownReported T clientSocket payload handles done ↔
        (∀ h ∈ handles, T.Registered h) ∧
          WalkServes T accepts clientSocket handles (recipients buf) := by
      rw [hdone]
      constructor
      · intro h
        exact h.walkServes hhead hstores hsends
      · intro h
        exact h.2.unknownReported hhead hstores hsends h.1
    rw [hiff, and_iff_right hfit, and_iff_right hfit]
    refine ⟨Iff.rfl, ?_⟩
    intro hwrapped
    have hfound : recipients buf = handles :=
      (recipients_received_iff hsender hhandles hcount hfit hbuffer).mpr hwrapped
    rw [show recipients _ = handles from hfound,
      walkServes_self_iff T accepts clientSocket hhandles]
    exact forall₂_and.symm
  · have hexits : ¬UnknownReported T clientSocket payload handles done := by
      intro h
      have hsurvives := h.survives
      simp only [done, outcome, processClient_exits T clientSocket payload rest dataBuffer uninit
        heap (by omega) hfield hbuffer, ne_eq, not_true, decide_false, Bool.and_false] at hsurvives
      cases hsurvives
    refine ⟨iff_of_false hexits (fun h => hfit h.1), ?_⟩
    intro _
    exact iff_of_false hexits (fun h => hfit h.1)

theorem processClient_unknownReported_two :
    let payload := messageHeader 6 [97] [[98], [97]] ++ [104, 105, 0]
    let buf := received payload (List.replicate 1024 0)
    let accepts := fun socket => socket == 4 || socket == 5
    let done := outcome accepts (processClient twoClients 4
      (sendPDU payload payload.length ++ []) (List.replicate 1024 0) 0 dirtyHeap)
    (UnknownReported twoClients 4 payload [[98], [97]] done ↔
      payload.length ≤ 1022 ∧ (∀ h ∈ [[98], [97]], twoClients.Registered h) ∧
        WalkServes twoClients accepts 4 [[98], [97]] (recipients buf)) ∧
    (RepeatsWrapped buf 6 [[98], [97]] →
      (UnknownReported twoClients 4 payload [[98], [97]] done ↔
        payload.length ≤ 1022 ∧ ∀ h ∈ [[98], [97]], twoClients.Registered h ∧
          accepts (twoClients.socketOf h).toNat = true)) :=
  processClient_unknownReported_iff twoClients (fun socket => socket == 4 || socket == 5) 4 6 [97]
    [104, 105, 0] [] (List.replicate 1024 0) [[98], [97]] 0 dirtyHeap (by decide) (by decide)
    (by decide) (by decide) (by decide) List.length_replicate

/-- `a` writes to `c`, who is not registered: the server sends on descriptor 0 and exits. -/
theorem unknown_recipient_exits :
    let payload := messageHeader 5 [97] [[99]] ++ [104, 0]
    ¬UnknownReported twoClients 4 payload [[99]] (outcome
      (fun socket => socket == 4 || socket == 5) (processClient twoClients 4
        (sendPDU payload payload.length) (List.replicate 1024 0) 0 dirtyHeap)) := by
  intro payload h
  have hsurvives := h.survives
  revert hsurvives
  decide +kernel

end Cpe464.Chat
