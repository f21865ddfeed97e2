import Cpe464.Chat.Server
import Cpe464.Framework.Runs
import Mathlib.Logic.Function.Basic

/-!
# Runs of the chat server

`serverControl` takes what `poll` reports one after the other: a new connection, a message of a
client or the end of a connection. The state keeps, beside the handle table, which descriptors are
open and which registrations succeeded, neither of which the code looks at.
-/

namespace Cpe464.Chat

/-- A registration that succeeded: the connection it came over and the bytes of the name. -/
structure Registration where
  connection : Nat
  clientSocket : Nat
  name : List UInt8
  deriving DecidableEq

/-- Connections are numbered in the order of their `accept` calls. -/
structure ServerState where
  table : HandleTable
  accepted : Nat
  connections : Nat → Option Nat
  registrations : List Registration

def initialServer (heap : Heap) : ServerState where
  table := createTable heap
  accepted := 0
  connections _ := none
  registrations := []

/-- What `poll` reports. A message comes with what the receive buffer, the locals of `recvPDU` and
fresh memory hold. -/
inductive Action
  | accept (clientSocket : Nat)
  | message (clientSocket : Nat) (payload dataBuffer : List UInt8) (uninit : Nat) (heap : Heap)
  | close (clientSocket : Nat) (dataBuffer : List UInt8) (uninit : Nat) (heap : Heap)

/-- The behaviour behind the step is defined: it stays inside the memory of the server, though
perhaps not inside the received bytes. A null handle is printed as such. -/
def Event.Defined : Event → Prop
  | .readBuffer offset count => count = 0 ∨ offset + count ≤ 1024
  | .storeArray _ offset count => count = 0 ∨ offset + count ≤ 100
  | .storeEntry index allocated => index < allocated
  | .overrun => False
  | .nullHandle => True
  | .sendPDU _ _ _ payloadLength => 0 ≤ payloadLength

instance : (event : Event) → Decidable event.Defined
  | .readBuffer _ _ => inferInstanceAs (Decidable (_ ∨ _))
  | .storeArray _ _ _ => inferInstanceAs (Decidable (_ ∨ _))
  | .storeEntry _ _ => inferInstanceAs (Decidable (_ < _))
  | .overrun => inferInstanceAs (Decidable False)
  | .nullHandle => inferInstanceAs (Decidable True)
  | .sendPDU _ _ _ _ => inferInstanceAs (Decidable (_ ≤ _))

def nameBytes (dataBuffer : List UInt8) : List UInt8 :=
  slice dataBuffer 4 (byteAt dataBuffer 3).toNat

/-- The name that a message registers, if it registers one. -/
def newName (T : HandleTable) (dataBuffer : List UInt8) : Option (List UInt8) :=
  if byteAt dataBuffer 2 = 1 ∧ getSocket T (dataBuffer.drop 4) = some 0 then
    some (nameBytes dataBuffer)
  else none

/-- One round of `serverControl`. There is no next state when the process has exited or when the
behaviour of the code is undefined. -/
def serverStep (s : ServerState) : Action → Option (List Event × ServerState)
  | .accept clientSocket =>
      if s.connections clientSocket = none then
        some ([], { s with
          accepted := s.accepted + 1
          connections := Function.update s.connections clientSocket (some s.accepted) })
      else none
  | .message clientSocket payload dataBuffer uninit heap =>
      match s.connections clientSocket with
      | none => none
      | some connection =>
        let processed := processClient s.table clientSocket (sendPDU payload payload.length)
          dataBuffer uninit heap
        if 1 ≤ payload.length ∧ payload.length ≤ 1022 ∧ dataBuffer.length = 1024 ∧
            ∀ event ∈ processed.events, event.Defined then
          some (processed.events, { s with
            table := processed.table
            registrations := s.registrations ++
              (newName s.table (received payload dataBuffer)).toList.map fun name =>
                ⟨connection, clientSocket, name⟩ })
        else none
  | .close clientSocket dataBuffer uninit heap =>
      let processed := processClient s.table clientSocket [] dataBuffer uninit heap
      if s.connections clientSocket ≠ none ∧ processed.status = .closed then
        some (processed.events, { s with
          table := processed.table
          connections := Function.update s.connections clientSocket none })
      else none

theorem processClient_nil (T : HandleTable) (clientSocket : Nat) (dataBuffer : List UInt8)
    (uninit : Nat) (heap : Heap) :
    processClient T clientSocket [] dataBuffer uninit heap =
      { status := .closed, table := T, events := [.readBuffer 2 1], rest := [] } := by
  simp [processClient, recvPDU, safeRecv]

/-! ## What a step can do -/

theorem serverStep_accept {s s' : ServerState} {clientSocket : Nat} {output : List Event}
    (h : serverStep s (.accept clientSocket) = some (output, s')) :
    s.connections clientSocket = none ∧ output = [] ∧
      s' = { s with
        accepted := s.accepted + 1
        connections := Function.update s.connections clientSocket (some s.accepted) } := by
  rw [serverStep] at h
  by_cases hfree : s.connections clientSocket = none
  · rw [if_pos hfree] at h
    cases h
    exact ⟨hfree, rfl, rfl⟩
  · rw [if_neg hfree] at h
    cases h

/-- A message is handled by the switch, all of it defined, and may leave one new registration. -/
theorem serverStep_message {s s' : ServerState} {clientSocket uninit : Nat}
    {payload dataBuffer : List UInt8} {heap : Heap} {output : List Event}
    (h : serverStep s (.message clientSocket payload dataBuffer uninit heap) =
      some (output, s')) :
    ∃ connection, s.connections clientSocket = some connection ∧
      1 ≤ payload.length ∧ payload.length ≤ 1022 ∧ dataBuffer.length = 1024 ∧
      let handled := handleMessage s.table (received payload dataBuffer) clientSocket
        payload.length heap
      output = .readBuffer 2 1 :: handled.2 ++ printMessage (received payload dataBuffer) ∧
      (∀ event ∈ handled.2, event.Defined) ∧
      s' = { s with
        table := handled.1
        registrations := s.registrations ++
          (newName s.table (received payload dataBuffer)).toList.map fun name =>
            ⟨connection, clientSocket, name⟩ } := by
  rw [serverStep] at h
  cases hopen : s.connections clientSocket with
  | none => simp [hopen] at h
  | some connection =>
    simp only [hopen] at h
    split at h
    · rename_i hguard
      obtain ⟨hne, hfit, hbuffer, hdefined⟩ := hguard
      have hprocess := processClient_sendPDU s.table clientSocket payload [] dataBuffer uninit heap
        hne hfit
      rw [List.append_nil] at hprocess
      rw [hprocess] at h hdefined
      cases h
      refine ⟨connection, rfl, hne, hfit, hbuffer, rfl, ?_, rfl⟩
      intro event hevent
      exact hdefined event (by simp [hevent])
    · cases h

theorem serverStep_close {s s' : ServerState} {clientSocket uninit : Nat}
    {dataBuffer : List UInt8} {heap : Heap} {output : List Event}
    (h : serverStep s (.close clientSocket dataBuffer uninit heap) = some (output, s')) :
    output = [.readBuffer 2 1] ∧
      s' = { s with connections := Function.update s.connections clientSocket none } := by
  rw [serverStep, processClient_nil] at h
  split at h
  · cases h
    exact ⟨rfl, rfl⟩
  · cases h

private theorem register_cases {T : HandleTable} {dataBuffer : List UInt8} {clientSocket : Nat}
    {heap : Heap} (hbuffer : dataBuffer.length = 1024)
    (hdefined : ∀ event ∈ (register T dataBuffer clientSocket heap).2, event.Defined) :
    (∃ found, found ≠ 0 ∧ getSocket T (dataBuffer.drop 4) = some found ∧
      (register T dataBuffer clientSocket heap).1 = T) ∨
    (getSocket T (dataBuffer.drop 4) = some 0 ∧ T.HasRoom ∧
      ∃ hsize, (register T dataBuffer clientSocket heap).1.entries =
          T.entries ++ [newEntry (UInt16.ofNat clientSocket) (nameBytes dataBuffer) heap hsize] ∧
        (register T dataBuffer clientSocket heap).1.tableSize = T.nextSize) := by
  have hroomy : (byteAt dataBuffer 3).toNat ≤ (dataBuffer.drop 4).length := by
    have := (byteAt dataBuffer 3).toNat_lt
    rw [List.length_drop, hbuffer]
    omega
  cases hfound : getSocket T (dataBuffer.drop 4) with
  | none =>
    have hevents : .overrun ∈ (register T dataBuffer clientSocket heap).2 := by
      simp [register, addEntry_lookup hfound]
    exact absurd (hdefined _ hevents) id
  | some found =>
    by_cases hz : found = 0
    · subst hz
      right
      by_cases hfield : (byteAt dataBuffer 3).toNat ≤ 100
      · by_cases hroom : T.HasRoom
        · obtain ⟨T', hadd, hentries, -, hsize⟩ :=
            addEntry_new hfound hroomy hfield hroom (UInt16.ofNat clientSocket) heap
          refine ⟨rfl, hroom, ?_, ?_, ?_⟩
          · exact Nat.le_trans (length_slice_le _ _ _) hfield
          · simp only [register, hadd]
            exact hentries
          · simp only [register, hadd]
            exact hsize
        · have hevents : .storeEntry T.entryCount T.nextSize ∈
              (register T dataBuffer clientSocket heap).2 := by
            simp [register, addEntry_slot hfound ⟨hroomy, hfield⟩ hroom]
          exact absurd (hdefined _ hevents) hroom
      · have hsize : ¬((byteAt dataBuffer 3).toNat ≤ (dataBuffer.drop 4).length ∧
            (byteAt dataBuffer 3).toNat ≤ 100) := fun h => hfield h.2
        have hevents : .storeArray .handleName 0 (byteAt dataBuffer 3).toNat ∈
            (register T dataBuffer clientSocket heap).2 := by
          simp [register, addEntry_handleName hfound hsize]
        have hstore := hdefined _ hevents
        simp only [Event.Defined] at hstore
        omega
    · refine .inl ⟨found, hz, rfl, ?_⟩
      simp only [register, addEntry_found hfound hz]

theorem serverStep_message_cases {s s' : ServerState} {clientSocket uninit : Nat}
    {payload dataBuffer : List UInt8} {heap : Heap} {output : List Event}
    (h : serverStep s (.message clientSocket payload dataBuffer uninit heap) =
      some (output, s')) :
    let buf := received payload dataBuffer
    ((byteAt buf 2 = 1 → ∃ found, found ≠ 0 ∧ getSocket s.table (buf.drop 4) = some found) ∧
      s' = s) ∨
    (byteAt buf 2 = 1 ∧ getSocket s.table (buf.drop 4) = some 0 ∧ s.table.HasRoom ∧
      ∃ connection hsize, s.connections clientSocket = some connection ∧
        s'.table.entries = s.table.entries ++
          [newEntry (UInt16.ofNat clientSocket) (nameBytes buf) heap hsize] ∧
        s'.table.tableSize = s.table.nextSize ∧
        s'.connections = s.connections ∧
        s'.registrations = s.registrations ++ [⟨connection, clientSocket, nameBytes buf⟩]) := by
  intro buf
  obtain ⟨connection, hopen, hne, hfit, hbuffer, -, hdefined, rfl⟩ := serverStep_message h
  by_cases hflag : byteAt buf 2 = 1
  · rw [handleMessage_register hflag] at hdefined
    rcases register_cases (length_received payload dataBuffer hfit hbuffer) hdefined with
      ⟨found, hz, hfound, htable⟩ | ⟨hnone, hroom, hsize, hentries, htableSize⟩
    · refine .inl ⟨fun _ => ⟨found, hz, hfound⟩, ?_⟩
      have hname : newName s.table buf = none := by
        rw [newName, if_neg]
        intro hnew
        exact hz (Option.some.inj (hfound.symm.trans hnew.2))
      rw [handleMessage_register hflag, htable, hname]
      simp
    · refine .inr ⟨hflag, hnone, hroom, connection, hsize, hopen, ?_, ?_, rfl, ?_⟩
      · rw [handleMessage_register hflag]
        exact hentries
      · rw [handleMessage_register hflag]
        exact htableSize
      · have hname : newName s.table (received payload dataBuffer) =
            some (nameBytes (received payload dataBuffer)) := if_pos ⟨hflag, hnone⟩
        rw [hname]
        rfl
  · refine .inl ⟨fun hone => absurd hone hflag, ?_⟩
    have hname : newName s.table buf = none := by
      rw [newName, if_neg (fun hnew => hflag hnew.1)]
    rw [handleMessage_table hflag, hname]
    simp

end Cpe464.Chat
