import Cpe464.Chat.HandleMap
import Cpe464.Chat.ServerRuns

/-!
# Registrations on the running server

A registration carries its name behind a length, but the duplicate check reads `dataBuffer` from
the name on to the next zero byte, and the stored copy ends where fresh memory happens to hold a
zero byte. As long as neither goes wrong, the handles of the server are a first-writer-wins map
over any run.
-/

namespace Cpe464.Chat

open FirstWriter Runs

def ServerState.names (s : ServerState) : List (List UInt8) :=
  s.registrations.map Registration.name

def ServerState.handleMap (s : ServerState) : List (List UInt8 × UInt16) :=
  s.registrations.map fun r => (r.name, UInt16.ofNat r.clientSocket)

/-- A name of 1 to 99 bytes without a zero byte. -/
def ProperName (name : List UInt8) : Prop := 1 ≤ name.length ∧ name.length ≤ 99 ∧ 0 ∉ name

instance (name : List UInt8) : Decidable (ProperName name) :=
  inferInstanceAs (Decidable (_ ∧ _))

/-- The string that the duplicate check reads, from the name on to the next zero byte, is a
registered name. -/
def CheckFinds (s : ServerState) (dataBuffer : List UInt8) : Prop :=
  0 ∈ dataBuffer.drop 4 ∧ cString (dataBuffer.drop 4) ∈ s.names

instance (s : ServerState) (dataBuffer : List UInt8) : Decidable (CheckFinds s dataBuffer) :=
  inferInstanceAs (Decidable (_ ∧ _))

/-- The name can be stored: it has at most 99 bytes and no zero byte among them, fresh memory ends
the copy, the table has room and the descriptor fits its field. -/
def Storable (s : ServerState) (clientSocket : Nat) (name : List UInt8) (heap : Heap) : Prop :=
  0 ∉ name ∧ name.length ≤ 99 ∧ byteAt heap.tmpEntry.handleName name.length = 0 ∧
  s.registrations.length < 49151 ∧ 1 ≤ clientSocket ∧ clientSocket < 65536

instance (s : ServerState) (clientSocket : Nat) (name : List UInt8) (heap : Heap) :
    Decidable (Storable s clientSocket name heap) :=
  inferInstanceAs (Decidable (_ ∧ _))

/-- The duplicate check finds a proper name only if the name itself is registered, and what it
does not find is new and can be stored. -/
def RegistrationChecked (s : ServerState) (clientSocket : Nat) (dataBuffer : List UInt8)
    (heap : Heap) : Prop :=
  (CheckFinds s dataBuffer → ProperName (nameBytes dataBuffer) →
    nameBytes dataBuffer ∈ s.names) ∧
  (¬CheckFinds s dataBuffer →
    nameBytes dataBuffer ∉ s.names ∧ Storable s clientSocket (nameBytes dataBuffer) heap)

instance (s : ServerState) (clientSocket : Nat) (dataBuffer : List UInt8) (heap : Heap) :
    Decidable (RegistrationChecked s clientSocket dataBuffer heap) :=
  inferInstanceAs (Decidable (_ ∧ _))

def ActionChecked (s : ServerState) : Action → Prop
  | .message clientSocket payload dataBuffer _ heap =>
      byteAt (received payload dataBuffer) 2 = 1 →
        RegistrationChecked s clientSocket (received payload dataBuffer) heap
  | _ => True

instance (s : ServerState) : (action : Action) → Decidable (ActionChecked s action)
  | .message _ _ _ _ _ => inferInstanceAs (Decidable (_ → _))
  | .accept _ => inferInstanceAs (Decidable True)
  | .close _ _ _ _ => inferInstanceAs (Decidable True)

/-- A registration of a proper name appends one entry, under which the name is found, if the name
was not registered before, and leaves the table as it is if it was. -/
def RegistersOnce (m : Moment ServerState Action (List Event)) : Prop :=
  ∀ clientSocket name dataBuffer uninit heap, ProperName name →
    m.action = .message clientSocket (1 :: UInt8.ofNat name.length :: name) dataBuffer uninit heap →
    (name ∉ m.before.names →
      (∃ e, m.after.table.entries = m.before.table.entries ++ [e]) ∧
      (getSocket m.after.table (name ++ [0])).map UInt16.toNat = some clientSocket) ∧
    (name ∈ m.before.names → m.after.table = m.before.table)

/-- No two entries hold the same handle, and every registered name leads to the socket that
registered it. -/
structure HandlesUnique (s : ServerState) : Prop where
  terminated : ∀ e ∈ s.table.entries, 0 ∈ e.handleName
  distinct : (s.table.entries.map fun e => cString e.handleName).Nodup
  found : ∀ r ∈ s.registrations,
    (getSocket s.table (r.name ++ [0])).map UInt16.toNat = some r.clientSocket

/-- The invariant of a run: the table is the map of the registrations. -/
structure RegistrationInv (s : ServerState) : Prop where
  represents : Represents s.table s.handleMap
  unwrapped : s.table.Unwrapped
  sockets : ∀ r ∈ s.registrations, r.clientSocket < 65536
  names : ∀ r ∈ s.registrations, 0 ∉ r.name

private theorem ServerState.keys_handleMap (s : ServerState) :
    s.handleMap.map Prod.fst = s.names := by
  rw [ServerState.handleMap, List.map_map]
  rfl

private theorem ofNat_ne_zero {n : Nat} (hpos : 1 ≤ n) (hlt : n < 65536) : UInt16.ofNat n ≠ 0 := by
  intro h
  have := congrArg UInt16.toNat h
  rw [UInt16.toNat_ofNat_of_lt' hlt] at this
  change n = 0 at this
  omega

private theorem RegistrationInv.handlesUnique {s : ServerState} (h : RegistrationInv s) :
    HandlesUnique s where
  terminated := h.represents.terminated
  distinct := by
    have hnodup := h.represents.nodup
    rw [← h.represents.contents, List.map_map] at hnodup
    exact hnodup
  found := by
    intro r hr
    have hpair : (r.name, UInt16.ofNat r.clientSocket) ∈ s.handleMap := List.mem_map_of_mem hr
    rw [h.represents.getSocket (isString_append_zero (h.names r hr) []),
      lookup_eq_some_of_mem h.represents.nodup hpair, Option.getD_some, Option.map_some,
      UInt16.toNat_ofNat_of_lt' (h.sockets r hr)]

theorem RegistrationInv.getSocket {s : ServerState} (h : RegistrationInv s)
    (memory : List UInt8) (hlong : 100 ≤ memory.length) :
    (∃ found, found ≠ 0 ∧ getSocket s.table memory = some found) ↔
      0 ∈ memory ∧ cString memory ∈ s.names := by
  rw [getSocket_of_terminated s.table h.represents.terminated memory hlong]
  by_cases hz : 0 ∈ memory
  · have hnames := h.represents.socketOf_eq_zero_iff (cString memory)
    rw [s.keys_handleMap] at hnames
    simp only [Option.some.injEq, exists_eq_right', hz, if_true, true_and]
    exact not_iff_comm.mp hnames.symm
  · simp [hz]

private theorem registrationInv_initial (heap : Heap) : RegistrationInv (initialServer heap) where
  represents := represents_createTable heap
  unwrapped := unwrapped_createTable heap
  sockets := by simp [initialServer]
  names := by simp [initialServer]

/-! ## Steps -/

private theorem received_registration (name dataBuffer : List UInt8) :
    byteAt (received (1 :: UInt8.ofNat name.length :: name) dataBuffer) 2 = 1 :=
  byteAt_received (1 :: UInt8.ofNat name.length :: name) dataBuffer 0 (by simp)

private theorem nameBytes_received (name dataBuffer : List UInt8) (hlen : name.length ≤ 99) :
    nameBytes (received (1 :: UInt8.ofNat name.length :: name) dataBuffer) = name := by
  have hbyte := byteAt_received (1 :: UInt8.ofNat name.length :: name) dataBuffer 1 (by simp)
  have hsize : (byteAt (received (1 :: UInt8.ofNat name.length :: name) dataBuffer) 3).toNat =
      name.length := by
    rw [hbyte, byteAt_cons_succ, byteAt_cons_zero]
    exact UInt8.toNat_ofNat_of_lt' (show _ < 256 by omega)
  have hslice := slice_middle (pduHeader (name.length + 2) ++ [1, UInt8.ofNat name.length]) name
    (dataBuffer.drop (name.length + 4))
  rw [nameBytes, hsize]
  simpa [received] using hslice

private theorem isString_newEntry (socket : UInt16) {name : List UInt8} {heap : Heap}
    (hsize : name.length ≤ 100) (hzero : 0 ∉ name) (hlen : name.length ≤ 99)
    (hend : byteAt heap.tmpEntry.handleName name.length = 0) :
    IsString (newEntry socket name heap hsize).handleName name := by
  have hlt : name.length < heap.tmpEntry.handleName.length := by
    rw [heap.tmpEntry.length_handleName]
    omega
  have hhead : heap.tmpEntry.handleName[name.length] = 0 := by
    rw [← hend, byteAt, List.getD_eq_getElem?_getD, List.getElem?_eq_getElem hlt,
      Option.getD_some]
  have hfresh : heap.tmpEntry.handleName.drop name.length =
      0 :: heap.tmpEntry.handleName.drop (name.length + 1) := by
    rw [List.drop_eq_getElem_cons hlt, hhead]
  show IsString (name ++ heap.tmpEntry.handleName.drop name.length) name
  rw [hfresh]
  exact isString_append_zero hzero _

private theorem registrationInv_append {s s' : ServerState} {clientSocket connection : Nat}
    {dataBuffer : List UInt8} {heap : Heap} (hinv : RegistrationInv s) {hsize : _}
    (hentries : s'.table.entries = s.table.entries ++
      [newEntry (UInt16.ofNat clientSocket) (nameBytes dataBuffer) heap hsize])
    (htableSize : s'.table.tableSize = s.table.nextSize)
    (hregistrations : s'.registrations =
      s.registrations ++ [⟨connection, clientSocket, nameBytes dataBuffer⟩])
    (hnew : nameBytes dataBuffer ∉ s.names)
    (hstorable : Storable s clientSocket (nameBytes dataBuffer) heap) : RegistrationInv s' where
  represents := by
    obtain ⟨hzero, hlen, hend, -, hpos, hlt⟩ := hstorable
    have hname := isString_newEntry (UInt16.ofNat clientSocket) hsize hzero hlen hend
    have hmap : s'.handleMap =
        s.handleMap ++ [(nameBytes dataBuffer, UInt16.ofNat clientSocket)] := by
      rw [ServerState.handleMap, hregistrations, List.map_append]
      rfl
    rw [hmap]
    exact hinv.represents.concat hentries hname (by rw [s.keys_handleMap]; exact hnew)
      (ofNat_ne_zero hpos hlt)
  unwrapped := by
    have hentryCount : s.table.entryCount < 49151 := by
      rw [hinv.represents.entryCount, ServerState.handleMap, List.length_map]
      exact hstorable.2.2.2.1
    rw [HandleTable.Unwrapped, htableSize]
    exact (hinv.unwrapped.nextSize hentryCount).2
  sockets := by
    intro r hr
    rw [hregistrations, List.mem_append, List.mem_singleton] at hr
    rcases hr with hr | rfl
    · exact hinv.sockets r hr
    · exact hstorable.2.2.2.2.2
  names := by
    intro r hr
    rw [hregistrations, List.mem_append, List.mem_singleton] at hr
    rcases hr with hr | rfl
    · exact hinv.names r hr
    · exact hstorable.1

private theorem registrationInv_step {s s' : ServerState} {action : Action} {output : List Event}
    (h : serverStep s action = some (output, s')) (hinv : RegistrationInv s)
    (hchecked : ActionChecked s action) :
    RegistrationInv s' ∧ RegistersOnce ⟨s, action, output, s'⟩ := by
  cases action with
  | accept clientSocket =>
    obtain ⟨-, -, rfl⟩ := serverStep_accept h
    refine ⟨⟨hinv.represents, hinv.unwrapped, hinv.sockets, hinv.names⟩, ?_⟩
    intro clientSocket name dataBuffer uninit heap _ haction
    cases haction
  | close clientSocket dataBuffer uninit heap =>
    obtain ⟨-, rfl⟩ := serverStep_close h
    refine ⟨⟨hinv.represents, hinv.unwrapped, hinv.sockets, hinv.names⟩, ?_⟩
    intro clientSocket name dataBuffer uninit heap _ haction
    cases haction
  | message clientSocket payload dataBuffer uninit heap =>
    obtain ⟨-, -, hne, hfit, hbuffer, -, -, -⟩ := serverStep_message h
    have hlong : 100 ≤ ((received payload dataBuffer).drop 4).length := by
      rw [List.length_drop, length_received payload dataBuffer hfit hbuffer]
      decide
    have hfinds := hinv.getSocket _ hlong
    rcases serverStep_message_cases h with ⟨hrefused, rfl⟩ |
      ⟨hflag, hnone, -, connection, hsize, -, hentries, htableSize, -, hregistrations⟩
    · refine ⟨hinv, ?_⟩
      intro clientSocket name dataBuffer uninit heap hproper haction
      cases haction
      refine ⟨?_, fun _ => rfl⟩
      intro hnew
      have hflag := received_registration name dataBuffer
      have hfound := hfinds.mp (hrefused hflag)
      have hold := hchecked hflag
      rw [RegistrationChecked, nameBytes_received name dataBuffer hproper.2.1] at hold
      exact absurd (hold.1 hfound hproper) hnew
    · have hfresh : ¬CheckFinds s (received payload dataBuffer) := by
        intro hold
        obtain ⟨found, hne, hfound⟩ := hfinds.mpr hold
        exact hne (Option.some.inj (hfound.symm.trans hnone))
      obtain ⟨hname, hstorable⟩ := (hchecked hflag).2 hfresh
      have hinv' := registrationInv_append hinv hentries htableSize hregistrations hname hstorable
      refine ⟨hinv', ?_⟩
      intro clientSocket name dataBuffer uninit heap hproper haction
      cases haction
      rw [nameBytes_received name dataBuffer hproper.2.1] at hname hregistrations
      refine ⟨fun _ => ⟨⟨_, hentries⟩, ?_⟩, fun hold => absurd hold hname⟩
      exact hinv'.handlesUnique.found ⟨connection, clientSocket, name⟩
        (by rw [hregistrations]; simp)

/-- Two clients register `a`. What an earlier message left behind the second name hides the first
from the duplicate check. -/
def takenTwice : List Action :=
  [.accept 4, .message 4 [1, 1, 97] (List.replicate 1024 0) 0 cleanHeap, .accept 5,
    .message 5 [1, 1, 97] (List.replicate 1024 98) 0 cleanHeap]

end Cpe464.Chat
