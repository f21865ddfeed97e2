import Cpe464.Chat.ServerRuns
import Mathlib.Data.List.Nodup

/-!
# The list of handles

`listSend` goes from each entry of the table to its socket and from the socket back to a handle,
which is that of the first entry with the socket. A client that registers two handles on one
connection, or registers over a descriptor that an earlier client left in the table, makes it name
one handle twice and another one not at all.
-/

namespace Cpe464.Chat

open Runs

def storedNames (T : HandleTable) : List (List UInt8) := T.entries.map fun e => cString e.handleName

def listedNames (T : HandleTable) : List (List UInt8) :=
  T.entries.map fun e => cString ((getHandle T e.socketNumber).getD [])

/-- The PDUs of a listing: the number of entries in network order, one PDU for each name and the
end of the list. -/
def listing (entryCount clientSocket : Nat) (names : List (List UInt8)) :
    List (Nat × List UInt8 × Int) :=
  [(clientSocket, 11 :: (toLE 4 entryCount).reverse, 5)] ++
    (names.map fun name =>
      (clientSocket, 12 :: UInt8.ofNat name.length :: name, (name.length : Int) + 2)) ++
    [(clientSocket, [13], 1)]

/-- The reply to any client is a listing of as many names as there are entries, in which every
stored name stands once and no other name stands. -/
def ListAccurate (T : HandleTable) : Prop :=
  ∀ clientSocket, ∃ names,
    sends (listSend T clientSocket) = listing T.entryCount clientSocket names ∧
    names.length = T.entryCount ∧ names.Nodup ∧ ∀ name, name ∈ names ↔ name ∈ storedNames T

/-! ## One table -/

section Terminated

variable {T : HandleTable} (hT : ∀ e ∈ T.entries, 0 ∈ e.handleName)

include hT

theorem getHandle_entry {e : HandleTableEntry} (he : e ∈ T.entries) :
    ∃ e' ∈ T.entries, e'.socketNumber = e.socketNumber ∧
      ∃ memory, getHandle T e.socketNumber = some memory ∧
        IsString memory (cString e'.handleName) := by
  cases hget : getHandle T e.socketNumber with
  | none => exact absurd rfl ((getHandle_eq_none_iff _ _).mp hget e he)
  | some memory =>
    obtain ⟨e', he', hsocket, rest, rfl⟩ := exists_of_getHandle hget
    exact ⟨e', he', hsocket, _, rfl, IsString.append ⟨hT e' he', rfl⟩ rest⟩

private theorem sends_listEntry (clientSocket : Nat) {e : HandleTableEntry} (he : e ∈ T.entries) :
    sends (listEntry T clientSocket e) =
      [(clientSocket, 12 :: UInt8.ofNat (cString ((getHandle T e.socketNumber).getD [])).length ::
          cString ((getHandle T e.socketNumber).getD []),
        ((cString ((getHandle T e.socketNumber).getD [])).length : Int) + 2)] := by
  obtain ⟨e', -, -, memory, hget, hname⟩ := getHandle_entry hT he
  have hshort : (cString memory).length % 256 = (cString memory).length := by
    have hlength := length_cString_le e'.handleName
    rw [e'.length_handleName] at hlength
    rw [hname.2]
    omega
  have hcopy : memory.take (cString memory).length = cString memory := by
    obtain ⟨rest, hmemory⟩ := exists_eq_cString_append hname.1
    rw [← List.prefix_iff_eq_take.mp]
    exact ⟨0 :: rest, hmemory.symm⟩
  simp only [listEntry, hget, strlen, if_pos hname.1, hshort, hcopy, Option.getD_some]
  rfl

private theorem sends_listEntries (clientSocket : Nat) (es : List HandleTableEntry)
    (hes : ∀ e ∈ es, e ∈ T.entries) :
    sends (es.flatMap (listEntry T clientSocket)) =
      (es.map fun e => cString ((getHandle T e.socketNumber).getD [])).map fun name =>
        (clientSocket, 12 :: UInt8.ofNat name.length :: name, (name.length : Int) + 2) := by
  induction es with
  | nil => rfl
  | cons e es ih =>
    rw [List.flatMap_cons, sends_append, ih (fun e he => hes e (List.mem_cons_of_mem _ he)),
      sends_listEntry hT clientSocket (hes e List.mem_cons_self)]
    rfl

theorem sends_listSend (clientSocket : Nat) :
    sends (listSend T clientSocket) = listing T.entryCount clientSocket (listedNames T) := by
  rw [listSend, sends_append, sends_append,
    sends_listEntries hT clientSocket T.entries (fun _ he => he), listing, htonl, toLE_swapBytes]
  rfl

theorem listedNames_of_nodup (hsockets : (T.entries.map HandleTableEntry.socketNumber).Nodup) :
    listedNames T = storedNames T := by
  apply List.map_congr_left
  intro e he
  obtain ⟨e', he', hsocket, memory, hget, hname⟩ := getHandle_entry hT he
  rw [hget, Option.getD_some, hname.2, List.inj_on_of_nodup_map hsockets he' he hsocket]

/-- The listing is accurate exactly when no two entries share a socket or a name. -/
theorem listAccurate_iff :
    ListAccurate T ↔
      (T.entries.map HandleTableEntry.socketNumber).Nodup ∧ (storedNames T).Nodup := by
  constructor
  · intro h
    obtain ⟨names, hsends, -, hnodup, hmem⟩ := h 0
    have hnames : names = listedNames T := by
      rw [sends_listSend hT, listing, listing] at hsends
      have hmiddle := List.append_cancel_left (List.append_cancel_right hsends)
      refine (List.map_injective_iff.mpr ?_ hmiddle).symm
      intro name name' hpdu
      simp only [Prod.mk.injEq, List.cons.injEq] at hpdu
      exact hpdu.2.1.2.2
    rw [hnames] at hnodup
    have hsockets : (T.entries.map HandleTableEntry.socketNumber).Nodup := by
      apply List.Nodup.of_map fun socket => cString ((getHandle T socket).getD [])
      rw [List.map_map]
      exact hnodup
    rw [listedNames_of_nodup hT hsockets] at hnodup
    exact ⟨hsockets, hnodup⟩
  · intro h clientSocket
    obtain ⟨hsockets, hnodup⟩ := h
    refine ⟨storedNames T, ?_, ?_, hnodup, fun _ => Iff.rfl⟩
    · rw [sends_listSend hT, listedNames_of_nodup hT hsockets]
    · rw [storedNames, List.length_map, HandleTable.entries, List.length_take, T.allocated]
      exact Nat.min_eq_left T.entryCount_le

end Terminated

theorem listAccurate_initial (heap : Heap) : ListAccurate (initialServer heap).table := by
  apply (listAccurate_iff _).mpr
  · simp [initialServer, createTable, HandleTable.entries, storedNames]
  · simp [initialServer, createTable, HandleTable.entries]

/-! ## Runs -/

/-- The name field that a registration would store has an end, by a terminator in the message or in
fresh memory. -/
def NameEnds : Action → Prop
  | .message _ payload dataBuffer _ heap =>
      byteAt (received payload dataBuffer) 2 = 1 →
        0 ∈ nameBytes (received payload dataBuffer) ++
          heap.tmpEntry.handleName.drop (nameBytes (received payload dataBuffer)).length
  | _ => True

instance : (action : Action) → Decidable (NameEnds action)
  | .message _ _ _ _ _ => inferInstanceAs (Decidable (_ → _))
  | .accept _ => inferInstanceAs (Decidable True)
  | .close _ _ _ _ => inferInstanceAs (Decidable True)

def storedName (dataBuffer : List UInt8) (heap : Heap) : List UInt8 :=
  cString (nameBytes dataBuffer ++ heap.tmpEntry.handleName.drop (nameBytes dataBuffer).length)

/-- A registration that passes the duplicate check comes over a descriptor without an entry, and
its name has no entry either. -/
def RegistersAfresh (s : ServerState) : Action → Prop
  | .message clientSocket payload dataBuffer _ heap =>
      byteAt (received payload dataBuffer) 2 = 1 →
      getSocket s.table ((received payload dataBuffer).drop 4) = some 0 →
        getHandle s.table (UInt16.ofNat clientSocket) = none ∧
        storedName (received payload dataBuffer) heap ∉ storedNames s.table
  | _ => True

instance (s : ServerState) : (action : Action) → Decidable (RegistersAfresh s action)
  | .message _ _ _ _ _ => inferInstanceAs (Decidable (_ → _ → _ ∧ _))
  | .accept _ => inferInstanceAs (Decidable True)
  | .close _ _ _ _ => inferInstanceAs (Decidable True)

/-- Every stored name has an end. -/
def NamesEnd (s : ServerState) : Prop := ∀ e ∈ s.table.entries, 0 ∈ e.handleName

private theorem listAccurate_append {T T' : HandleTable} {e : HandleTableEntry}
    (hT' : ∀ e ∈ T'.entries, 0 ∈ e.handleName) (hentries : T'.entries = T.entries ++ [e])
    (hT : ListAccurate T) :
    ListAccurate T' ↔
      getHandle T e.socketNumber = none ∧ cString e.handleName ∉ storedNames T := by
  have hterminated : ∀ e ∈ T.entries, 0 ∈ e.handleName := by
    intro e he
    exact hT' e (by rw [hentries]; exact List.mem_append_left _ he)
  obtain ⟨hsockets, hnames⟩ := (listAccurate_iff hterminated).mp hT
  have hstored : storedNames T' = storedNames T ++ [cString e.handleName] := by
    rw [storedNames, hentries, List.map_append]
    rfl
  have hsnoc {α : Type} {l : List α} (hl : l.Nodup) (x : α) : (l ++ [x]).Nodup ↔ x ∉ l := by
    rw [List.nodup_append_comm, List.singleton_append, List.nodup_cons]
    exact and_iff_left hl
  rw [listAccurate_iff hT', hstored, hsnoc hnames, hentries, List.map_append, List.map_singleton,
    hsnoc hsockets, getHandle_eq_none_iff]
  simp only [List.mem_map, not_exists, not_and, ne_eq]

/-- A step keeps the names terminated, and keeps an accurate listing accurate exactly when it
registers afresh. -/
theorem listAccurate_step {s s' : ServerState} {action : Action} {output : List Event}
    (h : serverStep s action = some (output, s')) (hends : NamesEnd s) (hname : NameEnds action) :
    NamesEnd s' ∧
      (ListAccurate s.table → (ListAccurate s'.table ↔ RegistersAfresh s action)) := by
  cases action with
  | accept clientSocket =>
    obtain ⟨-, -, rfl⟩ := serverStep_accept h
    exact ⟨hends, fun haccurate => iff_of_true haccurate trivial⟩
  | close clientSocket dataBuffer uninit heap =>
    obtain ⟨-, rfl⟩ := serverStep_close h
    exact ⟨hends, fun haccurate => iff_of_true haccurate trivial⟩
  | message clientSocket payload dataBuffer uninit heap =>
    rcases serverStep_message_cases h with ⟨hrefused, rfl⟩ |
      ⟨hflag, hnone, -, connection, hsize, -, hentries, -, -, -⟩
    · refine ⟨hends, fun haccurate => iff_of_true haccurate ?_⟩
      intro hflag hnone
      obtain ⟨found, hne, hfound⟩ := hrefused hflag
      exact absurd (Option.some.inj (hfound.symm.trans hnone)) hne
    · have hends' : NamesEnd s' := by
        intro e he
        rw [hentries, List.mem_append, List.mem_singleton] at he
        rcases he with he | rfl
        · exact hends e he
        · exact hname hflag
      refine ⟨hends', ?_⟩
      intro haccurate
      rw [listAccurate_append hends' hentries haccurate]
      constructor
      · intro hnew _ _
        exact hnew
      · intro hafresh
        exact hafresh hflag hnone

/-- In every run with terminated names the listing is accurate in all states exactly when every
accepted registration comes over a descriptor, and under a name, that has no entry yet. -/
theorem listings_accurate_iff (heap : Heap) (actions : List Action)
    (moments : List (Moment ServerState Action (List Event))) (last : ServerState)
    (hrun : run serverStep (initialServer heap) actions = some (moments, last))
    (hnames : ∀ m ∈ moments, NameEnds m.action) :
    (∀ m ∈ moments, ListAccurate m.before.table ∧ ListAccurate m.after.table) ↔
      ∀ m ∈ moments, RegistersAfresh m.before m.action := by
  have hinitial : NamesEnd (initialServer heap) := by
    intro e he
    simp [initialServer, createTable, HandleTable.entries] at he
  constructor
  · intro haccurate
    obtain ⟨-, hmoments⟩ := run_invariant NamesEnd (fun _ action => NameEnds action)
      (fun m => ListAccurate m.before.table →
        (ListAccurate m.after.table ↔ RegistersAfresh m.before m.action))
      (fun _ _ _ _ => listAccurate_step) hinitial hrun hnames
    intro m hm
    obtain ⟨-, -, hstep⟩ := hmoments m hm
    exact (hstep (haccurate m hm).1).mp (haccurate m hm).2
  · intro hafresh
    obtain ⟨-, hmoments⟩ := run_invariant (fun s => NamesEnd s ∧ ListAccurate s.table)
      (fun s action => NameEnds action ∧ RegistersAfresh s action) (fun _ => True)
      (by
        intro s action output s' h hs hpermitted
        obtain ⟨hends, hstep⟩ := listAccurate_step h hs.1 hpermitted.1
        exact ⟨⟨hends, (hstep hs.2).mpr hpermitted.2⟩, trivial⟩)
      ⟨hinitial, listAccurate_initial heap⟩ hrun (fun m hm => ⟨hnames m hm, hafresh m hm⟩)
    intro m hm
    obtain ⟨hbefore, hafter, -⟩ := hmoments m hm
    exact ⟨hbefore.2, hafter.2⟩

/-- `a` and `b` register, each on a connection of its own. -/
def registerTwo : List Action :=
  [.accept 4, .message 4 [1, 2, 97, 0] (List.replicate 1024 7) 0 dirtyHeap, .accept 5,
    .message 5 [1, 2, 98, 0] (List.replicate 1024 7) 0 dirtyHeap]

theorem listings_accurate_two :
    ∃ moments last, run serverStep (initialServer dirtyHeap) registerTwo = some (moments, last) ∧
      ∀ m ∈ moments, ListAccurate m.before.table ∧ ListAccurate m.after.table := by
  obtain ⟨moments, last, hrun, hnames, hafresh⟩ :=
    exists_run_of serverStep (initialServer dirtyHeap) registerTwo
      (fun moments => (∀ m ∈ moments, NameEnds m.action) ∧
        ∀ m ∈ moments, RegistersAfresh m.before m.action) (by decide +kernel)
  exact ⟨moments, last, hrun,
    (listings_accurate_iff dirtyHeap registerTwo moments last hrun hnames).mpr hafresh⟩

/-- One client registers `a` and then `b`; the listing names `a` twice. -/
def registerTwice : List Action :=
  [.accept 4, .message 4 [1, 2, 97, 0] (List.replicate 1024 7) 0 dirtyHeap,
    .message 4 [1, 2, 98, 0] (List.replicate 1024 7) 0 dirtyHeap]

theorem listing_names_twice :
    ∃ moments last, run serverStep (initialServer dirtyHeap) registerTwice = some (moments, last) ∧
      (∀ m ∈ moments, NameEnds m.action) ∧ ¬∀ m ∈ moments, ListAccurate m.after.table := by
  obtain ⟨moments, last, hrun, hnames, m, hm, hends, hshared⟩ :=
    exists_run_of serverStep (initialServer dirtyHeap) registerTwice
      (fun moments => (∀ m ∈ moments, NameEnds m.action) ∧
        ∃ m ∈ moments, (∀ e ∈ m.after.table.entries, 0 ∈ e.handleName) ∧
          ¬(m.after.table.entries.map HandleTableEntry.socketNumber).Nodup) (by decide +kernel)
  refine ⟨moments, last, hrun, hnames, ?_⟩
  intro haccurate
  exact hshared ((listAccurate_iff hends).mp (haccurate m hm)).1

end Cpe464.Chat
