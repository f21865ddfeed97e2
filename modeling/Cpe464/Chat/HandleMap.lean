import Cpe464.Chat.HandleTable
import Cpe464.Framework.FirstWriter

/-!
# The handle table as a first-writer-wins map

The purpose of the table is a map from handles to sockets in which the first registration of a
handle wins. `Represents` relates a table to that map, and sequences of `add_entry` calls with
proper names refine it.
-/

namespace Cpe464.Chat

open FirstWriter

def HandleTableEntry.pair (e : HandleTableEntry) : List UInt8 × UInt16 :=
  (cString e.handleName, e.socketNumber)

/-- The entries in use are the pairs of a map: terminated, pairwise distinct names and nonzero
sockets. -/
structure Represents (T : HandleTable) (m : List (List UInt8 × UInt16)) : Prop where
  terminated : ∀ e ∈ T.entries, 0 ∈ e.handleName
  contents : T.entries.map HandleTableEntry.pair = m
  nodup : (m.map Prod.fst).Nodup
  nonzero : ∀ w ∈ m, w.2 ≠ 0

theorem HandleTable.length_entries (T : HandleTable) : T.entries.length = T.entryCount := by
  have := T.entryCount_le
  rw [HandleTable.entries, List.length_take, T.allocated]
  omega

theorem Represents.entryCount {T : HandleTable} {m : List (List UInt8 × UInt16)}
    (h : Represents T m) : T.entryCount = m.length := by
  rw [← h.contents, List.length_map, T.length_entries]

theorem represents_createTable (heap : Heap) : Represents (createTable heap) [] := by
  constructor <;> simp [createTable, HandleTable.entries]

theorem Represents.socketOf {T : HandleTable} {m : List (List UInt8 × UInt16)}
    (h : Represents T m) (name : List UInt8) : T.socketOf name = (lookup m name).getD 0 := by
  have hP : T.socketOf name = firstSocket (fun e => e.pair.1 = name) T.entries := by
    apply firstSocket_congr
    intro e he
    simp [IsString, h.terminated e he, HandleTableEntry.pair]
  rw [hP, ← h.contents, lookup, firstSocket, List.find?_map, Option.map_map]
  rfl

theorem Represents.socketOf_eq_zero_iff {T : HandleTable} {m : List (List UInt8 × UInt16)}
    (h : Represents T m) (name : List UInt8) :
    T.socketOf name = 0 ↔ name ∉ m.map Prod.fst := by
  rw [h.socketOf, ← lookup_eq_none_iff]
  cases hl : lookup m name with
  | none => simp
  | some s =>
    have := h.nonzero _ (mem_of_lookup_eq_some hl)
    simpa using this

theorem Represents.getSocket {T : HandleTable} {m : List (List UInt8 × UInt16)}
    (h : Represents T m) {memory name : List UInt8} (hname : IsString memory name) :
    getSocket T memory = some ((lookup m name).getD 0) := by
  rw [← h.socketOf]
  by_cases hlen : name.length < 100
  · exact getSocket_eq_socketOf T hname hlen
  · have hmem := hname.length_lt
    rw [getSocket_of_terminated T h.terminated memory (by omega), if_pos hname.1, hname.2]

theorem Represents.concat {T T' : HandleTable} {m : List (List UInt8 × UInt16)}
    (h : Represents T m) {e : HandleTableEntry} (hentries : T'.entries = T.entries ++ [e])
    {name : List UInt8} (hname : IsString e.handleName name) (hnew : name ∉ m.map Prod.fst)
    (hsocket : e.socketNumber ≠ 0) : Represents T' (m ++ [(name, e.socketNumber)]) where
  terminated := by
    intro e' he'
    rw [hentries, List.mem_append, List.mem_singleton] at he'
    rcases he' with he' | rfl
    · exact h.terminated e' he'
    · exact hname.1
  contents := by
    rw [hentries, List.map_append, h.contents]
    simp [HandleTableEntry.pair, hname.2]
  nodup := by
    have := nodup_keys_write h.nodup (name, e.socketNumber)
    rwa [write_of_notMem hnew] at this
  nonzero := by
    intro w hw
    rw [List.mem_append, List.mem_singleton] at hw
    rcases hw with hw | rfl
    · exact h.nonzero w hw
    · exact hsocket

private theorem Represents.getSocket_getHandle {T : HandleTable} {m : List (List UInt8 × UInt16)}
    (h : Represents T m) {e : HandleTableEntry} (he : e ∈ T.entries) :
    ∃ memory, getHandle T e.socketNumber = some memory ∧
      Cpe464.Chat.getSocket T memory = some e.socketNumber := by
  cases hget : getHandle T e.socketNumber with
  | none => exact absurd rfl ((getHandle_eq_none_iff _ _).mp hget e he)
  | some memory =>
    obtain ⟨e', he', hsocket, rest, rfl⟩ := exists_of_getHandle hget
    have hpair : (cString e'.handleName, e'.socketNumber) ∈ m := by
      rw [← h.contents]
      exact List.mem_map_of_mem he'
    have hname : IsString (e'.handleName ++ rest) (cString e'.handleName) :=
      IsString.append ⟨h.terminated e' he', rfl⟩ rest
    refine ⟨_, rfl, ?_⟩
    rw [h.getSocket hname, lookup_eq_some_of_mem h.nodup hpair, hsocket, Option.getD_some]

/-! ## Capacity -/

/-- The sizes the table takes before the size wraps around: 2, 5, 11, up to 49151. -/
def HandleTable.Unwrapped (T : HandleTable) : Prop := ∃ k ≤ 14, T.tableSize + 1 = 3 * 2 ^ k

theorem unwrapped_createTable (heap : Heap) : (createTable heap).Unwrapped := ⟨0, by decide, rfl⟩

theorem HandleTable.Unwrapped.nextSize {T : HandleTable} (h : T.Unwrapped)
    (hcount : T.entryCount < 49151) :
    T.HasRoom ∧ ∃ k ≤ 14, T.nextSize + 1 = 3 * 2 ^ k := by
  obtain ⟨k, hk, hsize⟩ := h
  have hle := T.entryCount_le
  unfold HandleTable.HasRoom HandleTable.nextSize
  by_cases hfull : T.entryCount ≥ T.tableSize
  · have hk14 : k ≠ 14 := by
      rintro rfl
      omega
    have hpow : 2 ^ k ≤ 2 ^ 13 := Nat.pow_le_pow_right (by decide) (by omega)
    have hwrap : (T.tableSize * 2 + 1) % 65536 = T.tableSize * 2 + 1 :=
      Nat.mod_eq_of_lt (by omega)
    rw [if_pos hfull, hwrap]
    exact ⟨by omega, k + 1, by omega, by rw [Nat.pow_succ]; omega⟩
  · rw [if_neg hfull]
    exact ⟨by omega, k, hk, hsize⟩

/-! ## Sequences of calls -/

/-- One `add_entry` call with a proper C string: the name, what lies in memory behind its
terminator, and what the allocations of the call return. -/
structure AddCall where
  socketNumber : UInt16
  name : List UInt8
  behind : List UInt8
  heap : Heap

def AddCall.run (c : AddCall) (T : HandleTable) : Except AddFault (Int × HandleTable) :=
  addEntry c.socketNumber (c.name ++ 0 :: c.behind) (c.name.length + 1) T c.heap

def AddCall.pair (c : AddCall) : List UInt8 × UInt16 := (c.name, c.socketNumber)

/-- Calls one after the other: the results and the table at the end. -/
def addEntries : HandleTable → List AddCall → Except AddFault (List Int × HandleTable)
  | T, [] => .ok ([], T)
  | T, c :: cs =>
      match c.run T with
      | .error f => .error f
      | .ok (ret, T') =>
        match addEntries T' cs with
        | .error f => .error f
        | .ok (rets, T'') => .ok (ret :: rets, T'')

def firstWriterReturns (calls : List AddCall) : List Int :=
  (List.range calls.length).map fun i =>
    if (calls[i]?.map AddCall.name) ∈ (calls.take i).map (fun c => some c.name) then 2 else 0

/-- What a sequence of calls from the empty table leaves. -/
structure IsFirstWriterTable (calls : List AddCall) (T : HandleTable) : Prop where
  count : T.entryCount = (calls.map AddCall.name).dedup.length
  capacity : T.entryCount ≤ T.tableSize ∧ T.entryCount ≤ T.handleTableEntries.length
  getSocket : ∀ h behind, 0 ∉ h →
    getSocket T (h ++ 0 :: behind) = some ((lookup (calls.map AddCall.pair) h).getD 0)
  getHandle : ∀ e ∈ T.entries, ∃ memory, getHandle T e.socketNumber = some memory ∧
    Cpe464.Chat.getSocket T memory = some e.socketNumber

theorem AddCall.run_new {T : HandleTable} (c : AddCall) (hname : 0 ∉ c.name)
    (hlen : c.name.length ≤ 99) (hnone : getSocket T (c.name ++ 0 :: c.behind) = some 0)
    (hroom : T.HasRoom) :
    ∃ T' e, c.run T = .ok (0, T') ∧ T'.entries = T.entries ++ [e] ∧
      IsString e.handleName c.name ∧ e.socketNumber = c.socketNumber ∧
      T'.tableSize = T.nextSize := by
  have hsize : c.name.length + 1 ≤ (c.name ++ 0 :: c.behind).length := by simp
  obtain ⟨T', hrun, hentries, -, htableSize⟩ :=
    addEntry_new hnone hsize (by omega) hroom c.socketNumber c.heap
  refine ⟨T', _, hrun, hentries, ?_, rfl, htableSize⟩
  have htake : (c.name ++ 0 :: c.behind).take (c.name.length + 1) = c.name ++ [0] := by
    rw [List.take_append]
    simp
  simp only [newEntry, htake]
  rw [List.append_assoc]
  exact isString_append_zero hname _

private theorem AddCall.run_spec {T : HandleTable} {m : List (List UInt8 × UInt16)}
    (h : Represents T m) (hsize : T.Unwrapped) (c : AddCall) (hname : 0 ∉ c.name)
    (hlen : c.name.length ≤ 99) (hsocket : c.socketNumber ≠ 0)
    (hroom : (write m c.pair).length ≤ 49151) :
    ∃ T', c.run T = .ok (if c.name ∈ m.map Prod.fst then 2 else 0, T') ∧
      Represents T' (write m c.pair) ∧ T'.Unwrapped ∧ T.entries <+: T'.entries ∧
      (c.name ∈ m.map Prod.fst → T' = T) := by
  have hfound := h.getSocket (isString_append_zero hname c.behind)
  rw [← h.socketOf] at hfound
  by_cases hmem : c.name ∈ m.map Prod.fst
  · have hne : T.socketOf c.name ≠ 0 := fun hz => (h.socketOf_eq_zero_iff _).mp hz hmem
    refine ⟨T, ?_, ?_, hsize, List.prefix_rfl, fun _ => rfl⟩
    · rw [if_pos hmem]
      exact addEntry_found hfound hne _ _ _
    · rwa [write_of_mem hmem]
  · rw [(h.socketOf_eq_zero_iff _).mpr hmem] at hfound
    rw [write_of_notMem hmem] at hroom ⊢
    have hcount : T.entryCount < 49151 := by
      rw [List.length_append, List.length_singleton] at hroom
      rw [h.entryCount]
      omega
    obtain ⟨hspace, hnext⟩ := hsize.nextSize hcount
    obtain ⟨T', e, hrun, hentries, hstring, hsock, htableSize⟩ :=
      c.run_new hname hlen hfound hspace
    refine ⟨T', ?_, ?_, ?_, ?_, fun hm => absurd hm hmem⟩
    · rw [if_neg hmem]
      exact hrun
    · rw [AddCall.pair, ← hsock]
      exact h.concat hentries hstring hmem (hsock ▸ hsocket)
    · rw [HandleTable.Unwrapped, htableSize]
      exact hnext
    · rw [hentries]
      exact List.prefix_append _ _

theorem addEntries_concat {T T' T'' : HandleTable} {calls : List AddCall} {rets : List Int}
    {ret : Int} {c : AddCall} (h : addEntries T calls = .ok (rets, T'))
    (hc : c.run T' = .ok (ret, T'')) : addEntries T (calls ++ [c]) = .ok (rets ++ [ret], T'') := by
  induction calls generalizing T rets with
  | nil =>
    simp only [addEntries, Except.ok.injEq, Prod.mk.injEq] at h
    obtain ⟨rfl, rfl⟩ := h
    simp [addEntries, hc]
  | cons c' calls ih =>
    rw [addEntries] at h
    cases hrun : c'.run T with
    | error f => simp [hrun] at h
    | ok out =>
      obtain ⟨ret', T₁⟩ := out
      cases hrest : addEntries T₁ calls with
      | error f => simp [hrun, hrest] at h
      | ok out =>
        obtain ⟨rets', T₂⟩ := out
        simp only [hrun, hrest, Except.ok.injEq, Prod.mk.injEq] at h
        obtain ⟨rfl, rfl⟩ := h
        rw [List.cons_append, addEntries]
        simp only [hrun, ih hrest]
        rfl

private theorem firstWriterReturns_concat (calls : List AddCall) (c : AddCall) :
    firstWriterReturns (calls ++ [c]) =
      firstWriterReturns calls ++ [if c.name ∈ calls.map AddCall.name then 2 else 0] := by
  unfold firstWriterReturns
  rw [List.length_append, List.length_singleton, List.range_succ, List.map_append]
  congr 1
  · apply List.map_congr_left
    intro i hi
    have hlt : i < calls.length := by simpa using hi
    rw [List.getElem?_append_left hlt, List.take_append_of_le_length (Nat.le_of_lt hlt)]
  · simp

private theorem addEntries_represents (heap : Heap) (calls : List AddCall)
    (hnames : ∀ c ∈ calls, 0 ∉ c.name ∧ c.name.length ≤ 99 ∧ c.socketNumber ≠ 0)
    (hdistinct : (calls.map AddCall.name).dedup.length ≤ 49151) :
    ∃ T, addEntries (createTable heap) calls = .ok (firstWriterReturns calls, T) ∧
      Represents T (writes (calls.map AddCall.pair)) ∧ T.Unwrapped ∧
      ∀ before after, calls = before ++ after →
        ∃ T₀, addEntries (createTable heap) before = .ok (firstWriterReturns before, T₀) ∧
          Represents T₀ (writes (before.map AddCall.pair)) ∧ T₀.Unwrapped ∧
          T₀.entries <+: T.entries := by
  induction calls using List.reverseRecOn with
  | nil =>
    refine ⟨createTable heap, rfl, represents_createTable heap, unwrapped_createTable heap, ?_⟩
    intro before after hsplit
    obtain ⟨rfl, rfl⟩ := List.append_eq_nil_iff.mp hsplit.symm
    exact ⟨createTable heap, rfl, represents_createTable heap, unwrapped_createTable heap,
      List.prefix_rfl⟩
  | append_singleton calls c ih =>
    have hkeys : ∀ cs : List AddCall,
        (writes (cs.map AddCall.pair)).length = (cs.map AddCall.name).dedup.length := by
      intro cs
      rw [length_writes, List.map_map]
      rfl
    have hmem : c.name ∈ (writes (calls.map AddCall.pair)).map Prod.fst ↔
        c.name ∈ calls.map AddCall.name := by
      rw [mem_keys_writes, List.map_map]
      rfl
    have hlast : writes ((calls ++ [c]).map AddCall.pair) =
        write (writes (calls.map AddCall.pair)) c.pair := by
      rw [List.map_append, List.map_singleton, writes_concat]
    have hroom : (write (writes (calls.map AddCall.pair)) c.pair).length ≤ 49151 := by
      rw [← hlast, hkeys]
      exact hdistinct
    have hfewer : (calls.map AddCall.name).dedup.length ≤ 49151 := by
      rw [← hkeys]
      exact (prefix_write _ c.pair).length_le.trans hroom
    obtain ⟨T, hrun, hrep, hsize, hsplits⟩ := ih (fun c hc => hnames c (by simp [hc])) hfewer
    obtain ⟨hname, hlen, hsocket⟩ := hnames c (by simp)
    obtain ⟨T', hcall, hrep', hsize', hprefix, -⟩ :=
      c.run_spec hrep hsize hname hlen hsocket hroom
    have hall : addEntries (createTable heap) (calls ++ [c]) =
        .ok (firstWriterReturns (calls ++ [c]), T') := by
      rw [addEntries_concat hrun hcall, firstWriterReturns_concat]
      simp only [hmem]
    rw [← hlast] at hrep'
    refine ⟨T', hall, hrep', hsize', ?_⟩
    intro before after hsplit
    rcases List.eq_nil_or_concat after with rfl | ⟨after', c', rfl⟩
    · rw [List.append_nil] at hsplit
      exact ⟨T', by rw [← hsplit, hall], by rw [← hsplit]; exact hrep', hsize', List.prefix_rfl⟩
    · rw [List.concat_eq_append, ← List.append_assoc] at hsplit
      have hinit := List.append_inj_left' hsplit rfl
      obtain ⟨T₀, hrun₀, hrep₀, hsize₀, hprefix₀⟩ := hsplits before after' hinit
      exact ⟨T₀, hrun₀, hrep₀, hsize₀, hprefix₀.trans hprefix⟩

private theorem Represents.isFirstWriterTable {T : HandleTable} {calls : List AddCall}
    (h : Represents T (writes (calls.map AddCall.pair))) : IsFirstWriterTable calls T where
  count := by
    rw [h.entryCount, length_writes, List.map_map]
    rfl
  capacity := by
    refine ⟨T.entryCount_le, ?_⟩
    rw [T.allocated]
    exact T.entryCount_le
  getSocket := by
    intro name behind hname
    rw [h.getSocket (isString_append_zero hname behind), lookup_writes]
  getHandle := by
    intro e he
    exact h.getSocket_getHandle he

/-- Whatever fresh memory holds, a sequence of `add_entry` calls runs as a first-writer-wins map
does: after every prefix the table is that map, stored entries keep their place, and a call that
returns 2 leaves the table as it is. -/
theorem addEntries_firstWriter (heap : Heap) (calls : List AddCall)
    (hnames : ∀ c ∈ calls, 0 ∉ c.name ∧ c.name.length ≤ 99 ∧ c.socketNumber ≠ 0)
    (hdistinct : (calls.map AddCall.name).dedup.length ≤ 49151) :
    ∃ T, addEntries (createTable heap) calls = .ok (firstWriterReturns calls, T) ∧
      IsFirstWriterTable calls T ∧
      ∀ before c after, calls = before ++ c :: after →
        ∃ T₀, addEntries (createTable heap) before = .ok (firstWriterReturns before, T₀) ∧
          IsFirstWriterTable before T₀ ∧ T₀.entries <+: T.entries ∧
          (c.name ∈ before.map AddCall.name → c.run T₀ = .ok (2, T₀)) := by
  obtain ⟨T, hrun, hrep, -, hsplits⟩ := addEntries_represents heap calls hnames hdistinct
  refine ⟨T, hrun, hrep.isFirstWriterTable, ?_⟩
  intro before c after hsplit
  obtain ⟨T₀, hrun₀, hrep₀, -, hprefix⟩ := hsplits before (c :: after) hsplit
  refine ⟨T₀, hrun₀, hrep₀.isFirstWriterTable, hprefix, ?_⟩
  intro hmem
  have hkey : c.name ∈ (writes (before.map AddCall.pair)).map Prod.fst := by
    rw [mem_keys_writes, List.map_map]
    exact hmem
  have hname := (hnames c (by simp [hsplit])).1
  have hfound := hrep₀.getSocket (isString_append_zero hname c.behind)
  rw [← hrep₀.socketOf] at hfound
  have hne : T₀.socketOf c.name ≠ 0 := by
    intro hz
    exact (hrep₀.socketOf_eq_zero_iff _).mp hz hkey
  exact addEntry_found hfound hne _ _ _

theorem addEntries_firstWriter_three :
    let calls : List AddCall :=
      [⟨4, [97], [9], dirtyHeap⟩, ⟨5, [98], [], dirtyHeap⟩, ⟨6, [97], [0], dirtyHeap⟩]
    ∃ T, addEntries (createTable dirtyHeap) calls = .ok (firstWriterReturns calls, T) ∧
      IsFirstWriterTable calls T ∧
      ∀ before c after, calls = before ++ c :: after →
        ∃ T₀, addEntries (createTable dirtyHeap) before = .ok (firstWriterReturns before, T₀) ∧
          IsFirstWriterTable before T₀ ∧ T₀.entries <+: T.entries ∧
          (c.name ∈ before.map AddCall.name → c.run T₀ = .ok (2, T₀)) :=
  addEntries_firstWriter dirtyHeap _ (by decide) (by decide)

end Cpe464.Chat
