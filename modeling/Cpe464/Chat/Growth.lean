import Cpe464.Chat.HandleMap

/-!
# How the handle table grows

A full table grows from `n` to `2 * n + 1` entries. The new size is computed as an `int` but stored
in a `uint16_t`, so that the sizes are 2, 5, 11 and so on up to 49151, and then 32767: the table
shrinks under its entries.
-/

namespace Cpe464.Chat

/-- The entry is stored inside the array, whose size is `table_size`, and the array has not become
too small for what the table holds. -/
structure GrowsInside (T : HandleTable) (heap : Heap) : Prop where
  index : T.entryCount < (T.nextEntries heap).length
  allocated : T.nextSize = (T.nextEntries heap).length
  keeps : T.entryCount ≤ T.nextSize

private theorem HandleTable.HasRoom.growsInside {T : HandleTable} (h : T.HasRoom) (heap : Heap) :
    GrowsInside T heap where
  index := by
    rw [T.length_nextEntries]
    exact h
  allocated := (T.length_nextEntries heap).symm
  keeps := Nat.le_of_lt h

/-- Every call finds a table to which it adds its entry inside the array. -/
def TableGrows (heap : Heap) (calls : List AddCall) : Prop :=
  ∀ before c after, calls = before ++ c :: after →
    ∃ rets T, addEntries (createTable heap) before = .ok (rets, T) ∧ GrowsInside T c.heap

/-- The table after calls with distinct names. -/
structure HoldsCalls (calls : List AddCall) (T : HandleTable) : Prop where
  terminated : ∀ e ∈ T.entries, 0 ∈ e.handleName
  names : T.entries.map (fun e => cString e.handleName) = calls.map AddCall.name
  unwrapped : T.Unwrapped

theorem HoldsCalls.entryCount {calls : List AddCall} {T : HandleTable} (h : HoldsCalls calls T) :
    T.entryCount = calls.length := by
  have hlength := congrArg List.length h.names
  rwa [List.length_map, List.length_map, T.length_entries] at hlength

theorem HoldsCalls.getSocket {calls : List AddCall} {T : HandleTable} (h : HoldsCalls calls T)
    {c : AddCall} (hname : 0 ∉ c.name) (hlen : c.name.length ≤ 99)
    (hnew : c.name ∉ calls.map AddCall.name) :
    getSocket T (c.name ++ 0 :: c.behind) = some 0 := by
  rw [getSocket_eq_socketOf T (isString_append_zero hname c.behind) (by omega)]
  by_contra hfound
  obtain ⟨e, he, hstring, -⟩ := exists_of_socketOf (fun hz => hfound (congrArg some hz))
  apply hnew
  rw [← h.names, ← hstring.2]
  exact List.mem_map_of_mem he

theorem HoldsCalls.run {calls : List AddCall} {T : HandleTable} (h : HoldsCalls calls T)
    {c : AddCall} (hname : 0 ∉ c.name) (hlen : c.name.length ≤ 99)
    (hnew : c.name ∉ calls.map AddCall.name) (hfew : calls.length < 49151) :
    T.HasRoom ∧ ∃ T', c.run T = .ok (0, T') ∧ HoldsCalls (calls ++ [c]) T' := by
  obtain ⟨hroom, hnext⟩ := h.unwrapped.nextSize (by rw [h.entryCount]; exact hfew)
  obtain ⟨T', e, hrun, hentries, hstring, -, hsize⟩ :=
    c.run_new hname hlen (h.getSocket hname hlen hnew) hroom
  refine ⟨hroom, T', hrun, ?_, ?_, ?_⟩
  · intro e' he'
    rw [hentries, List.mem_append, List.mem_singleton] at he'
    rcases he' with he' | rfl
    · exact h.terminated e' he'
    · exact hstring.1
  · rw [hentries, List.map_append, List.map_append, h.names, List.map_singleton,
      List.map_singleton, hstring.2]
  · rw [HandleTable.Unwrapped, hsize]
    exact hnext

private theorem addEntries_holdsCalls (heap : Heap) (calls : List AddCall)
    (hnames : ∀ c ∈ calls, 0 ∉ c.name ∧ c.name.length ≤ 99)
    (hdistinct : (calls.map AddCall.name).Nodup) (hfew : calls.length ≤ 49151) :
    ∃ rets T, addEntries (createTable heap) calls = .ok (rets, T) ∧ HoldsCalls calls T := by
  induction calls using List.reverseRecOn with
  | nil =>
    refine ⟨[], createTable heap, rfl, ?_, rfl, unwrapped_createTable heap⟩
    simp [createTable, HandleTable.entries]
  | append_singleton calls c ih =>
    rw [List.length_append, List.length_singleton] at hfew
    rw [List.map_append, List.map_singleton, List.nodup_append] at hdistinct
    obtain ⟨hcalls, -, hnew⟩ := hdistinct
    obtain ⟨rets, T, hrun, hholds⟩ :=
      ih (fun c hc => hnames c (by simp [hc])) hcalls (by omega)
    obtain ⟨hname, hlen⟩ := hnames c (by simp)
    obtain ⟨-, T', hcall, hholds'⟩ := hholds.run hname hlen
      (fun hmem => hnew _ hmem _ (List.mem_singleton_self _) rfl) (by omega)
    exact ⟨_, T', addEntries_concat hrun hcall, hholds'⟩

private theorem HandleTable.Unwrapped.not_hasRoom {T : HandleTable} (h : T.Unwrapped)
    (hcount : T.entryCount = 49151) : ¬T.HasRoom := by
  obtain ⟨k, hk, hsize⟩ := h
  have hle := T.entryCount_le
  have hpow : 2 ^ k ≤ 2 ^ 14 := Nat.pow_le_pow_right (by decide) hk
  have hfull : T.tableSize = 49151 := by omega
  unfold HandleTable.HasRoom HandleTable.nextSize
  rw [if_pos (by omega), hfull, hcount]
  decide

private theorem not_tableGrows_of_length (heap : Heap) (calls : List AddCall)
    (hnames : ∀ c ∈ calls, 0 ∉ c.name ∧ c.name.length ≤ 99)
    (hdistinct : (calls.map AddCall.name).Nodup) (hmany : 49151 < calls.length) :
    ¬TableGrows heap calls := by
  intro hgrows
  have hbefore : (calls.take 49151).length = 49151 := by
    rw [List.length_take]
    omega
  have hsplit : calls = calls.take 49151 ++ calls[49151] :: calls.drop 49152 := by
    rw [← List.drop_eq_getElem_cons hmany, List.take_append_drop]
  obtain ⟨rets, T, hrun, hholds⟩ := addEntries_holdsCalls heap (calls.take 49151)
    (fun c hc => hnames c (List.mem_of_mem_take hc))
    (hdistinct.sublist ((List.take_sublist 49151 calls).map AddCall.name)) (by omega)
  obtain ⟨rets', T', hrun', hinside⟩ := hgrows _ _ _ hsplit
  rw [hrun] at hrun'
  cases hrun'
  have hindex := hinside.index
  rw [T.length_nextEntries] at hindex
  exact hholds.unwrapped.not_hasRoom (by rw [hholds.entryCount, hbefore]) hindex

/-- Calls of `add_entry` with distinct names keep the table inside its allocation as long as there
are no more than 49151 of them. -/
theorem tableGrows_iff (heap : Heap) (calls : List AddCall)
    (hnames : ∀ c ∈ calls, 0 ∉ c.name ∧ c.name.length ≤ 99)
    (hdistinct : (calls.map AddCall.name).Nodup) :
    TableGrows heap calls ↔ calls.length ≤ 49151 := by
  constructor
  · intro hgrows
    by_contra hmany
    exact not_tableGrows_of_length heap calls hnames hdistinct (by omega) hgrows
  · intro hfew before c after hsplit
    have hlength := congrArg List.length hsplit
    rw [List.length_append, List.length_cons] at hlength
    have hnames' : ∀ c' ∈ before, 0 ∉ c'.name ∧ c'.name.length ≤ 99 := by
      intro c' hc'
      exact hnames c' (by rw [hsplit]; simp [hc'])
    rw [hsplit, List.map_append, List.nodup_append] at hdistinct
    obtain ⟨hbefore, -, hnew⟩ := hdistinct
    obtain ⟨rets, T, hrun, hholds⟩ :=
      addEntries_holdsCalls heap before hnames' hbefore (by omega)
    obtain ⟨hname, hlen⟩ := hnames c (by rw [hsplit]; simp)
    obtain ⟨hroom, -⟩ := hholds.run hname hlen
      (fun hmem => hnew _ hmem _ (by simp) rfl) (by omega)
    exact ⟨rets, T, hrun, hroom.growsInside c.heap⟩

theorem tableGrows_three :
    TableGrows dirtyHeap
      [⟨4, [97], [9], dirtyHeap⟩, ⟨4, [98], [], dirtyHeap⟩, ⟨5, [97, 98], [0], dirtyHeap⟩] :=
  (tableGrows_iff dirtyHeap _ (by decide) (by decide)).mpr (by decide)

/-- A name of three bytes for every number below 2^21. -/
def numberedName (n : Nat) : List UInt8 :=
  [UInt8.ofNat (1 + n % 128), UInt8.ofNat (1 + n / 128 % 128), UInt8.ofNat (1 + n / 16384 % 128)]

/-- One client registers 49152 names on one socket. -/
def manyCalls : List AddCall :=
  (List.range 49152).map fun n => ⟨4, numberedName n, [], dirtyHeap⟩

private theorem numberedName_inj {m n : Nat} (hm : m < 49152) (hn : n < 49152)
    (h : numberedName m = numberedName n) : m = n := by
  have hbyte (k : Nat) : (UInt8.ofNat (1 + k % 128)).toNat = 1 + k % 128 := by
    rw [UInt8.toNat_ofNat']
    omega
  simp only [numberedName, List.cons.injEq, and_true] at h
  obtain ⟨hlow, hmiddle, hhigh⟩ := h
  have hlow := congrArg UInt8.toNat hlow
  have hmiddle := congrArg UInt8.toNat hmiddle
  have hhigh := congrArg UInt8.toNat hhigh
  rw [hbyte, hbyte] at hlow hmiddle hhigh
  omega

/-- The last call stores entry 49151 in an array that `srealloc` has cut to 32767 entries. -/
theorem manyCalls_leave_table : ¬TableGrows dirtyHeap manyCalls := by
  apply not_tableGrows_of_length
  · intro c hc
    obtain ⟨n, -, rfl⟩ := List.mem_map.mp hc
    have hbyte (k : Nat) : (0 : UInt8) ≠ UInt8.ofNat (1 + k % 128) := by
      intro h
      have hvalue := congrArg UInt8.toNat h
      rw [UInt8.toNat_ofNat', UInt8.toNat_zero] at hvalue
      omega
    refine ⟨?_, by simp [numberedName]⟩
    simp only [numberedName, List.mem_cons, List.not_mem_nil, or_false, not_or]
    exact ⟨hbyte n, hbyte (n / 128), hbyte (n / 16384)⟩
  · rw [manyCalls, List.map_map]
    apply List.Nodup.map_on _ List.nodup_range
    intro m hm n hn h
    exact numberedName_inj (List.mem_range.mp hm) (List.mem_range.mp hn) h
  · rw [manyCalls, List.length_map, List.length_range]
    decide

end Cpe464.Chat
