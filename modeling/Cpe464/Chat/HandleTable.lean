import Cpe464.Framework.CString

/-!
# The handle table

`handle.c` keeps the handles of the chat clients in one growing array. An entry is a socket
number and a name field of 100 bytes; the entries lie in memory one behind the other, so a
comparison that does not stop inside a name field goes on into the next entry.
-/

namespace Cpe464.Chat

structure HandleTableEntry where
  socketNumber : UInt16
  handleName : List UInt8
  length_handleName : handleName.length = 100
  deriving DecidableEq

def HandleTableEntry.bytes (e : HandleTableEntry) : List UInt8 :=
  toLE 2 e.socketNumber.toNat ++ e.handleName

/-- `struct handle_table` with the array it points to. All allocated entries are listed, the first
`entryCount` of them are in use. -/
structure HandleTable where
  handleTableEntries : List HandleTableEntry
  entryCount : Nat
  tableSize : Nat
  allocated : handleTableEntries.length = tableSize
  entryCount_le : entryCount ≤ tableSize
  tableSize_lt : tableSize < 65536
  deriving DecidableEq

/-- The entries in use. -/
def HandleTable.entries (T : HandleTable) : List HandleTableEntry :=
  T.handleTableEntries.take T.entryCount

/-- What `malloc` and `srealloc` find in the memory they return. -/
structure Heap where
  tmpEntry : HandleTableEntry
  grown : Nat → HandleTableEntry

/-- Memory that holds no zero byte, so that only copied terminators end a name. -/
def dirtyHeap : Heap where
  tmpEntry := ⟨513, List.replicate 100 255, rfl⟩
  grown _ := ⟨7, List.replicate 100 255, rfl⟩

def cleanHeap : Heap where
  tmpEntry := ⟨0, List.replicate 100 0, rfl⟩
  grown _ := ⟨0, List.replicate 100 0, rfl⟩

def createTable (heap : Heap) : HandleTable where
  handleTableEntries := [heap.grown 0, heap.grown 1]
  entryCount := 0
  tableSize := 2
  allocated := rfl
  entryCount_le := by decide
  tableSize_lt := by decide

/-- The memory from the name field of an entry to the end of the array. -/
def nameMemory (e : HandleTableEntry) (behind : List HandleTableEntry) : List UInt8 :=
  e.handleName ++ behind.flatMap HandleTableEntry.bytes

/-- The loop of `get_socket` over the next `n` entries. -/
def getSocketFrom (handleName : List UInt8) : Nat → List HandleTableEntry → Option UInt16
  | 0, _ => some 0
  | _ + 1, [] => none
  | n + 1, e :: es =>
      match strcmp (nameMemory e es) handleName with
      | none => none
      | some d => if d = 0 then some e.socketNumber else getSocketFrom handleName n es

/-- `get_socket`; no result when a comparison runs off the table or off the given string. -/
def getSocket (T : HandleTable) (handleName : List UInt8) : Option UInt16 :=
  getSocketFrom handleName T.entryCount T.handleTableEntries

/-- How many bytes of the given string the comparisons of `get_socket` read. -/
def getSocketSpanFrom (handleName : List UInt8) : Nat → List HandleTableEntry → Nat
  | 0, _ => 0
  | _ + 1, [] => 0
  | n + 1, e :: es =>
      max (strcmpSpan (nameMemory e es) handleName)
        (if strcmp (nameMemory e es) handleName = some 0 then 0
          else getSocketSpanFrom handleName n es)

def getSocketSpan (T : HandleTable) (handleName : List UInt8) : Nat :=
  getSocketSpanFrom handleName T.entryCount T.handleTableEntries

/-- The loop of `get_handle` over the next `n` entries. -/
def getHandleFrom (socketNumber : UInt16) : Nat → List HandleTableEntry → Option (List UInt8)
  | 0, _ => none
  | _ + 1, [] => none
  | n + 1, e :: es =>
      if e.socketNumber = socketNumber then some (nameMemory e es)
      else getHandleFrom socketNumber n es

/-- `get_handle`: the memory its pointer leads to, or the null pointer. -/
def getHandle (T : HandleTable) (socketNumber : UInt16) : Option (List UInt8) :=
  getHandleFrom socketNumber T.entryCount T.handleTableEntries

/-- Where `add_entry` leaves the memory it may use: a comparison runs off its strings, the copy of
the name does not fit its source or the name field, or the entry lies outside the allocation. -/
inductive AddFault
  | lookup
  | handleName
  | slot (index allocated : Nat)
  deriving DecidableEq

/-- The size of the table when `add_entry` stores the new entry. -/
def HandleTable.nextSize (T : HandleTable) : Nat :=
  if T.entryCount ≥ T.tableSize then (T.tableSize * 2 + 1) % 65536 else T.tableSize

/-- The array at that moment: `srealloc` keeps the entries that fit the new size. -/
def HandleTable.nextEntries (T : HandleTable) (heap : Heap) : List HandleTableEntry :=
  T.handleTableEntries.take T.nextSize ++
    (List.range (T.nextSize - T.tableSize)).map heap.grown

/-- The temporary entry: the name is copied over what `malloc` returned. -/
def newEntry (newSocketNumber : UInt16) (name : List UInt8) (heap : Heap)
    (h : name.length ≤ 100) : HandleTableEntry where
  socketNumber := newSocketNumber
  handleName := name ++ heap.tmpEntry.handleName.drop name.length
  length_handleName := by
    rw [List.length_append, List.length_drop, heap.tmpEntry.length_handleName]
    omega

/-- A table with two clients, `a` on socket 4 and `b` on socket 5. -/
def twoClients : HandleTable where
  handleTableEntries :=
    [newEntry 4 [97, 0] dirtyHeap (by decide), newEntry 5 [98, 0] dirtyHeap (by decide)]
  entryCount := 2
  tableSize := 2
  allocated := rfl
  entryCount_le := by decide
  tableSize_lt := by decide

theorem HandleTable.nextSize_lt (T : HandleTable) : T.nextSize < 65536 := by
  have := T.tableSize_lt
  unfold HandleTable.nextSize
  split <;> omega

theorem HandleTable.length_nextEntries (T : HandleTable) (heap : Heap) :
    (T.nextEntries heap).length = T.nextSize := by
  simp only [HandleTable.nextEntries, List.length_append, List.length_take, List.length_map,
    List.length_range, T.allocated]
  omega

/-- `add_entry`: its result and the table it leaves. -/
def addEntry (newSocketNumber : UInt16) (newHandleName : List UInt8) (newHandleSize : Nat)
    (T : HandleTable) (heap : Heap) : Except AddFault (Int × HandleTable) :=
  match getSocket T newHandleName with
  | none => .error .lookup
  | some found =>
    if found ≠ 0 then
      .ok (2, T)
    else if hname : newHandleSize ≤ newHandleName.length ∧ newHandleSize ≤ 100 then
      if hslot : T.entryCount < T.nextSize then
        .ok (0,
          { handleTableEntries := (T.nextEntries heap).set T.entryCount
              (newEntry newSocketNumber (newHandleName.take newHandleSize) heap
                (by rw [List.length_take]; omega))
            entryCount := (T.entryCount + 1) % 65536
            tableSize := T.nextSize
            allocated := by rw [List.length_set, T.length_nextEntries]
            entryCount_le := by have := T.nextSize_lt; omega
            tableSize_lt := T.nextSize_lt })
      else
        .error (.slot T.entryCount T.nextSize)
    else
      .error .handleName

/-! ## Lookup -/

/-- The socket of the first entry with a property, zero if there is none. -/
def firstSocket (P : HandleTableEntry → Prop) [DecidablePred P] (es : List HandleTableEntry) :
    UInt16 :=
  ((es.find? fun e => decide (P e)).map HandleTableEntry.socketNumber).getD 0

def HandleTable.socketOf (T : HandleTable) (h : List UInt8) : UInt16 :=
  firstSocket (fun e => IsString e.handleName h) T.entries

private theorem length_nameMemory (e : HandleTableEntry) (es : List HandleTableEntry) :
    100 ≤ (nameMemory e es).length := by
  rw [nameMemory, List.length_append, e.length_handleName]
  omega

private theorem isString_nameMemory (e : HandleTableEntry) (es : List HandleTableEntry)
    {h : List UInt8} (hlen : h.length < 100) :
    IsString (nameMemory e es) h ↔ IsString e.handleName h :=
  isString_append_iff (by rw [e.length_handleName]; exact hlen) _

theorem firstSocket_congr (P Q : HandleTableEntry → Prop) [DecidablePred P] [DecidablePred Q]
    (es : List HandleTableEntry) (h : ∀ e ∈ es, P e ↔ Q e) :
    firstSocket P es = firstSocket Q es := by
  induction es with
  | nil => rfl
  | cons e es ih =>
    have he := h e (by simp)
    by_cases hP : P e
    · simp [firstSocket, hP, he.mp hP]
    · have hQ : ¬Q e := fun hQ => hP (he.mpr hQ)
      have htail := ih (fun e he => h e (by simp [he]))
      simpa [firstSocket, hP, hQ] using htail

private theorem getSocketFrom_eq (P : HandleTableEntry → Prop) [DecidablePred P]
    (s : List UInt8) (n : Nat) (es : List HandleTableEntry) (hn : n ≤ es.length)
    (hcmp : ∀ e ∈ es.take n, ∀ behind, ∃ d, strcmp (nameMemory e behind) s = some d ∧
      (d = 0 ↔ P e)) :
    getSocketFrom s n es = some (firstSocket P (es.take n)) := by
  induction n generalizing es with
  | zero => simp [getSocketFrom, firstSocket]
  | succ n ih =>
    cases es with
    | nil => simp at hn
    | cons e es =>
      obtain ⟨d, hd, hP⟩ := hcmp e (by simp) es
      rw [getSocketFrom, hd]
      by_cases hz : d = 0
      · simp [hz, firstSocket, hP.mp hz]
      · have hPe : ¬P e := fun h => hz (hP.mpr h)
        simp only [if_neg hz]
        rw [ih es (by simpa using hn) (fun e he => hcmp e (by simp [he]))]
        simp [firstSocket, hPe]

/-- A string shorter than a name field is found under its own name, in any table. -/
theorem getSocket_eq_socketOf (T : HandleTable) {s h : List UInt8} (hs : IsString s h)
    (hlen : h.length < 100) : getSocket T s = some (T.socketOf h) := by
  apply getSocketFrom_eq
  · rw [T.allocated]
    exact T.entryCount_le
  · intro e _ behind
    have hsome := strcmp_isSome_of_isString hs
      (Nat.lt_of_lt_of_le hlen (length_nameMemory e behind))
    obtain ⟨d, hd⟩ := Option.isSome_iff_exists.mp hsome
    refine ⟨d, hd, ?_⟩
    rw [← isString_nameMemory e behind hlen]
    constructor
    · intro hz
      obtain ⟨u, hu, hsu⟩ := (strcmp_eq_zero_iff _ _).mp (hz ▸ hd)
      rwa [hs.unique hsu]
    · intro hname
      have := (strcmp_eq_zero_iff _ _).mpr ⟨h, hname, hs⟩
      rw [hd] at this
      exact Option.some.inj this

/-- In a table of terminated names a lookup with any memory as long as a name field is decided, and
finds the string that memory begins with, if it begins with one. -/
theorem getSocket_of_terminated (T : HandleTable) (hT : ∀ e ∈ T.entries, 0 ∈ e.handleName)
    (s : List UInt8) (hs : 100 ≤ s.length) :
    getSocket T s = some (if 0 ∈ s then T.socketOf (cString s) else 0) := by
  have hfrom : getSocket T s =
      some (firstSocket (fun e => IsString s (cString e.handleName)) T.entries) := by
    apply getSocketFrom_eq
    · rw [T.allocated]
      exact T.entryCount_le
    · intro e he behind
      have hname : IsString e.handleName (cString e.handleName) := ⟨hT e he, rfl⟩
      have hmemory := hname.append (behind.flatMap HandleTableEntry.bytes)
      have hlen := hname.length_lt
      rw [e.length_handleName] at hlen
      have hsome := strcmp_isSome_of_isString hmemory (Nat.lt_of_lt_of_le hlen hs)
      rw [strcmp_isSome_comm] at hsome
      obtain ⟨d, hd⟩ := Option.isSome_iff_exists.mp hsome
      refine ⟨d, hd, ?_⟩
      constructor
      · intro hz
        obtain ⟨u, hu, hsu⟩ := (strcmp_eq_zero_iff _ _).mp (hz ▸ hd)
        rwa [← hu.unique hmemory]
      · intro hsu
        have := (strcmp_eq_zero_iff _ _).mpr ⟨_, hmemory, hsu⟩
        exact Option.some.inj (hd.symm.trans this)
  rw [hfrom]
  by_cases hz : 0 ∈ s
  · rw [if_pos hz, HandleTable.socketOf]
    congr 1
    apply firstSocket_congr
    intro e he
    simp [IsString, hz, hT e he, eq_comm]
  · rw [if_neg hz, firstSocket, List.find?_eq_none.mpr]
    · rfl
    · intro e _
      simp [IsString, hz]

theorem getSocketSpan_le_iff (T : HandleTable) (s rest : List UInt8) :
    (getSocket T s).isSome ↔
      (getSocket T (s ++ rest)).isSome ∧ getSocketSpan T (s ++ rest) ≤ s.length := by
  unfold getSocket getSocketSpan
  generalize T.handleTableEntries = es
  induction T.entryCount generalizing es with
  | zero => simp [getSocketFrom, getSocketSpanFrom]
  | succ n ih =>
    cases es with
    | nil => simp [getSocketFrom]
    | cons e es =>
      have hspan := strcmp_isSome_iff_span (nameMemory e es) s rest
      simp only [getSocketFrom, getSocketSpanFrom, Nat.max_le]
      cases hs : strcmp (nameMemory e es) s with
      | none =>
        simp only [hs, Option.isSome_none, Bool.false_eq_true, false_iff, not_and] at hspan ⊢
        intro hsome hle
        apply absurd hle
        apply hspan
        cases hr : strcmp (nameMemory e es) (s ++ rest) with
        | none => simp [hr] at hsome
        | some d => rfl
      | some d =>
        have happ := strcmp_append hs [] rest
        rw [List.append_nil] at happ
        have hle := (hspan.mp (by simp [hs])).2
        simp only [happ, hle, true_and]
        by_cases hd : d = 0
        · simp [hd]
        · simp only [if_neg hd, Option.some.injEq, ih]

theorem getSocket_append (T : HandleTable) {s : List UInt8} {found : UInt16}
    (h : getSocket T s = some found) (rest : List UInt8) :
    getSocket T (s ++ rest) = some found := by
  unfold getSocket at h ⊢
  revert h
  generalize T.handleTableEntries = es
  induction T.entryCount generalizing es with
  | zero => intro h; exact h
  | succ n ih =>
    cases es with
    | nil => intro h; exact h
    | cons e es =>
      simp only [getSocketFrom]
      cases hs : strcmp (nameMemory e es) s with
      | none => intro h; simp at h
      | some d =>
        have happ := strcmp_append hs [] rest
        rw [List.append_nil] at happ
        simp only [happ]
        by_cases hd : d = 0
        · simp [hd]
        · simpa only [if_neg hd] using ih es

theorem exists_of_socketOf {T : HandleTable} {h : List UInt8} (hne : T.socketOf h ≠ 0) :
    ∃ e ∈ T.entries, IsString e.handleName h ∧ e.socketNumber = T.socketOf h := by
  unfold HandleTable.socketOf firstSocket at hne ⊢
  cases hf : T.entries.find? fun e => decide (IsString e.handleName h) with
  | none =>
    rw [hf] at hne
    exact absurd rfl hne
  | some e =>
    exact ⟨e, List.mem_of_find?_eq_some hf, by simpa using List.find?_some hf, rfl⟩

theorem exists_of_getHandle {T : HandleTable} {s : UInt16} {memory : List UInt8}
    (h : getHandle T s = some memory) :
    ∃ e ∈ T.entries, e.socketNumber = s ∧ ∃ rest, memory = e.handleName ++ rest := by
  unfold getHandle at h
  unfold HandleTable.entries
  revert h
  generalize T.handleTableEntries = es
  induction T.entryCount generalizing es with
  | zero => intro h; simp [getHandleFrom] at h
  | succ n ih =>
    cases es with
    | nil => intro h; simp [getHandleFrom] at h
    | cons e es =>
      intro h
      rw [getHandleFrom] at h
      by_cases he : e.socketNumber = s
      · rw [if_pos he] at h
        exact ⟨e, by simp, he, _, (Option.some.inj h).symm⟩
      · rw [if_neg he] at h
        obtain ⟨e', he', hrest⟩ := ih es h
        exact ⟨e', by simp [he'], hrest⟩

theorem getHandle_eq_none_iff (T : HandleTable) (s : UInt16) :
    getHandle T s = none ↔ ∀ e ∈ T.entries, e.socketNumber ≠ s := by
  unfold getHandle HandleTable.entries
  generalize T.handleTableEntries = es
  induction T.entryCount generalizing es with
  | zero => simp [getHandleFrom]
  | succ n ih =>
    cases es with
    | nil => simp [getHandleFrom]
    | cons e es =>
      by_cases he : e.socketNumber = s
      · simp [getHandleFrom, he]
      · simp [getHandleFrom, he, ih]

/-! ## Adding an entry -/

/-- The array has room for one more entry when `add_entry` stores it. -/
def HandleTable.HasRoom (T : HandleTable) : Prop := T.entryCount < T.nextSize

instance (T : HandleTable) : Decidable T.HasRoom := inferInstanceAs (Decidable (_ < _))

theorem addEntry_found {T : HandleTable} {name : List UInt8} {found : UInt16}
    (hfound : getSocket T name = some found) (hne : found ≠ 0) (socket : UInt16) (size : Nat)
    (heap : Heap) : addEntry socket name size T heap = .ok (2, T) := by
  simp only [addEntry, hfound, if_pos hne]

theorem addEntry_lookup {T : HandleTable} {name : List UInt8} (hfound : getSocket T name = none)
    (socket : UInt16) (size : Nat) (heap : Heap) :
    addEntry socket name size T heap = .error .lookup := by
  simp only [addEntry, hfound]

theorem addEntry_handleName {T : HandleTable} {name : List UInt8} {size : Nat}
    (hnone : getSocket T name = some 0) (hsize : ¬(size ≤ name.length ∧ size ≤ 100))
    (socket : UInt16) (heap : Heap) : addEntry socket name size T heap = .error .handleName := by
  simp only [addEntry, hnone, ne_eq, not_true_eq_false, if_false, dif_neg hsize]

theorem addEntry_slot {T : HandleTable} {name : List UInt8} {size : Nat}
    (hnone : getSocket T name = some 0) (hsize : size ≤ name.length ∧ size ≤ 100)
    (hroom : ¬T.HasRoom) (socket : UInt16) (heap : Heap) :
    addEntry socket name size T heap = .error (.slot T.entryCount T.nextSize) := by
  simp only [addEntry, hnone, ne_eq, not_true_eq_false, if_false, dif_pos hsize]
  exact dif_neg hroom

/-- A new name is appended behind the entries in use, which all keep their place. -/
theorem addEntry_new {T : HandleTable} {name : List UInt8} {size : Nat}
    (hnone : getSocket T name = some 0) (hsize : size ≤ name.length) (hfield : size ≤ 100)
    (hroom : T.HasRoom) (socket : UInt16) (heap : Heap) :
    ∃ T', addEntry socket name size T heap = .ok (0, T') ∧
      T'.entries = T.entries ++ [newEntry socket (name.take size) heap
        (by rw [List.length_take]; omega)] ∧
      T'.entryCount = T.entryCount + 1 ∧ T'.tableSize = T.nextSize := by
  have hcount : (T.entryCount + 1) % 65536 = T.entryCount + 1 := by
    have := T.nextSize_lt
    unfold HandleTable.HasRoom at hroom
    omega
  simp only [addEntry, hnone, ne_eq, not_true_eq_false, if_false, dif_pos (And.intro hsize hfield)]
  rw [dif_pos (show T.entryCount < T.nextSize from hroom)]
  refine ⟨_, rfl, ?_, hcount, rfl⟩
  have hlen : T.entryCount < (T.nextEntries heap).length := by
    rw [T.length_nextEntries]
    exact hroom
  have hkeep : (T.nextEntries heap).take T.entryCount = T.entries := by
    have hle : T.entryCount ≤ (T.handleTableEntries.take T.nextSize).length := by
      have := T.entryCount_le
      rw [List.length_take, T.allocated]
      exact Nat.le_min.mpr ⟨Nat.le_of_lt hroom, this⟩
    rw [HandleTable.nextEntries, List.take_append_of_le_length hle, List.take_take,
      Nat.min_eq_left (Nat.le_of_lt hroom), HandleTable.entries]
  simp only [HandleTable.entries] at hkeep ⊢
  rw [hcount, List.set_eq_take_append_cons_drop, if_pos hlen, hkeep]
  have htake : (T.handleTableEntries.take T.entryCount).length = T.entryCount := by
    rw [List.length_take, T.allocated]
    exact Nat.min_eq_left T.entryCount_le
  rw [List.take_append, htake, Nat.add_sub_cancel_left, List.take_of_length_le (by omega)]
  rfl

end Cpe464.Chat
