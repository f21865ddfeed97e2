import Cpe464.Chat.Framing

/-!
# What `recvPDU` makes of a stream

The callers of `recvPDU` take a positive result for a whole message and zero for a connection that
was closed between two messages. The length field is compared with the size of the buffer, but not
with the header it counts, and a `recv` that comes back short is not looked at.
-/

namespace Cpe464.Chat

/-- The number that the first two bytes of a memory announce in network order. -/
def announced (memory : List UInt8) : Nat :=
  256 * (byteAt memory 0).toNat + (byteAt memory 1).toNat

/-- The length that `recvPDU` sees behind the first `recv`. If only one byte of the header arrived
the other one is what the buffer held before. -/
def lengthSeen (stream dataBuffer : List UInt8) : Nat :=
  announced (overlay dataBuffer 0 (stream.take 2))

theorem ntohs_announced (memory : List UInt8) (h : 2 ≤ memory.length) (high : Nat) :
    ntohs (ofLE (slice memory 0 2) + 65536 * high) = announced memory := by
  match memory with
  | [] => simp at h
  | [b] => simp at h
  | b₀ :: b₁ :: memory =>
    have hcut : (ofLE [b₀, b₁] + 65536 * high) % 256 ^ 2 = ofLE [b₀, b₁] := by
      have hlt : ofLE [b₀, b₁] < 256 ^ 2 := ofLE_lt [b₀, b₁]
      omega
    have hbytes : toLE 2 (ofLE [b₀, b₁]) = [b₀, b₁] := toLE_ofLE [b₀, b₁]
    change swapBytes 2 (ofLE [b₀, b₁] + 65536 * high) = announced (b₀ :: b₁ :: memory)
    rw [← swapBytes_mod, hcut, swapBytes, hbytes]
    simp only [List.reverse_cons, List.reverse_nil, List.nil_append, List.cons_append, ofLE,
      announced, byteAt_cons_zero, byteAt_cons_succ]
    omega

private theorem announced_lt (memory : List UInt8) : announced memory < 65536 := by
  have hhigh := (byteAt memory 0).toNat_lt
  have hlow := (byteAt memory 1).toNat_lt
  unfold announced
  omega

theorem length_overlay_header (stream dataBuffer : List UInt8) (h : 2 ≤ dataBuffer.length) :
    (overlay dataBuffer 0 (stream.take 2)).length = dataBuffer.length := by
  apply length_overlay
  rw [List.length_take]
  omega

theorem lengthSeen_eq (stream dataBuffer : List UInt8) (h : 2 ≤ stream.length) :
    lengthSeen stream dataBuffer = announced stream := by
  match stream with
  | [] => simp at h
  | [b] => simp at h
  | b₀ :: b₁ :: stream =>
    rw [lengthSeen, overlay_zero]
    rfl

theorem lengthSeen_sendPDU (payload rest dataBuffer : List UInt8) (h : payload.length ≤ 65533) :
    lengthSeen (sendPDU payload payload.length ++ rest) dataBuffer = payload.length + 2 := by
  have hlength : 2 ≤ (pduHeader payload.length ++ payload ++ rest).length := by
    simp only [List.length_append, length_pduHeader]
    omega
  have hheader : slice (pduHeader payload.length ++ payload ++ rest) 0 2 =
      pduHeader payload.length := by
    have hslice := slice_middle [] (pduHeader payload.length) (payload ++ rest)
    rwa [length_pduHeader, List.nil_append, List.length_nil, ← List.append_assoc] at hslice
  rw [sendPDU_eq payload h, lengthSeen_eq _ _ hlength, ← ntohs_announced _ hlength 0, hheader]
  exact ntohs_pduHeader payload.length 0 h

/-- Without an error of `recv` there are three ways out of `recvPDU`. -/
theorem recvPDU_eq (stream dataBuffer : List UInt8) (bufferSize : Int) (uninit : Nat)
    (hbuffer : 2 ≤ dataBuffer.length) :
    recvPDU stream dataBuffer bufferSize uninit =
      let header := overlay dataBuffer 0 (stream.take 2)
      if stream = [] then ⟨0, header, []⟩
      else if bufferSize < lengthSeen stream dataBuffer then ⟨-1, header, stream.drop 2⟩
      else safeRecv (stream.drop 2) header 2 ((lengthSeen stream dataBuffer : Int) - 2) := by
  have htwo : toSize 2 = 2 := rfl
  have hvalue := ntohs_announced (overlay dataBuffer 0 (stream.take 2))
    (by rw [length_overlay_header stream dataBuffer hbuffer]; exact hbuffer) (uninit / 65536)
  by_cases hempty : stream = []
  · subst hempty
    simp [recvPDU, safeRecv]
  · have hsome : 1 ≤ (stream.take 2).length := by
      have := List.length_pos_iff.mpr hempty
      rw [List.length_take]
      omega
    have hzero : ((stream.take 2).length : Int) ≠ 0 := by omega
    have hpos : ((stream.take 2).length : Int) > 0 := by omega
    simp only [recvPDU, safeRecv, htwo, hvalue, if_neg hempty, if_neg hzero, if_pos hpos,
      lengthSeen]
    rfl

/-! ## The result -/

/-- A stream begins with a whole PDU that fits the buffer and has a payload of `n` bytes. -/
def BeginsWithPDU (bufferSize : Nat) (stream : List UInt8) (n : Nat) : Prop :=
  2 ≤ stream.length ∧ announced stream = n + 2 ∧ 1 ≤ n ∧ n + 2 ≤ bufferSize ∧
    n + 2 ≤ stream.length

/-- The result tells a whole message, a connection closed between messages and any other stream
apart. -/
structure Classifies (bufferSize : Nat) (stream : List UInt8) (ret : Int) : Prop where
  message : ∀ n : Nat, 1 ≤ n → (ret = n ↔ BeginsWithPDU bufferSize stream n)
  closed : ret = 0 ↔ stream = []
  error : ret = -1 ↔ stream ≠ [] ∧ ∀ n, ¬BeginsWithPDU bufferSize stream n

/-- The payload that a length field counts is there, or the length is refused. -/
def PayloadArrives (bufferSize : Nat) (stream dataBuffer : List UInt8) : Prop :=
  stream = [] ∨ bufferSize < lengthSeen stream dataBuffer ∨
    (3 ≤ lengthSeen stream dataBuffer ∧ lengthSeen stream dataBuffer ≤ stream.length)

instance (bufferSize : Nat) (stream dataBuffer : List UInt8) :
    Decidable (PayloadArrives bufferSize stream dataBuffer) :=
  inferInstanceAs (Decidable (_ ∨ _))

theorem recvPDU_ret {stream : List UInt8} (hne : stream ≠ []) (dataBuffer : List UInt8)
    (bufferSize : Int) (uninit : Nat) (hbuffer : 2 ≤ dataBuffer.length) :
    (recvPDU stream dataBuffer bufferSize uninit).ret =
      if bufferSize < lengthSeen stream dataBuffer then -1
      else ((min (toSize ((lengthSeen stream dataBuffer : Int) - 2)) (stream.length - 2) : Nat) :
        Int) := by
  rw [recvPDU_eq stream dataBuffer bufferSize uninit hbuffer]
  simp only [if_neg hne]
  by_cases hlarge : bufferSize < lengthSeen stream dataBuffer
  · rw [if_pos hlarge, if_pos hlarge]
  · rw [if_neg hlarge, if_neg hlarge]
    simp only [safeRecv, List.length_take, List.length_drop]

private theorem beginsWithPDU_iff {bufferSize n : Nat} {stream : List UInt8}
    (dataBuffer : List UInt8) : BeginsWithPDU bufferSize stream n ↔
      lengthSeen stream dataBuffer = n + 2 ∧ 1 ≤ n ∧ n + 2 ≤ bufferSize ∧
        n + 2 ≤ stream.length := by
  constructor
  · intro h
    obtain ⟨hheader, hlength, hrest⟩ := h
    exact ⟨(lengthSeen_eq stream dataBuffer hheader).trans hlength, hrest⟩
  · intro h
    obtain ⟨hlength, hpos, hfit, hwhole⟩ := h
    have hheader : 2 ≤ stream.length := by omega
    exact ⟨hheader, (lengthSeen_eq stream dataBuffer hheader).symm.trans hlength, hpos, hfit,
      hwhole⟩

private theorem classifies_closed (bufferSize : Nat) : Classifies bufferSize [] 0 := by
  refine ⟨?_, by simp, by simp⟩
  intro n hn
  simp only [BeginsWithPDU, List.length_nil]
  omega

theorem toSize_payload {seen : Nat} (h : 2 ≤ seen) (hlt : seen < 65536) :
    toSize ((seen : Int) - 2) = seen - 2 := by
  unfold toSize
  omega

section Classified

variable {bufferSize : Nat} {stream dataBuffer : List UInt8}

private theorem classifies_refused (hne : stream ≠ [])
    (hlarge : bufferSize < lengthSeen stream dataBuffer) : Classifies bufferSize stream (-1) := by
  have hnone (n : Nat) : ¬BeginsWithPDU bufferSize stream n := by
    rw [beginsWithPDU_iff dataBuffer]
    omega
  refine ⟨?_, by simp [hne], iff_of_true rfl ⟨hne, hnone⟩⟩
  intro n hn
  apply iff_of_false _ (hnone n)
  omega

private theorem classifies_whole (hpayload : 3 ≤ lengthSeen stream dataBuffer)
    (hfit : lengthSeen stream dataBuffer ≤ bufferSize)
    (hwhole : lengthSeen stream dataBuffer ≤ stream.length) :
    Classifies bufferSize stream ((lengthSeen stream dataBuffer - 2 : Nat) : Int) := by
  have hne : stream ≠ [] := List.ne_nil_of_length_pos (by omega)
  refine ⟨?_, ?_, ?_⟩
  · intro n hn
    rw [beginsWithPDU_iff dataBuffer]
    omega
  · apply iff_of_false _ hne
    omega
  · apply iff_of_false
    · omega
    · intro herror
      apply herror.2 (lengthSeen stream dataBuffer - 2)
      rw [beginsWithPDU_iff dataBuffer]
      omega

/-- A short payload looks like a message or like the end of the connection, so that a result that
counts bytes is right only about a whole one. -/
private theorem Classifies.whole {n : Nat} (h : Classifies bufferSize stream n)
    (hne : stream ≠ []) :
    3 ≤ lengthSeen stream dataBuffer ∧ lengthSeen stream dataBuffer ≤ stream.length := by
  have hpos : n ≠ 0 := by
    intro hzero
    apply hne
    apply h.closed.mp
    rw [hzero]
    rfl
  have hmessage := (h.message n (by omega)).mp rfl
  rw [beginsWithPDU_iff dataBuffer] at hmessage
  omega

end Classified

/-- `recvPDU` classifies a stream correctly exactly when the stream is empty, the length it sees is
refused, or that length counts at least one byte of payload and all of them arrive. -/
theorem recvPDU_classifies_iff (stream dataBuffer : List UInt8) (bufferSize uninit : Nat)
    (hlow : 2 ≤ bufferSize) (hhigh : bufferSize ≤ 65535)
    (hbuffer : dataBuffer.length = bufferSize) :
    Classifies bufferSize stream (recvPDU stream dataBuffer bufferSize uninit).ret ↔
      PayloadArrives bufferSize stream dataBuffer := by
  by_cases hempty : stream = []
  · subst hempty
    have hret : (recvPDU [] dataBuffer bufferSize uninit).ret = 0 := by
      rw [recvPDU_eq _ _ _ _ (by omega)]
      rfl
    rw [hret]
    exact iff_of_true (classifies_closed bufferSize) (.inl rfl)
  · have hret := recvPDU_ret hempty dataBuffer bufferSize uninit (by omega)
    have hseen : lengthSeen stream dataBuffer < 65536 := announced_lt _
    by_cases hlarge : bufferSize < lengthSeen stream dataBuffer
    · rw [if_pos (by omega)] at hret
      rw [hret]
      exact iff_of_true (classifies_refused hempty hlarge) (.inr (.inl hlarge))
    · rw [if_neg (by omega)] at hret
      rw [hret]
      constructor
      · intro h
        exact .inr (.inr (h.whole hempty))
      · intro h
        have hwhole : 3 ≤ lengthSeen stream dataBuffer ∧
            lengthSeen stream dataBuffer ≤ stream.length := by
          rcases h with h | h | h
          · exact absurd h hempty
          · exact absurd h hlarge
          · exact h
        rw [toSize_payload (by omega) hseen, Nat.min_eq_left (by omega)]
        exact classifies_whole hwhole.1 (by omega) hwhole.2

theorem recvPDU_classifies_message :
    Classifies 8 [0, 4, 10, 0, 9] (recvPDU [0, 4, 10, 0, 9] [1, 2, 3, 4, 5, 6, 7, 8] 8 0).ret :=
  (recvPDU_classifies_iff [0, 4, 10, 0, 9] [1, 2, 3, 4, 5, 6, 7, 8] 8 0 (by decide) (by decide)
    rfl).mpr (by decide)

/-- The connection ends inside a payload of six bytes. -/
theorem recvPDU_takes_truncated :
    ¬Classifies 8 [0, 8, 10, 7] (recvPDU [0, 8, 10, 7] [1, 2, 3, 4, 5, 6, 7, 8] 8 0).ret := by
  intro h
  have hret : (recvPDU [0, 8, 10, 7] [1, 2, 3, 4, 5, 6, 7, 8] 8 0).ret = (2 : Nat) := by decide
  obtain ⟨-, hlength, -⟩ := (h.message 2 (by decide)).mp hret
  exact absurd hlength (by decide)

/-! ## The stores -/

/-- A `recv` call: where its buffer begins in `dataBuffer`, the `size_t` it is passed and the bytes
it stores. -/
structure RecvCall where
  offset : Nat
  size : Nat
  stored : List UInt8
  deriving DecidableEq

def recvCall (stream : List UInt8) (offset : Nat) (bufferLen : Int) : RecvCall where
  offset := offset
  size := toSize bufferLen
  stored := stream.take (toSize bufferLen)

def recvCalls (stream dataBuffer : List UInt8) (bufferSize : Int) (uninit : Nat) :
    List RecvCall :=
  let header := safeRecv stream dataBuffer 0 2
  recvCall stream 0 2 ::
    if header.ret > 0 then
      let pduLength := ofLE (slice header.dataBuffer 0 2) + 65536 * (uninit / 65536)
      if bufferSize < ntohs pduLength then []
      else [recvCall header.rest 2 ((ntohs pduLength : Int) - 2)]
    else []

/-- The buffer that `recvPDU` leaves is what its `recv` calls stored. -/
theorem recvPDU_dataBuffer (stream dataBuffer : List UInt8) (bufferSize : Int) (uninit : Nat) :
    (recvPDU stream dataBuffer bufferSize uninit).dataBuffer =
      (recvCalls stream dataBuffer bufferSize uninit).foldl
        (fun buf call => overlay buf call.offset call.stored) dataBuffer := by
  unfold recvPDU recvCalls
  by_cases hzero : (safeRecv stream dataBuffer 0 2).ret = 0
  · have hpos : ¬(safeRecv stream dataBuffer 0 2).ret > 0 := by omega
    simp only [if_pos hzero, if_neg hpos]
    rfl
  · have hpos : (safeRecv stream dataBuffer 0 2).ret > 0 := by
      simp only [safeRecv] at hzero ⊢
      omega
    simp only [if_neg hzero, if_pos hpos]
    by_cases hlarge : bufferSize < ntohs (ofLE (slice (safeRecv stream dataBuffer 0 2).dataBuffer
        0 2) + 65536 * (uninit / 65536))
    · simp only [if_pos hlarge]
      rfl
    · simp only [if_neg hlarge]
      rfl

def StoresInside (bufferSize : Nat) (calls : List RecvCall) : Prop :=
  ∀ call ∈ calls, call.offset + call.stored.length ≤ bufferSize

/-- Nothing is stored outside the buffer exactly when the length seen counts its own header or the
peer sends no more than the buffer holds. -/
theorem recvCalls_storesInside_iff (stream dataBuffer : List UInt8) (bufferSize uninit : Nat)
    (hlow : 2 ≤ bufferSize) (hint : bufferSize < 2 ^ 31)
    (hbuffer : dataBuffer.length = bufferSize) :
    StoresInside bufferSize (recvCalls stream dataBuffer bufferSize uninit) ↔
      2 ≤ lengthSeen stream dataBuffer ∨ stream.length ≤ bufferSize := by
  have htwo : toSize 2 = 2 := rfl
  have hvalue := ntohs_announced (overlay dataBuffer 0 (stream.take 2))
    (by rw [length_overlay_header stream dataBuffer (by omega)]; omega) (uninit / 65536)
  change _ = lengthSeen stream dataBuffer at hvalue
  have hseen : lengthSeen stream dataBuffer < 65536 := announced_lt _
  simp only [StoresInside, recvCalls, recvCall, safeRecv, htwo, hvalue, List.length_take]
  generalize lengthSeen stream dataBuffer = seen at hseen
  have hcounted : 2 ≤ seen → toSize ((seen : Int) - 2) = seen - 2 :=
    fun h => toSize_payload h hseen
  have hwrapped : seen < 2 → bufferSize ≤ toSize ((seen : Int) - 2) := by
    unfold toSize
    omega
  by_cases hempty : stream.length = 0
  · have hnone : ¬((min 2 stream.length : Nat) : Int) > 0 := by omega
    rw [if_neg hnone]
    simp only [List.mem_singleton, forall_eq, List.length_take]
    omega
  · have hsome : ((min 2 stream.length : Nat) : Int) > 0 := by omega
    rw [if_pos hsome]
    by_cases hlarge : (bufferSize : Int) < seen
    · rw [if_pos hlarge]
      simp only [List.mem_singleton, forall_eq, List.length_take]
      omega
    · rw [if_neg hlarge]
      simp only [List.mem_cons, List.not_mem_nil, or_false, forall_eq_or_imp, forall_eq,
        List.length_take, List.length_drop]
      omega

theorem recvCalls_storesInside_message :
    StoresInside 8 (recvCalls [0, 4, 10, 0, 9] [1, 2, 3, 4, 5, 6, 7, 8] (8 : Nat) 0) :=
  (recvCalls_storesInside_iff [0, 4, 10, 0, 9] [1, 2, 3, 4, 5, 6, 7, 8] 8 0 (by decide)
    (by decide) rfl).mpr (by decide)

/-- A length of zero lets `recv` fill the memory behind the buffer. -/
theorem recvCalls_overflow :
    ¬StoresInside 4 (recvCalls [0, 0, 10, 11, 12] [1, 2, 3, 4] (4 : Nat) 0) := by
  intro h
  have hcalls : recvCalls [0, 0, 10, 11, 12] [1, 2, 3, 4] (4 : Nat) 0 =
      [⟨0, 2, [0, 0]⟩, ⟨2, 2 ^ 64 - 2, [10, 11, 12]⟩] := by decide
  rw [hcalls] at h
  exact absurd (h ⟨2, 2 ^ 64 - 2, [10, 11, 12]⟩ (by simp)) (by decide)

end Cpe464.Chat
