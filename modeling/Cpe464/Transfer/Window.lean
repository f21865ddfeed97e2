import Cpe464.Transfer.FileSender

/-!
# The window of the file sender

A data packet is inside the window when its sequence number is below the largest RR number received
so far plus the window size, and its slot is one of those allocated. `handleSend` computes window
bounds but its inner loop does not consult them: it sends the whole file at the first wake-up.
-/

namespace Cpe464.Transfer

/-- The RR number a datagram carries; zero unless it is a whole RR packet. -/
def rrNumber (datagram : List UInt8) : Nat :=
  if 11 ≤ datagram.length ∧ byteAt datagram 6 = 5 then ntohl (ofLE (slice datagram 7 4)) else 0

def largestRR (datagrams : List (List UInt8)) : Nat := (datagrams.map rrNumber).foldr max 0

/-- The run is defined, and each data packet sent at a wake-up is inside the window that the
datagrams received by then leave open. -/
def WindowKept (windowSize : UInt32) (inputs : List WakeUp) (result : Option Sending) : Prop :=
  ∃ sending, result = some sending ∧
    ∀ i sequence slot packet, .data sequence slot packet ∈ sending.wakeUps.getD i [] →
      sequence < largestRR ((inputs.take (i + 1)).map WakeUp.datagram) + windowSize.toNat ∧
      slot < windowSize.toNat

private theorem data_mem_blocks_iff {bufferSize : UInt16} {s : Sender} {n sequence slot : Nat}
    {packet : List UInt8} :
    SendEvent.data sequence slot packet ∈ (List.range n).map (blockSent bufferSize s) ↔
      ∃ j < n, SendEvent.data sequence slot packet = blockSent bufferSize s j := by
  simp only [List.mem_map, List.mem_range, eq_comm]

private theorem data_notMem_idle {inputs : List WakeUp} {i sequence slot : Nat}
    {packet : List UInt8} : SendEvent.data sequence slot packet ∉
      (inputs.map fun _ => [SendEvent.readUnsetHeader]).getD i [] := by
  rw [List.getD_eq_getElem?_getD, List.getElem?_map]
  cases inputs[i]? with
  | none => simp
  | some input => simp

private theorem sendLoop_windowKept_iff {bufferSize : UInt16} {windowSize : UInt32} {s : Sender}
    (h : 1 ≤ bufferSize.toNat) (hseq : s.seq = 0) (inputs : List WakeUp) (response : SendEvent) :
    WindowKept windowSize inputs (some ⟨response, sendLoop bufferSize s inputs⟩) ↔
      inputs = [] ∨ blockCount bufferSize s.file ≤ windowSize.toNat := by
  cases inputs with
  | nil =>
    refine iff_of_true ⟨_, rfl, ?_⟩ (Or.inl rfl)
    intro i sequence slot packet hmem
    simp [sendLoop] at hmem
  | cons input inputs =>
    simp only [WindowKept, Option.some.injEq, exists_eq_left', reduceCtorEq, false_or,
      sendLoop_cons h]
    constructor
    · -- The slot of the last block has to be one of the window.
      intro hkept
      by_contra hlarge
      obtain ⟨n, hn⟩ : ∃ n, blockCount bufferSize s.file = n + 1 :=
        ⟨blockCount bufferSize s.file - 1, by omega⟩
      have hlast : blockSent bufferSize s n ∈ SendEvent.readUnsetHeader ::
          (List.range (blockCount bufferSize s.file)).map (blockSent bufferSize s) :=
        List.mem_cons_of_mem _ (List.mem_map_of_mem (List.mem_range.mpr (by omega)))
      obtain ⟨_, hslot⟩ := hkept 0 _ _ _ hlast
      omega
    · intro hfits i sequence slot packet hmem
      cases i with
      | succ i => exact absurd hmem data_notMem_idle
      | zero =>
        have hblock : SendEvent.data sequence slot packet ∈
            (List.range (blockCount bufferSize s.file)).map (blockSent bufferSize s) := by
          rcases List.mem_cons.mp hmem with heq | hmem
          · exact absurd heq (by simp)
          · exact hmem
        obtain ⟨j, hj, heq⟩ := data_mem_blocks_iff.mp hblock
        simp only [blockSent, SendEvent.data.injEq] at heq
        omega

theorem handleSend_windowKept_iff (fopen : List UInt8 → Option (List UInt8))
    (heap : Nat → Nat → UInt8) (setupInfo : SetupInfo) (buf file : List UInt8)
    (inputs : List WakeUp) (hopen : fopen (requestedFile buf) = some file)
    (hbuffer : 1 ≤ setupInfo.bufferSize) :
    WindowKept setupInfo.windowSize inputs (handleSend fopen heap setupInfo buf inputs) ↔
      setupInfo.windowSize.toNat < 2 ^ 31 ∧
        (inputs = [] ∨ blockCount setupInfo.bufferSize file ≤ setupInfo.windowSize.toNat) := by
  by_cases hsize : setupInfo.windowSize.toNat < 2 ^ 31
  · rw [handleSend_file fopen heap setupInfo buf file inputs hsize hopen, and_iff_right hsize]
    exact sendLoop_windowKept_iff (UInt16.le_iff_toNat_le.mp hbuffer) rfl inputs _
  · rw [handleSend_overflow fopen heap setupInfo buf inputs (by omega)]
    refine iff_of_false ?_ (by omega)
    intro ⟨sending, hsending, _⟩
    exact absurd hsending (by simp)

/-- The server's buffer with a request for the file f, with a window of one block of one byte. -/
def smallRequest : List UInt8 :=
  sendData [102, 0, 0, 0, 1, 0, 1] 7 0 8 ++ List.replicate (serverMaxBuf + 1 - 14) 0

def smallSetup : SetupInfo := ⟨slice smallRequest 7 100, 1, 1⟩

/-- The same with a window of four blocks of two bytes. -/
def roomyRequest : List UInt8 :=
  sendData [102, 0, 0, 0, 4, 0, 2] 7 0 8 ++ List.replicate (serverMaxBuf + 1 - 14) 0

def roomySetup : SetupInfo := ⟨slice roomyRequest 7 100, 4, 2⟩

/-- A connect request, and an acknowledgement of the first block. -/
def twoWakeUps : List WakeUp :=
  [⟨8, sendData [102, 0, 0, 0, 4, 0, 2] 7 0 8⟩, ⟨0, sendData [0, 0, 0, 0] 4 0 5⟩]

/-- A file of three blocks, the last of which is short. -/
theorem handleSend_windowKept_fits :
    WindowKept 4 twoWakeUps
      (handleSend (fun _ => some [104, 101, 108, 108, 111]) (fun _ _ => 0) roomySetup roomyRequest
        twoWakeUps) :=
  (handleSend_windowKept_iff (fun _ => some [104, 101, 108, 108, 111]) (fun _ _ => 0) roomySetup
    roomyRequest [104, 101, 108, 108, 111] twoWakeUps rfl (by decide)).mpr
    ⟨by decide, Or.inr (by decide)⟩

/-- Both bytes go out at the first wake-up: packet 1 is sent from slot 1 of a window of one. -/
theorem handleSend_leaves_window :
    ¬ WindowKept 1 [⟨0, sendData [0, 0, 0, 0] 4 0 5⟩]
      (handleSend (fun _ => some [104, 105]) (fun _ _ => 0) smallSetup smallRequest
        [⟨0, sendData [0, 0, 0, 0] 4 0 5⟩]) := by
  intro ⟨sending, hsending, hkept⟩
  have hsent : (handleSend (fun _ => some [104, 105]) (fun _ _ => 0) smallSetup smallRequest
      [⟨0, sendData [0, 0, 0, 0] 4 0 5⟩]).any (fun sending =>
        .data 1 1 (sendData [105] 1 1 16) ∈ sending.wakeUps.getD 0 []) = true := by
    decide +kernel
  rw [hsending] at hsent
  have hdata := hkept 0 1 1 (sendData [105] 1 1 16) (by simpa using hsent)
  exact absurd hdata (by decide)

end Cpe464.Transfer
