import Cpe464.Framework.Chunks
import Cpe464.Transfer.Window

/-!
# The packets of a file

The inner loop of `handleSend` hands a whole slot to `sendData` for every block, whatever `fread`
returned, so that behind a short last block the packet carries what the slot held before.
-/

namespace Cpe464.Transfer

def SendEvent.packet : SendEvent → Option (List UInt8)
  | response packet => some packet
  | data _ _ packet => some packet
  | readUnsetHeader => none
  | readNullFile => none

/-- The packets of a run that have flag 16, in the order they are sent. -/
def dataPackets (sending : Sending) : List (List UInt8) :=
  ((sending.response :: sending.wakeUps.flatten).filterMap SendEvent.packet).filter fun packet =>
    (header packet).flag = 16

/-- The run is defined, its data packets are numbered from zero on, and their payloads are the
file. -/
def TransmitsFile (file : List UInt8) (result : Option Sending) : Prop :=
  ∃ sending, result = some sending ∧
    (dataPackets sending).map (fun packet => ntohl (header packet).sequenceNum) =
      List.range (dataPackets sending).length ∧
    ((dataPackets sending).map (List.drop 7)).flatten = file

/-! ## One packet -/

/-- The payload of the `j`th block: what is read, and the rest of its slot. -/
def blockPayload (bufferSize : UInt16) (s : Sender) (j : Nat) : List UInt8 :=
  overlay (s.window.getD (s.seq + j) []) 0
    (slice s.file (j * bufferSize.toNat) bufferSize.toNat)

def blockPacket (bufferSize : UInt16) (s : Sender) (j : Nat) : List UInt8 :=
  sendData (blockPayload bufferSize s j) bufferSize (UInt32.ofNat (s.seq + j)) 16

section Packet

variable {bufferSize : UInt16} {s : Sender} {j : Nat}
  (hslot : (s.window.getD (s.seq + j) []).length = bufferSize.toNat)

include hslot

theorem length_blockPayload : (blockPayload bufferSize s j).length = bufferSize.toNat := by
  rw [blockPayload, length_overlay, hslot]
  rw [hslot, Nat.zero_add]
  exact length_slice_le _ _ _

private theorem blockPacket_parts (hseq : s.seq + j < 2 ^ 32) :
    ntohl (header (blockPacket bufferSize s j)).sequenceNum = s.seq + j ∧
      (header (blockPacket bufferSize s j)).flag = 16 ∧
      (blockPacket bufferSize s j).drop 7 = blockPayload bufferSize s j := by
  have hlength := length_blockPayload hslot
  have hlt := bufferSize.toNat_lt
  have hsize : UInt16.ofNat (blockPayload bufferSize s j).length = bufferSize := by
    rw [hlength]
    exact UInt16.ofNat_toNat
  have hnumber := sequenceNum_sendData (blockPayload bufferSize s j) (UInt32.ofNat (s.seq + j)) 16
    (by omega)
  have hflag := flag_sendData (blockPayload bufferSize s j) (UInt32.ofNat (s.seq + j)) 16
    (by omega)
  have hbehind := drop_sendData (blockPayload bufferSize s j) (UInt32.ofNat (s.seq + j)) 16
    (by omega)
  rw [hsize] at hnumber hflag hbehind
  refine ⟨?_, hflag, hbehind⟩
  exact hnumber.trans (UInt32.toNat_ofNat_of_lt' hseq)

private theorem blockPayload_whole (hblock : (j + 1) * bufferSize.toNat ≤ s.file.length) :
    blockPayload bufferSize s j = slice s.file (j * bufferSize.toNat) bufferSize.toNat := by
  rw [Nat.succ_mul] at hblock
  have hlength := length_slice s.file (j * bufferSize.toNat) bufferSize.toNat hblock
  rw [blockPayload, overlay_zero, hlength, List.drop_of_length_le (by omega), List.append_nil]

end Packet

/-! ## A run -/

section Run

variable {bufferSize : UInt16} {s : Sender} (hbuffer : 1 ≤ bufferSize.toNat) (hseq : s.seq = 0)
  (hslots : ∀ j < blockCount bufferSize s.file, (s.window.getD j []).length = bufferSize.toNat)
  (hcount : blockCount bufferSize s.file < 2 ^ 32)

include hbuffer hseq hslots hcount

theorem dataPackets_sendLoop (input : WakeUp) (inputs : List WakeUp) :
    dataPackets ⟨.response (sendData goodFile 9 0 9), sendLoop bufferSize s (input :: inputs)⟩ =
      (List.range (blockCount bufferSize s.file)).map (blockPacket bufferSize s) := by
  have hresponse : ¬(header (sendData goodFile 9 0 9)).flag = 16 := by decide
  have hidle : ((inputs.map fun _ => [SendEvent.readUnsetHeader]).flatten).filterMap
      SendEvent.packet = [] := by
    rw [List.filterMap_eq_nil_iff]
    intro event hevent
    obtain ⟨idle, hidle, hevent⟩ := List.mem_flatten.mp hevent
    obtain ⟨-, -, rfl⟩ := List.mem_map.mp hidle
    rw [List.mem_singleton.mp hevent]
    rfl
  have hblocks : ((List.range (blockCount bufferSize s.file)).map
      (blockSent bufferSize s)).filterMap SendEvent.packet =
        (List.range (blockCount bufferSize s.file)).map (blockPacket bufferSize s) := by
    rw [List.filterMap_map, ← List.filterMap_eq_map]
    rfl
  have hsent : (SendEvent.response (sendData goodFile 9 0 9) ::
      (sendLoop bufferSize s (input :: inputs)).flatten).filterMap SendEvent.packet =
        sendData goodFile 9 0 9 ::
          (List.range (blockCount bufferSize s.file)).map (blockPacket bufferSize s) := by
    have hfirst : (SendEvent.response (sendData goodFile 9 0 9)).packet =
        some (sendData goodFile 9 0 9) := rfl
    have hunset : SendEvent.readUnsetHeader.packet = none := rfl
    rw [sendLoop_cons hbuffer, List.flatten_cons, List.cons_append,
      List.filterMap_cons_some hfirst, List.filterMap_cons_none hunset, List.filterMap_append,
      hblocks, hidle, List.append_nil]
  rw [dataPackets, hsent, List.filter_cons_of_neg (by simpa using hresponse), List.filter_eq_self]
  intro packet hpacket
  obtain ⟨j, hj, rfl⟩ := List.mem_map.mp hpacket
  have hlt := List.mem_range.mp hj
  have hslot := hslots j hlt
  rw [← Nat.zero_add j, ← hseq] at hslot
  have hflag := (blockPacket_parts hslot (by omega)).2.1
  simpa using hflag

private theorem dataPackets_parts (input : WakeUp) (inputs : List WakeUp) :
    let packets := dataPackets
      ⟨.response (sendData goodFile 9 0 9), sendLoop bufferSize s (input :: inputs)⟩
    packets.map (fun packet => ntohl (header packet).sequenceNum) = List.range packets.length ∧
      packets.map (List.drop 7) =
        (List.range (blockCount bufferSize s.file)).map (blockPayload bufferSize s) := by
  intro packets
  have hpackets : packets = _ :=
    dataPackets_sendLoop hbuffer hseq hslots hcount input inputs
  have hparts (j : Nat) (hj : j < blockCount bufferSize s.file) :
      ntohl (header (blockPacket bufferSize s j)).sequenceNum = j ∧
        (blockPacket bufferSize s j).drop 7 = blockPayload bufferSize s j := by
    have hslot := hslots j hj
    rw [← Nat.zero_add j, ← hseq] at hslot
    obtain ⟨hnumber, -, hdata⟩ := blockPacket_parts hslot (by omega)
    rw [hseq, Nat.zero_add] at hnumber
    exact ⟨hnumber, hdata⟩
  rw [hpackets, List.map_map, List.map_map, List.length_map, List.length_range]
  constructor
  · refine (List.map_congr_left ?_).trans (List.map_id _)
    intro j hj
    exact (hparts j (List.mem_range.mp hj)).1
  · apply List.map_congr_left
    intro j hj
    exact (hparts j (List.mem_range.mp hj)).2

omit hcount in
private theorem flatten_blockPayload_iff :
    ((List.range (blockCount bufferSize s.file)).map (blockPayload bufferSize s)).flatten =
      s.file ↔ bufferSize.toNat ∣ s.file.length := by
  have hslot (j : Nat) (hj : j < blockCount bufferSize s.file) :
      (s.window.getD (s.seq + j) []).length = bufferSize.toNat := by
    rw [hseq, Nat.zero_add]
    exact hslots j hj
  constructor
  · intro h
    have hslots : ∀ payload ∈ (List.range (blockCount bufferSize s.file)).map
        (blockPayload bufferSize s), payload.length = bufferSize.toNat := by
      intro payload hpayload
      obtain ⟨j, hj, rfl⟩ := List.mem_map.mp hpayload
      exact length_blockPayload (hslot j (List.mem_range.mp hj))
    have hlength := length_flatten_of_forall hslots
    rw [h, List.length_map, List.length_range] at hlength
    exact ⟨_, hlength.trans (Nat.mul_comm _ _)⟩
  · rintro ⟨q, hq⟩
    have hcount : blockCount bufferSize s.file = q := by
      rw [blockCount, hq, Nat.mul_add_div hbuffer, Nat.div_eq_of_lt (by omega), Nat.add_zero]
    have hwhole : (List.range (blockCount bufferSize s.file)).map (blockPayload bufferSize s) =
        (List.range q).map fun j =>
          (s.file.drop (j * bufferSize.toNat)).take bufferSize.toNat := by
      rw [hcount]
      apply List.map_congr_left
      intro j hj
      have hj' := List.mem_range.mp hj
      refine blockPayload_whole (hslot j (by omega)) ?_
      rw [hq, Nat.mul_comm]
      exact Nat.mul_le_mul_left _ hj'
    rw [hwhole, flatten_chunks, List.take_of_length_le]
    rw [hq, Nat.mul_comm]

end Run

/-- A run that is woken up transmits the file and only the file exactly when the slots can be
counted and no block of the file is short. -/
theorem handleSend_transmitsFile_iff (fopen : List UInt8 → Option (List UInt8))
    (heap : Nat → Nat → UInt8) (setupInfo : SetupInfo) (buf file : List UInt8)
    (inputs : List WakeUp) (hopen : fopen (requestedFile buf) = some file)
    (hbuffer : 1 ≤ setupInfo.bufferSize)
    (hwindow : blockCount setupInfo.bufferSize file ≤ setupInfo.windowSize.toNat)
    (hinputs : inputs ≠ []) :
    TransmitsFile file (handleSend fopen heap setupInfo buf inputs) ↔
      setupInfo.windowSize.toNat < 2 ^ 31 ∧ setupInfo.bufferSize.toNat ∣ file.length := by
  have hpositive : 1 ≤ setupInfo.bufferSize.toNat := UInt16.le_iff_toNat_le.mp hbuffer
  by_cases hsize : setupInfo.windowSize.toNat < 2 ^ 31
  · rw [handleSend_file fopen heap setupInfo buf file inputs hsize hopen, and_iff_right hsize]
    obtain ⟨input, rest, rfl⟩ := List.exists_cons_of_ne_nil hinputs
    let s : Sender :=
      { file, seq := 0, rrBuf := 0, buf
        window := (List.range setupInfo.windowSize.toNat).map fun i =>
          (List.range setupInfo.bufferSize.toNat).map (heap i) }
    have hslots : ∀ j < blockCount setupInfo.bufferSize s.file,
        (s.window.getD j []).length = setupInfo.bufferSize.toNat := by
      intro j hj
      exact length_slot heap setupInfo.bufferSize (Nat.lt_of_lt_of_le hj hwindow)
    have hcount : blockCount setupInfo.bufferSize s.file < 2 ^ 32 :=
      Nat.lt_of_le_of_lt hwindow setupInfo.windowSize.toNat_lt
    obtain ⟨hnumbers, hpayloads⟩ :=
      dataPackets_parts (s := s) hpositive rfl hslots hcount input rest
    rw [← flatten_blockPayload_iff (s := s) hpositive rfl hslots, ← hpayloads]
    constructor
    · rintro ⟨sending, hsending, -, hfile⟩
      obtain rfl := Option.some.inj hsending
      exact hfile
    · intro hfile
      exact ⟨_, rfl, hnumbers, hfile⟩
  · rw [handleSend_overflow fopen heap setupInfo buf inputs (by omega)]
    refine iff_of_false ?_ (fun h => hsize h.1)
    rintro ⟨sending, hsending, -⟩
    cases hsending

/-- A file of two blocks. -/
theorem handleSend_transmitsFile_two :
    TransmitsFile [104, 101, 108, 112] (handleSend (fun _ => some [104, 101, 108, 112])
      (fun _ _ => 7) roomySetup roomyRequest twoWakeUps) :=
  (handleSend_transmitsFile_iff (fun _ => some [104, 101, 108, 112]) (fun _ _ => 7) roomySetup
    roomyRequest [104, 101, 108, 112] twoWakeUps rfl (by decide) (by decide)
    (List.cons_ne_nil _ _)).mpr (by decide)

/-- A file of one byte is read into a slot of two, and both bytes of the slot are sent. -/
theorem short_block_padded :
    (handleSend (fun _ => some [104]) (fun _ _ => 7) ⟨slice smallRequest 7 100, 1, 2⟩ smallRequest
        [⟨0, []⟩]).map (fun sending => (dataPackets sending).map (List.drop 7)) =
          some [[104, 7]] ∧
      ¬TransmitsFile [104] (handleSend (fun _ => some [104]) (fun _ _ => 7)
        ⟨slice smallRequest 7 100, 1, 2⟩ smallRequest [⟨0, []⟩]) := by
  have hsent : (handleSend (fun _ => some [104]) (fun _ _ => 7) ⟨slice smallRequest 7 100, 1, 2⟩
      smallRequest [⟨0, []⟩]).map (fun sending => (dataPackets sending).map (List.drop 7)) =
        some [[104, 7]] := by
    decide +kernel
  refine ⟨hsent, ?_⟩
  rintro ⟨sending, hsending, -, hfile⟩
  rw [hsending, Option.map_some, Option.some.injEq] at hsent
  rw [hsent] at hfile
  exact absurd hfile (by decide)

end Cpe464.Transfer
