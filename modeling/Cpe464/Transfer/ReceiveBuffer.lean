import Cpe464.Transfer.Acknowledgement
import Cpe464.Transfer.WholeFile

/-!
# The receive buffer of rcopy

`talkToServer` receives at most 80 bytes of a datagram, whatever buffer size rcopy has asked for, so
that a data packet with more than 73 bytes of a file is cut. The checksum that `verifyData` compares
with is read through `udpHeader`, which is not set before the first datagram.
-/

namespace Cpe464.Transfer

/-- The result of `verifyData` in a turn of `talkToServer`. The checksum of a header that is not set
is a stray value. -/
def verifyReceived (s : RcopyLoop) (datagram : List UInt8) (stray : UInt16) : Int :=
  let buf := safeRecvfrom s.buf rcopyMaxBuf datagram
  let dataLen := min datagram.length rcopyMaxBuf
  (verifyData buf (UInt16.ofNat dataLen)
    (if s.headerSet then (header buf).checksum else stray.toNat)).1

/-- The packet is received whole, its payload is there in the case for flag 16, and it verifies. -/
structure SurvivesReceive (s : RcopyLoop) (stray : UInt16) (packet : DataPacket) : Prop where
  dataLen : min packet.datagram.length rcopyMaxBuf = packet.payload.length + 7
  flag : (header (talkToServer s packet.datagram).2.buf).flag = 16
  payload : slice (talkToServer s packet.datagram).2.buf 7 packet.payload.length = packet.payload
  verified : verifyReceived s packet.datagram stray = 0

/-! ## The packets of a run -/

/-- The data packets that `handleSend` sends for a request, each with a whole slot. -/
theorem exists_dataPacket (fopen : List UInt8 → Option (List UInt8)) (heap : Nat → Nat → UInt8)
    (setupInfo : SetupInfo) (buf file : List UInt8) (input : WakeUp) (inputs : List WakeUp)
    (hopen : fopen (requestedFile buf) = some file)
    (hbuffer : 1 ≤ setupInfo.bufferSize.toNat ∧ setupInfo.bufferSize.toNat ≤ 1400)
    (hwindow : blockCount setupInfo.bufferSize file ≤ setupInfo.windowSize.toNat)
    {sending : Sending}
    (hsending : handleSend fopen heap setupInfo buf (input :: inputs) = some sending)
    {datagram : List UInt8} (hdatagram : datagram ∈ dataPackets sending) :
    ∃ packet : DataPacket, packet.payload.length = setupInfo.bufferSize.toNat ∧
      packet.datagram = datagram := by
  have hsize : setupInfo.windowSize.toNat < 2 ^ 31 := by
    by_contra hsize
    rw [handleSend_overflow fopen heap setupInfo buf _ (by omega)] at hsending
    cases hsending
  rw [handleSend_file fopen heap setupInfo buf file _ hsize hopen] at hsending
  cases hsending
  let s : Sender :=
    { file, seq := 0, rrBuf := 0, buf
      window := (List.range setupInfo.windowSize.toNat).map fun i =>
        (List.range setupInfo.bufferSize.toNat).map (heap i) }
  have hslots : ∀ j < blockCount setupInfo.bufferSize s.file,
      (s.window.getD j []).length = setupInfo.bufferSize.toNat := by
    intro j hj
    exact length_slot heap setupInfo.bufferSize (Nat.lt_of_lt_of_le hj hwindow)
  rw [dataPackets_sendLoop (s := s) hbuffer.1 rfl hslots
    (Nat.lt_of_le_of_lt hwindow setupInfo.windowSize.toNat_lt)] at hdatagram
  obtain ⟨j, hj, rfl⟩ := List.mem_map.mp hdatagram
  have hslot := hslots j (List.mem_range.mp hj)
  rw [← Nat.zero_add j] at hslot
  have hlength := length_blockPayload hslot
  refine ⟨⟨UInt32.ofNat (s.seq + j), blockPayload setupInfo.bufferSize s j, by omega⟩, hlength, ?_⟩
  have hbytes : UInt16.ofNat (blockPayload setupInfo.bufferSize s j).length =
      setupInfo.bufferSize := by
    rw [hlength, UInt16.ofNat_toNat]
  exact congrArg (fun bytes => sendData (blockPayload setupInfo.bufferSize s j) bytes
    (UInt32.ofNat (s.seq + j)) 16) hbytes

/-! ## One turn -/

private theorem drop_hostSequence (buf : List UInt8) : (hostSequence buf).drop 7 = buf.drop 7 := by
  have hfour := length_toLE 4 (ntohl (header buf).sequenceNum)
  rw [hostSequence, overlay_zero, hfour, List.drop_append, hfour, List.drop_drop,
    List.drop_of_length_le (by omega), List.nil_append]

theorem payload_received (s : RcopyLoop) (packet : DataPacket)
    (hfit : packet.payload.length ≤ 73) :
    slice (talkToServer s packet.datagram).2.buf 7 packet.payload.length = packet.payload := by
  have hmax : rcopyMaxBuf = 80 := rfl
  have hbehind := drop_landed_sendData packet.payload s.buf packet.sequence 16
    (show packet.payload.length + 7 ≤ rcopyMaxBuf by omega) (by decide)
  show ((hostSequence (landed rcopyMaxBuf s.buf packet.datagram)).drop 7).take _ = _
  rw [drop_hostSequence, DataPacket.datagram, hbehind, List.take_left]

private theorem verifyData_checksum (buf : List UInt8) (len : UInt16) (checksum checksum' : Nat) :
    (verifyData buf len checksum).1 = (verifyData buf len checksum').1 + checksum' - checksum := by
  simp only [verifyData]
  omega

private theorem verifyReceived_eq_zero_iff (s : RcopyLoop) (packet : DataPacket) (stray : UInt16)
    (hfit : packet.payload.length ≤ 73) :
    verifyReceived s packet.datagram stray = 0 ↔
      s.headerSet = true ∨ stray.toNat = (header packet.datagram).checksum := by
  have hlength := packet.length_datagram
  have hmax : rcopyMaxBuf = 80 := rfl
  have hwhole : packet.datagram.take rcopyMaxBuf = packet.datagram :=
    List.take_of_length_le (by omega)
  have hown := verifyData_received (show rcopyMaxBuf ≤ 65535 by decide) s.buf packet.datagram
    (by rw [hwhole]; omega)
  have hverdict : verdict packet.datagram = 0 :=
    verdict_sendData packet.payload packet.sequence 16 (by omega)
  have hchecksum : (header (safeRecvfrom s.buf rcopyMaxBuf packet.datagram)).checksum =
      (header packet.datagram).checksum := by
    show ofLE (slice (safeRecvfrom _ _ _) 4 2) = ofLE (slice packet.datagram 4 2)
    rw [safeRecvfrom, hwhole, overlay_zero, slice_append_left _ _ 4 2 (by omega)]
  rw [hwhole, hverdict, hchecksum] at hown
  rw [verifyReceived]
  cases s.headerSet with
  | true =>
    rw [if_pos rfl, hchecksum]
    exact iff_of_true hown (.inl rfl)
  | false =>
    have hstray := verifyData_checksum (safeRecvfrom s.buf rcopyMaxBuf packet.datagram)
      (UInt16.ofNat (min packet.datagram.length rcopyMaxBuf)) stray.toNat
      (header packet.datagram).checksum
    rw [hown] at hstray
    rw [if_neg (by decide), hstray]
    simp only [Bool.false_eq_true, false_or]
    omega

/-- A data packet survives the receive buffer exactly when it carries at most 73 bytes and the
checksum is read from the packet, or a stray one happens to be that of the packet. -/
theorem talkToServer_survives_iff (s : RcopyLoop) (stray : UInt16) (packet : DataPacket) :
    SurvivesReceive s stray packet ↔
      packet.payload.length ≤ 73 ∧
        (s.headerSet = true ∨ stray.toNat = (header packet.datagram).checksum) := by
  have hlength := packet.length_datagram
  have hmax : rcopyMaxBuf = 80 := rfl
  constructor
  · intro h
    have hfit : packet.payload.length ≤ 73 := by
      have hwhole := h.dataLen
      omega
    exact ⟨hfit, (verifyReceived_eq_zero_iff s packet stray hfit).mp h.verified⟩
  · rintro ⟨hfit, hchecksum⟩
    constructor
    · omega
    · exact (flag_received s.length_buf packet.datagram).trans
        (flagSeen_sendData s.buf packet.payload packet.sequence 16 (by omega))
    · exact payload_received s packet hfit
    · exact (verifyReceived_eq_zero_iff s packet stray hfit).mpr hchecksum

/-- A block for a buffer size of 74. -/
def cutPacket : DataPacket := ⟨0, List.replicate 74 1, by decide⟩

/-- Behind the connect response the last byte of the block is lost, and the rest does not verify. -/
theorem last_byte_cut :
    let s := (talkToServer rcopyStart (sendData goodFile 9 0 9)).2
    slice (talkToServer s cutPacket.datagram).2.buf 7 74 = List.replicate 73 1 ++ [0] ∧
      verifyReceived s cutPacket.datagram 0 ≠ 0 ∧ ¬SurvivesReceive s 0 cutPacket := by
  intro s
  have hrejected : verifyReceived s cutPacket.datagram 0 ≠ 0 := by decide +kernel
  refine ⟨by decide +kernel, hrejected, ?_⟩
  intro h
  exact hrejected h.verified

end Cpe464.Transfer
