import Cpe464.Trace.Parse

/-!
# Checksum verdicts

`in_cksum` adds the words of a header in the byte order of the host. Its verdicts are those of the
standard, which sums big-endian words: on the IP header with its options, and on the TCP segment
behind the pseudo header.
-/

namespace Cpe464.Trace

open Transfer (inCksum addWords addWords_eq inCksum_eq)

/-- The bytes `in_cksum` goes over and the verdict that is printed. -/
def Step.checksum? : Step → Option (List UInt8 × Bool)
  | .checksum bytes correct _ => some (bytes, correct)
  | _ => none

def checksums (steps : List Step) : List (List UInt8 × Bool) := steps.filterMap Step.checksum?

def FitsInt (n : Int) : Prop := -2 ^ 31 ≤ n ∧ n < 2 ^ 31

/-- The exact sums of the loop of `in_cksum` fit its accumulator. -/
def AdditionsFit : Int → List UInt8 → Prop
  | sum, a :: b :: bytes =>
      FitsInt (sum + (a.toNat + 256 * b.toNat)) ∧
      AdditionsFit (sum + (a.toNat + 256 * b.toNat)) bytes
  | sum, [a] => FitsInt (sum + a.toNat)
  | _, [] => True

/-- The accumulator of `in_cksum` does not overflow, neither in the loop nor when the carries are
added back. -/
def AccumulatorFits (bytes : List UInt8) : Prop :=
  let sum := addWords 0 bytes
  let folded := sum / 65536 + sum % 65536
  AdditionsFit 0 bytes ∧ FitsInt folded ∧ FitsInt (folded + folded / 65536)

private theorem additionsFit_of_lt (sum : Nat) (bytes : List UInt8)
    (h : sum + wordSum bytes < 2 ^ 31) : AdditionsFit sum bytes := by
  fun_induction wordSum bytes generalizing sum with
  | case1 a b bytes ih =>
    have hrest := ih (sum + (a.toNat + 256 * b.toNat)) (by omega)
    rw [AdditionsFit, FitsInt]
    push_cast at hrest
    exact ⟨by omega, hrest⟩
  | case2 a =>
    rw [AdditionsFit, FitsInt]
    omega
  | case3 => trivial

private theorem accumulatorFits_of_length (bytes : List UInt8) (h : bytes.length ≤ 65535) :
    AccumulatorFits bytes := by
  have hsum := wordSum_le bytes
  have hadditions := additionsFit_of_lt 0 bytes (by omega)
  have hwords := addWords_eq 0 bytes (by omega)
  rw [Nat.cast_zero] at hadditions hwords
  refine ⟨hadditions, ?_, ?_⟩
  · rw [hwords, FitsInt]
    omega
  · rw [hwords, FitsInt]
    omega

theorem inCksum_eq_zero_iff (bytes : List UInt8) (h : bytes.length ≤ 65535) :
    inCksum bytes = 0 ↔ bigEndianSum bytes = 0xffff := by
  have hsum := wordSum_le bytes
  have hlt := foldCarries_lt (wordSum bytes)
  rw [inCksum_eq bytes h, ← foldCarries_full_iff bytes (by omega)]
  omega

/-! ## The checksums of a frame -/

section Steps

variable (steps : List Step)

@[simp] theorem checksums_append (steps' : List Step) :
    checksums (steps ++ steps') = checksums steps ++ checksums steps' := List.filterMap_append

@[simp] theorem checksums_nil : checksums [] = [] := rfl

@[simp] theorem checksums_read (offset count : Nat) :
    checksums (.read offset count :: steps) = checksums steps := rfl

@[simp] theorem checksums_heading (text : String) :
    checksums (.heading text :: steps) = checksums steps := rfl

@[simp] theorem checksums_line (label : String) (value : Value) :
    checksums (.line label value :: steps) = checksums steps := rfl

@[simp] theorem checksums_checksum (bytes : List UInt8) (correct : Bool) (field : Nat) :
    checksums (.checksum bytes correct field :: steps) = (bytes, correct) :: checksums steps := rfl

@[simp] theorem checksums_portLine (label : String) (port : Nat) :
    checksums (portLine label port :: steps) = checksums steps := by
  unfold portLine
  split <;> rfl

@[simp] theorem checksums_typeLine (type : Nat) :
    checksums (typeLine type :: steps) = checksums steps := by
  unfold typeLine
  split <;> rfl

@[simp] theorem checksums_protocolLine (proto : Nat) :
    checksums (protocolLine proto :: steps) = checksums steps := by
  unfold protocolLine
  split <;> rfl

@[simp] theorem checksums_flagLine (label : String) (flags bit : Nat) :
    checksums (flagLine label flags bit :: steps) = checksums steps := rfl

end Steps

section Frame

variable (packet : List UInt8) (start : Nat)

private theorem checksums_getIcmpInfo : checksums (getIcmpInfo packet start) = [] := by
  simp [getIcmpInfo]

private theorem checksums_getUdpInfo : checksums (getUdpInfo packet start) = [] := by
  simp [getUdpInfo]

private theorem checksums_getTcpInfo (psHead : TcpPsHead) :
    let bytes := psHead.bytes ++ slice packet start (ntohs psHead.tcpLen)
    checksums (getTcpInfo packet start psHead) = [(bytes, decide (inCksum bytes = 0))] := by
  simp [getTcpInfo, checksumSteps]

private theorem checksums_getIpInfo :
    let header := slice packet start (headerLen packet start)
    checksums (getIpInfo packet start) =
      (header, decide (inCksum header = 0)) :: checksums (getPayloadInfo packet start) := by
  simp [getIpInfo, checksumSteps]

private theorem checksums_getPayloadInfo :
    let bytes := (psHead packet start).bytes ++
      slice packet (start + headerLen packet start) (segmentLen packet start)
    checksums (getPayloadInfo packet start) =
      if byteAt packet (start + 9) = 6 then [(bytes, decide (inCksum bytes = 0))] else [] := by
  intro bytes
  unfold getPayloadInfo
  split
  · rename_i hproto
    rw [if_neg (by intro h; rw [h] at hproto; exact absurd hproto (by decide)),
      checksums_getIcmpInfo]
  · rename_i hproto
    rw [if_pos (UInt8.toNat.inj hproto), checksums_append, checksums_getTcpInfo, ntohs_psHead]
    rfl
  · rename_i hproto
    rw [if_neg (by intro h; rw [h] at hproto; exact absurd hproto (by decide)),
      checksums_getUdpInfo]
  · rename_i hicmp htcp hudp
    rw [if_neg (fun h => htcp (congrArg UInt8.toNat h))]
    rfl

private theorem bytes_psHead :
    (psHead packet start).bytes =
      slice packet (start + 12) 4 ++ slice packet (start + 16) 4 ++
        [0, byteAt packet (start + 9), UInt8.ofNat (segmentLen packet start / 256),
          UInt8.ofNat (segmentLen packet start)] := by
  have hlength : toLE 2 (psHead packet start).tcpLen =
      [UInt8.ofNat (segmentLen packet start / 256), UInt8.ofNat (segmentLen packet start)] :=
    toLE_swapBytes 2 (segmentLen packet start)
  rw [TcpPsHead.bytes, hlength, List.append_assoc _ [_, _]]
  rfl

end Frame

private theorem headerLen_segmentLen {frame : List UInt8} {ihl totalLen : Nat}
    (hihl : ihl = (byteAt frame 14).toNat % 16)
    (htotalLen : totalLen = 256 * (byteAt frame 16).toNat + (byteAt frame 17).toNat)
    (hheader : 4 * ihl ≤ totalLen) (hcaptured : 18 ≤ frame.length) :
    headerLen frame 14 = 4 * ihl ∧ segmentLen frame 14 = totalLen - 4 * ihl := by
  have hlen : headerLen frame 14 = 4 * ihl := by
    rw [headerLen, ← hihl, Nat.mul_comm]
  have htotal : netShort frame 16 = totalLen := by
    rw [netShort_eq frame 16 hcaptured, ← htotalLen]
  have hhigh := (byteAt frame 16).toNat_lt
  have hlow := (byteAt frame 17).toNat_lt
  refine ⟨hlen, ?_⟩
  rw [segmentLen, hlen, show 14 + 2 = 16 from rfl, htotal]
  omega

private theorem length_segment_le (packet fields : List UInt8) (source dest start count : Nat)
    (hfields : fields.length = 4) :
    (slice packet source 4 ++ slice packet dest 4 ++ fields ++
      slice packet start count).length ≤ 12 + count := by
  have hsource := length_slice_le packet source 4
  have hdest := length_slice_le packet dest 4
  have hbytes := length_slice_le packet start count
  simp only [List.length_append, hfields]
  omega

private theorem checksums_getEthInfo {frame : List UInt8} (hether : netShort frame 12 = 0x0800) :
    let header := slice frame 14 (headerLen frame 14)
    let bytes := (psHead frame 14).bytes ++
      slice frame (14 + headerLen frame 14) (segmentLen frame 14)
    checksums (getEthInfo frame).2 = (header, decide (inCksum header = 0)) ::
      if byteAt frame 23 = 6 then [(bytes, decide (inCksum bytes = 0))] else [] := by
  unfold getEthInfo
  rw [hether]
  simp only [checksums_append, checksums_getIpInfo, checksums_getPayloadInfo]
  rfl

/-- On a captured IP packet the verdicts are those of the standard: on the header with its options,
and on a TCP segment behind its pseudo header. The accumulator does not overflow. -/
theorem getEthInfo_checksums (frame : List UInt8) (ihl totalLen : Nat)
    (htype : byteAt frame 12 = 8 ∧ byteAt frame 13 = 0)
    (hihl : ihl = (byteAt frame 14).toNat % 16) (hlow : 5 ≤ ihl)
    (htotalLen : totalLen = 256 * (byteAt frame 16).toNat + (byteAt frame 17).toNat)
    (hheader : 4 * ihl ≤ totalLen) (hcaptured : 14 + totalLen ≤ frame.length) :
    let found := checksums (getEthInfo frame).2
    let header := slice frame 14 (4 * ihl)
    let segmentSize := totalLen - 4 * ihl
    let segment := slice frame (14 + 4 * ihl) segmentSize
    let pseudoHeader := slice frame 26 4 ++ slice frame 30 4 ++
      [0, byteAt frame 23, UInt8.ofNat (segmentSize / 256), UInt8.ofNat segmentSize]
    found.head? = some (header, decide (bigEndianSum header = 0xffff)) ∧
    (byteAt frame 23 = 6 → found =
      [(header, decide (bigEndianSum header = 0xffff)),
        (pseudoHeader ++ segment, decide (bigEndianSum (pseudoHeader ++ segment) = 0xffff))]) ∧
    ∀ checked ∈ found, AccumulatorFits checked.1 := by
  intro found header segmentSize segment pseudoHeader
  obtain ⟨hlen, hsegment⟩ := headerLen_segmentLen hihl htotalLen hheader (by omega)
  have hether : netShort frame 12 = 0x0800 := by
    rw [netShort_eq frame 12 (by omega), htype.1, htype.2]
    rfl
  have hhigh := (byteAt frame 16).toNat_lt
  have hlowByte := (byteAt frame 17).toNat_lt
  have hheaderSize : header.length ≤ 65535 :=
    Nat.le_trans (length_slice_le frame _ _) (by omega)
  have hsegmentSize : (pseudoHeader ++ segment).length ≤ 65535 :=
    Nat.le_trans (length_segment_le frame _ 26 30 _ _ rfl) (by omega)
  have hfound : found = (header, decide (inCksum header = 0)) ::
      if byteAt frame 23 = 6 then
        [(pseudoHeader ++ segment, decide (inCksum (pseudoHeader ++ segment) = 0))] else [] := by
    show checksums (getEthInfo frame).2 = _
    rw [checksums_getEthInfo hether, bytes_psHead, hlen, hsegment]
  have hverdict := inCksum_eq_zero_iff header hheaderSize
  have hverdict' := inCksum_eq_zero_iff (pseudoHeader ++ segment) hsegmentSize
  rw [hfound]
  simp only [hverdict, hverdict']
  refine ⟨rfl, ?_, ?_⟩
  · intro htcp
    rw [if_pos htcp]
  · intro checked hchecked
    rw [List.mem_cons] at hchecked
    rcases hchecked with rfl | hchecked
    · exact accumulatorFits_of_length header hheaderSize
    · split at hchecked
      · rw [List.mem_singleton.mp hchecked]
        exact accumulatorFits_of_length _ hsegmentSize
      · exact absurd hchecked List.not_mem_nil

/-- A TCP segment without data, from 10.0.0.1 to 10.0.0.2. -/
def tcpFrame : List UInt8 :=
  [2, 0, 0, 0, 0, 2, 2, 0, 0, 0, 0, 1, 8, 0] ++
    [69, 0, 0, 40, 0, 1, 0, 0, 64, 6, 102, 205, 10, 0, 0, 1, 10, 0, 0, 2] ++
    [31, 144, 0, 80, 0, 0, 0, 1, 0, 0, 0, 0, 80, 2, 4, 0, 119, 255, 0, 0]

theorem getEthInfo_checksums_tcpFrame :
    (checksums (getEthInfo tcpFrame).2).map Prod.snd = [true, true] := by
  obtain ⟨-, htcp, -⟩ := getEthInfo_checksums tcpFrame 5 40 (by decide) (by decide) (by decide)
    (by decide) (by decide) (by decide)
  rw [htcp (by decide)]
  decide

end Cpe464.Trace
