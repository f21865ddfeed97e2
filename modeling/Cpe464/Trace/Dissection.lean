import Cpe464.Trace.Capture
import Cpe464.Trace.Checksum

/-!
# Frames and their trace

A frame as its layers see it: an Ethernet header in front of an IP packet, an ARP message or
something else, and what the IP packet carries. Laid out as bytes it is traced field by field, and
nothing behind it makes a difference.
-/

namespace Cpe464.Trace

open Transfer (inCksum)

/-! ## The memory behind a record -/

section Captured

variable {data : List UInt8} (behind : List UInt8)

private theorem netLong_append (offset : Nat) (h : offset + 4 ≤ data.length) :
    netLong (data ++ behind) offset = netLong data offset := by
  rw [netLong, slice_append_left _ _ _ _ h, netLong]

private theorem checksumSteps_append (bytes : List UInt8) (offset : Nat)
    (h : offset + 2 ≤ data.length) :
    checksumSteps (data ++ behind) bytes offset = checksumSteps data bytes offset := by
  rw [checksumSteps, netShort_append _ _ _ h, checksumSteps]

private theorem getIcmpInfo_append (start : Nat) (h : start + 1 ≤ data.length) :
    getIcmpInfo (data ++ behind) start = getIcmpInfo data start := by
  rw [getIcmpInfo, byteAt_append_left _ _ _ (by omega), getIcmpInfo]

private theorem getUdpInfo_append (start : Nat) (h : start + 4 ≤ data.length) :
    getUdpInfo (data ++ behind) start = getUdpInfo data start := by
  rw [getUdpInfo, netShort_append _ _ _ (by omega), netShort_append _ _ _ (by omega), getUdpInfo]

private theorem getTcpInfo_append (start : Nat) (psHead : TcpPsHead) (h : start + 18 ≤ data.length)
    (hsegment : start + ntohs psHead.tcpLen ≤ data.length) :
    getTcpInfo (data ++ behind) start psHead = getTcpInfo data start psHead := by
  simp only [getTcpInfo]
  rw [byteAt_append_left _ _ _ (by omega), byteAt_append_left _ _ _ (by omega),
    netShort_append _ _ _ (by omega), netShort_append _ _ _ (by omega),
    netLong_append _ _ (by omega), netLong_append _ _ (by omega), netShort_append _ _ _ (by omega),
    slice_append_left _ _ _ _ hsegment, checksumSteps_append _ _ _ (by omega)]

private theorem psHead_append (start : Nat) (h : start + 20 ≤ data.length) :
    psHead (data ++ behind) start = psHead data start := by
  simp only [psHead, segmentLen]
  rw [slice_append_left _ _ _ _ (by omega), slice_append_left _ _ _ _ (by omega),
    byteAt_append_left _ _ _ (by omega), netShort_append _ _ _ (by omega),
    headerLen_append _ _ _ (by omega)]

private theorem getPayloadInfo_append (start : Nat) (h : start + 20 ≤ data.length)
    (hpayload : PayloadBelow data.length data start) :
    getPayloadInfo (data ++ behind) start = getPayloadInfo data start := by
  obtain ⟨hicmp, htcp, hudp⟩ := hpayload
  unfold getPayloadInfo
  rw [byteAt_append_left _ _ _ (by omega), headerLen_append _ _ _ (by omega), psHead_append _ _ h]
  split
  · rename_i hproto
    rw [getIcmpInfo_append _ _ (hicmp hproto)]
  · rename_i hproto
    rw [getTcpInfo_append _ _ _ (htcp hproto).1
      (by rw [ntohs_psHead]; exact (htcp hproto).2)]
  · rename_i hproto
    rw [getUdpInfo_append _ _ (hudp hproto)]
  · rfl

private theorem getIpInfo_append (start : Nat) (h : start + 20 ≤ data.length)
    (hheader : start + headerLen data start ≤ data.length)
    (hpayload : PayloadBelow data.length data start) :
    getIpInfo (data ++ behind) start = getIpInfo data start := by
  simp only [getIpInfo]
  rw [headerLen_append _ _ _ (by omega), byteAt_append_left _ _ start (by omega),
    byteAt_append_left _ _ (start + 1) (by omega), byteAt_append_left _ _ (start + 8) (by omega),
    byteAt_append_left _ _ (start + 9) (by omega), slice_append_left _ _ _ _ hheader,
    checksumSteps_append _ _ _ (by omega), slice_append_left _ _ (start + 12) _ (by omega),
    slice_append_left _ _ (start + 16) _ (by omega), getPayloadInfo_append _ _ h hpayload]

private theorem getArpInfo_append (start : Nat) (h : start + 28 ≤ data.length) :
    getArpInfo (data ++ behind) start = getArpInfo data start := by
  simp only [getArpInfo]
  rw [netShort_append _ _ _ (by omega), slice_append_left _ _ (start + 8) _ (by omega),
    slice_append_left _ _ (start + 14) _ (by omega),
    slice_append_left _ _ (start + 18) _ (by omega),
    slice_append_left _ _ (start + 24) _ (by omega)]

private theorem getEthInfo_append (h : CapturedWhole data) :
    getEthInfo (data ++ behind) = getEthInfo data := by
  obtain ⟨hether, hip, harp⟩ := h
  unfold getEthInfo
  rw [netShort_append _ _ _ (by omega), slice_append_left _ _ 0 _ (by omega),
    slice_append_left _ _ 6 _ (by omega)]
  split
  · rename_i htype
    obtain ⟨hlow, hheader, hpayload⟩ := hip htype
    rw [getIpInfo_append _ _ hlow hheader hpayload]
  · rename_i htype
    rw [getArpInfo_append _ _ (harp htype)]
  · rfl

end Captured

/-! ## Layout -/

/-- A 16-bit field in network order. -/
def short (v : UInt16) : List UInt8 := (toLE 2 v.toNat).reverse

def long (v : UInt32) : List UInt8 := (toLE 4 v.toNat).reverse

structure TcpFlags where
  fin : Bool
  syn : Bool
  rst : Bool
  psh : Bool
  ack : Bool
  urg : Bool
  ece : Bool
  cwr : Bool

/-- The byte of the flags, the first one in its lowest bit. -/
def TcpFlags.byte (f : TcpFlags) : UInt8 :=
  UInt8.ofNat (f.fin.toNat + 2 * (f.syn.toNat + 2 * (f.rst.toNat + 2 * (f.psh.toNat +
    2 * (f.ack.toNat + 2 * (f.urg.toNat + 2 * (f.ece.toNat + 2 * f.cwr.toNat)))))))

/-- A TCP segment; `rest` begins with the urgent pointer. -/
structure TcpSegment where
  srcPort : UInt16
  destPort : UInt16
  seqNum : UInt32
  ack : UInt32
  res : Fin 16
  dataOfst : Fin 16
  flags : TcpFlags
  window : UInt16
  checksum : UInt16
  rest : List UInt8

def TcpSegment.bytes (t : TcpSegment) : List UInt8 :=
  short t.srcPort ++ short t.destPort ++ long t.seqNum ++ long t.ack ++
    [UInt8.ofNat (t.res + 16 * t.dataOfst), t.flags.byte] ++ short t.window ++ short t.checksum ++
    t.rest

/-- What an IP packet carries. -/
inductive Carried
  | icmp (type : UInt8) (rest : List UInt8)
  | tcp (segment : TcpSegment)
  | udp (srcPort destPort : UInt16) (rest : List UInt8)
  | other (proto : UInt8) (hproto : proto ∉ ([1, 6, 17] : List UInt8)) (bytes : List UInt8)

namespace Carried

def proto : Carried → UInt8
  | icmp _ _ => 1
  | tcp _ => 6
  | udp _ _ _ => 17
  | other proto _ _ => proto

def bytes : Carried → List UInt8
  | icmp type rest => type :: rest
  | tcp segment => segment.bytes
  | udp srcPort destPort rest => short srcPort ++ short destPort ++ rest
  | other _ _ bytes => bytes

end Carried

/-- An IP packet, with the number of words that its options take. -/
structure IpPacket where
  version : Fin 16
  dscp : Fin 64
  ecn : Fin 4
  id : UInt16
  fragment : UInt16
  ttl : UInt8
  checksum : UInt16
  srcAddr : List UInt8
  destAddr : List UInt8
  words : Nat
  options : List UInt8
  carried : Carried
  length_srcAddr : srcAddr.length = 4
  length_destAddr : destAddr.length = 4
  words_le : words ≤ 10
  length_options : options.length = 4 * words
  fits : 20 + 4 * words + carried.bytes.length ≤ 65535

namespace IpPacket

def ihl (ip : IpPacket) : Nat := 5 + ip.words

def totalLen (ip : IpPacket) : Nat := 4 * ip.ihl + ip.carried.bytes.length

def header (ip : IpPacket) : List UInt8 :=
  [UInt8.ofNat (ip.ihl + 16 * ip.version), UInt8.ofNat (ip.ecn + 4 * ip.dscp)] ++
    short (UInt16.ofNat ip.totalLen) ++ short ip.id ++ short ip.fragment ++
    [ip.ttl, ip.carried.proto] ++ short ip.checksum ++ ip.srcAddr ++ ip.destAddr ++ ip.options

def bytes (ip : IpPacket) : List UInt8 := ip.header ++ ip.carried.bytes

/-- The pseudo header of a TCP segment. -/
def pseudoHeader (ip : IpPacket) : List UInt8 :=
  ip.srcAddr ++ ip.destAddr ++ [0, 6] ++ short (UInt16.ofNat ip.carried.bytes.length)

end IpPacket

structure ArpMessage where
  hwType : UInt16
  protoType : UInt16
  hwLen : UInt8
  protoLen : UInt8
  op : UInt16
  sha : List UInt8
  spa : List UInt8
  tha : List UInt8
  tpa : List UInt8
  length_sha : sha.length = 6
  length_spa : spa.length = 4
  length_tha : tha.length = 6
  length_tpa : tpa.length = 4

def ArpMessage.bytes (arp : ArpMessage) : List UInt8 :=
  short arp.hwType ++ short arp.protoType ++ [arp.hwLen, arp.protoLen] ++ short arp.op ++ arp.sha ++
    arp.spa ++ arp.tha ++ arp.tpa

inductive Content
  | ip (packet : IpPacket)
  | arp (message : ArpMessage)
  | other (type : UInt16) (htype : type ∉ ([0x0800, 0x0806] : List UInt16)) (bytes : List UInt8)

namespace Content

def type : Content → UInt16
  | ip _ => 0x0800
  | arp _ => 0x0806
  | other type _ _ => type

def bytes : Content → List UInt8
  | ip packet => packet.bytes
  | arp message => message.bytes
  | other _ _ bytes => bytes

end Content

structure Frame where
  destAddr : List UInt8
  srcAddr : List UInt8
  content : Content
  length_destAddr : destAddr.length = 6
  length_srcAddr : srcAddr.length = 6

def Frame.bytes (f : Frame) : List UInt8 :=
  f.destAddr ++ f.srcAddr ++ short f.content.type ++ f.content.bytes

/-! ## What is to be printed -/

/-- The line of a checksum that is right when the big-endian words add up to all ones. -/
def verdict (bytes : List UInt8) (field : UInt16) : Step :=
  .checksum bytes (bigEndianSum bytes = 0xffff) field.toNat

def yesNo (label : String) (flag : Bool) : Step :=
  .line label (.text (if flag then "Yes" else "No"))

def IpPacket.carriedLines (ip : IpPacket) : List Step :=
  match ip.carried with
  | .icmp type _ => [.heading "ICMP Header", typeLine type.toNat]
  | .tcp t =>
      [.heading "TCP Header", portLine "Source Port" t.srcPort.toNat,
        portLine "Dest Port" t.destPort.toNat, .line "Sequence Number" (.number t.seqNum.toNat),
        .line "ACK Number" (.number t.ack.toNat),
        .line "Data Offset (bytes)" (.number (4 * t.dataOfst)), yesNo "SYN Flag" t.flags.syn,
        yesNo "RST Flag" t.flags.rst, yesNo "FIN Flag" t.flags.fin, yesNo "ACK Flag" t.flags.ack,
        .line "Window Size" (.number t.window.toNat),
        verdict (ip.pseudoHeader ++ t.bytes) t.checksum]
  | .udp srcPort destPort _ =>
      [.heading "UDP Header", portLine "Source Port" srcPort.toNat,
        portLine "Dest Port" destPort.toNat]
  | .other _ _ _ => []

def IpPacket.lines (ip : IpPacket) : List Step :=
  [.heading "IP Header", .line "IP Version" (.number ip.version),
    .line "Header Len (bytes)" (.number (4 * ip.ihl)), .heading "TOS subfields:",
    .line "Diffserv bits" (.number ip.dscp), .line "ECN bits" (.number ip.ecn),
    .line "TTL" (.number ip.ttl.toNat), protocolLine ip.carried.proto.toNat,
    verdict ip.header ip.checksum, .line "Sender IP" (.address ip.srcAddr),
    .line "Dest IP" (.address ip.destAddr)] ++ ip.carriedLines

def ArpMessage.lines (arp : ArpMessage) : List Step :=
  .heading "ARP header" :: opcodeLine arp.op.toNat ++
    [.line "Sender MAC" (.mac arp.sha), .line "Sender IP" (.address arp.spa),
      .line "Target MAC" (.mac arp.tha), .line "Target IP" (.address arp.tpa)]

def Content.lines : Content → List Step
  | ip packet => .line "Type" (.text "IP") :: packet.lines
  | arp message => .line "Type" (.text "ARP") :: message.lines
  | other _ _ _ => [.line "Type" (.text "Unknown")]

def Frame.lines (f : Frame) : List Step :=
  [.heading "Ethernet Header", .line "Dest MAC" (.mac f.destAddr),
    .line "Source MAC" (.mac f.srcAddr)] ++ f.content.lines

/-- The output of some steps: what they do without the reads. -/
def printed (steps : List Step) : List Step :=
  steps.filter fun step => match step with
    | .read _ _ => false
    | _ => true

section Printed

variable (steps : List Step)

private theorem printed_append (steps' : List Step) : printed (steps ++ steps') =
    printed steps ++ printed steps' := List.filter_append ..

@[simp] theorem printed_nil : printed [] = [] := rfl

@[simp] theorem printed_read (offset count : Nat) :
    printed (.read offset count :: steps) = printed steps := rfl

@[simp] theorem printed_heading (text : String) :
    printed (.heading text :: steps) = .heading text :: printed steps := rfl

@[simp] theorem printed_line (label : String) (value : Value) :
    printed (.line label value :: steps) = .line label value :: printed steps := rfl

@[simp] theorem printed_portLine (label : String) (port : Nat) :
    printed (portLine label port :: steps) = portLine label port :: printed steps := by
  unfold portLine
  split <;> rfl

@[simp] theorem printed_typeLine (type : Nat) :
    printed (typeLine type :: steps) = typeLine type :: printed steps := by
  unfold typeLine
  split <;> rfl

@[simp] theorem printed_protocolLine (proto : Nat) :
    printed (protocolLine proto :: steps) = protocolLine proto :: printed steps := by
  unfold protocolLine
  split <;> rfl

@[simp] theorem printed_opcodeLine (op : Nat) : printed (opcodeLine op) = opcodeLine op := by
  unfold opcodeLine
  split <;> rfl

@[simp] theorem printed_verdict (bytes : List UInt8) (field : UInt16) :
    printed (verdict bytes field :: steps) = verdict bytes field :: printed steps := rfl

end Printed

/-! ## Fields in front of a rest -/

@[simp] theorem length_short (v : UInt16) : (short v).length = 2 := by
  rw [short, List.length_reverse, length_toLE]

@[simp] theorem length_long (v : UInt32) : (long v).length = 4 := by
  rw [long, List.length_reverse, length_toLE]

section Field

variable {packet rest : List UInt8} {offset : Nat}

private theorem slice_of_drop {bytes : List UInt8} (h : packet.drop offset = bytes ++ rest)
    {count : Nat} (hcount : bytes.length = count) : slice packet offset count = bytes := by
  rw [slice, h, List.take_left' hcount]

private theorem drop_behind {bytes : List UInt8} (h : packet.drop offset = bytes ++ rest)
    {next : Nat} (hnext : offset + bytes.length = next) : packet.drop next = rest := by
  rw [← hnext, ← List.drop_drop, h, List.drop_left]

private theorem drop_behind_byte {b : UInt8} (h : packet.drop offset = b :: rest) :
    packet.drop (offset + 1) = rest := by
  rw [← List.drop_drop, h]
  rfl

private theorem byteAt_of_drop {b : UInt8} (h : packet.drop offset = b :: rest) :
    byteAt packet offset = b := by
  have hbyte : byteAt (packet.drop offset) 0 = byteAt packet offset := by
    simp only [byteAt, List.getD_eq_getElem?_getD, List.getElem?_drop, Nat.add_zero]
  rw [← hbyte, h, byteAt_cons_zero]

private theorem netShort_of_drop {v : UInt16} (h : packet.drop offset = short v ++ rest) :
    netShort packet offset = v.toNat := by
  have hswap : ofLE (short v) = swapBytes 2 v.toNat := rfl
  rw [netShort, slice_of_drop h (length_short v), hswap, ntohs, swapBytes_swapBytes]
  exact Nat.mod_eq_of_lt v.toNat_lt

private theorem netLong_of_drop {v : UInt32} (h : packet.drop offset = long v ++ rest) :
    netLong packet offset = v.toNat := by
  have hswap : ofLE (long v) = swapBytes 4 v.toNat := rfl
  rw [netLong, slice_of_drop h (length_long v), hswap, ntohl, swapBytes_swapBytes]
  exact Nat.mod_eq_of_lt v.toNat_lt

end Field

private theorem verdict_eq (bytes : List UInt8) (h : bytes.length ≤ 65535) (field : UInt16) :
    Step.checksum bytes (inCksum bytes = 0) field.toNat = verdict bytes field := by
  simp only [verdict, inCksum_eq_zero_iff bytes h]

private theorem flagLine_byte (f : TcpFlags) :
    flagLine "SYN Flag" f.byte.toNat 1 = yesNo "SYN Flag" f.syn ∧
    flagLine "RST Flag" f.byte.toNat 2 = yesNo "RST Flag" f.rst ∧
    flagLine "FIN Flag" f.byte.toNat 0 = yesNo "FIN Flag" f.fin ∧
    flagLine "ACK Flag" f.byte.toNat 4 = yesNo "ACK Flag" f.ack := by
  obtain ⟨fin, syn, rst, psh, ack, urg, ece, cwr⟩ := f
  revert fin syn rst psh ack urg ece cwr
  decide

/-! ## The parsers on laid out bytes -/

section Parsers

variable {packet trailing : List UInt8} {start : Nat}

private theorem printed_getTcpInfo (t : TcpSegment) {psHead : TcpPsHead}
    (h : packet.drop start = t.bytes ++ trailing) (hlen : ntohs psHead.tcpLen = t.bytes.length)
    (hfits : (psHead.bytes ++ t.bytes).length ≤ 65535) :
    printed (getTcpInfo packet start psHead) =
      [.heading "TCP Header", portLine "Source Port" t.srcPort.toNat,
        portLine "Dest Port" t.destPort.toNat, .line "Sequence Number" (.number t.seqNum.toNat),
        .line "ACK Number" (.number t.ack.toNat),
        .line "Data Offset (bytes)" (.number (4 * t.dataOfst)), yesNo "SYN Flag" t.flags.syn,
        yesNo "RST Flag" t.flags.rst, yesNo "FIN Flag" t.flags.fin, yesNo "ACK Flag" t.flags.ack,
        .line "Window Size" (.number t.window.toNat),
        verdict (psHead.bytes ++ t.bytes) t.checksum] := by
  have hsegment := slice_of_drop h rfl
  rw [← hlen] at hsegment
  simp only [TcpSegment.bytes, List.append_assoc, List.cons_append, List.nil_append] at h
  have hdest : packet.drop (start + 2) = _ := drop_behind h (by rw [length_short])
  have hseq : packet.drop (start + 4) = _ := drop_behind hdest (by rw [length_short])
  have hack : packet.drop (start + 8) = _ := drop_behind hseq (by rw [length_long])
  have hofst : packet.drop (start + 12) = _ := drop_behind hack (by rw [length_long])
  have hflags : packet.drop (start + 13) = _ := drop_behind_byte hofst
  have hwindow : packet.drop (start + 14) = _ := drop_behind_byte hflags
  have hchecksum : packet.drop (start + 16) = _ := drop_behind hwindow (by rw [length_short])
  have hnibbles : (UInt8.ofNat (t.res + 16 * t.dataOfst)).toNat / 16 * 4 = 4 * t.dataOfst := by
    rw [UInt8.toNat_ofNat_of_lt' (show _ < 256 by omega)]
    omega
  obtain ⟨hsyn, hrst, hfin, hackFlag⟩ := flagLine_byte t.flags
  simp only [getTcpInfo, checksumSteps, printed_read, printed_heading, printed_line,
    printed_portLine, netShort_of_drop h, netShort_of_drop hdest, netLong_of_drop hseq,
    netLong_of_drop hack, byteAt_of_drop hofst, byteAt_of_drop hflags, netShort_of_drop hwindow,
    netShort_of_drop hchecksum, hnibbles, hsyn, hrst, hfin, hackFlag, hsegment,
    verdict_eq _ hfits, List.cons_append, List.nil_append]
  rfl

private theorem printed_getUdpInfo {srcPort destPort : UInt16}
    (h : packet.drop start = short srcPort ++ short destPort ++ trailing) :
    printed (getUdpInfo packet start) =
      [.heading "UDP Header", portLine "Source Port" srcPort.toNat,
        portLine "Dest Port" destPort.toNat] := by
  rw [List.append_assoc] at h
  have hdest : packet.drop (start + 2) = _ := drop_behind h (by rw [length_short])
  simp only [getUdpInfo, printed_read, printed_heading, printed_portLine, printed_nil,
    netShort_of_drop h, netShort_of_drop hdest]

private theorem printed_getIcmpInfo {type : UInt8} (h : packet.drop start = type :: trailing) :
    printed (getIcmpInfo packet start) = [.heading "ICMP Header", typeLine type.toNat] := by
  simp only [getIcmpInfo, printed_read, printed_heading, printed_typeLine, printed_nil,
    byteAt_of_drop h]

private theorem printed_getArpInfo (arp : ArpMessage)
    (h : packet.drop start = arp.bytes ++ trailing) :
    printed (getArpInfo packet start) = arp.lines := by
  simp only [ArpMessage.bytes, List.append_assoc, List.cons_append, List.nil_append] at h
  have hproto : packet.drop (start + 2) = _ := drop_behind h (by rw [length_short])
  have hlens : packet.drop (start + 4) = _ := drop_behind hproto (by rw [length_short])
  have hop : packet.drop (start + 6) = _ := drop_behind_byte (drop_behind_byte hlens)
  have hsha : packet.drop (start + 8) = _ := drop_behind hop (by rw [length_short])
  have hspa : packet.drop (start + 14) = _ := drop_behind hsha (by rw [arp.length_sha])
  have htha : packet.drop (start + 18) = _ := drop_behind hspa (by rw [arp.length_spa])
  have htpa : packet.drop (start + 24) = _ := drop_behind htha (by rw [arp.length_tha])
  simp only [getArpInfo, printed_append, printed_read, printed_heading, printed_opcodeLine,
    printed_line, printed_nil, netShort_of_drop hop, slice_of_drop hsha arp.length_sha,
    slice_of_drop hspa arp.length_spa, slice_of_drop htha arp.length_tha,
    slice_of_drop htpa arp.length_tpa, ArpMessage.lines, List.cons_append, List.nil_append]

end Parsers

/-! ## IP packets -/

section Ip

variable {packet trailing : List UInt8} {start : Nat} (ip : IpPacket)

private theorem IpPacket.length_header : ip.header.length = 4 * ip.ihl := by
  simp only [IpPacket.header, IpPacket.ihl, List.length_append, List.length_cons, List.length_nil,
    length_short, ip.length_srcAddr, ip.length_destAddr, ip.length_options]
  omega

private theorem IpPacket.ihl_le : ip.ihl ≤ 15 := by
  have hwords := ip.words_le
  unfold IpPacket.ihl
  omega

/-- The fields of the header that the trace looks at. -/
structure IpPacket.At (packet : List UInt8) (start : Nat) (ip : IpPacket) : Prop where
  nibbles : byteAt packet start = UInt8.ofNat (ip.ihl + 16 * ip.version)
  services : byteAt packet (start + 1) = UInt8.ofNat (ip.ecn + 4 * ip.dscp)
  totalLen : netShort packet (start + 2) = ip.totalLen
  ttl : byteAt packet (start + 8) = ip.ttl
  proto : byteAt packet (start + 9) = ip.carried.proto
  checksum : netShort packet (start + 10) = ip.checksum.toNat
  srcAddr : slice packet (start + 12) 4 = ip.srcAddr
  destAddr : slice packet (start + 16) 4 = ip.destAddr
  header : slice packet start (4 * ip.ihl) = ip.header

private theorem IpPacket.at_of_drop (h : packet.drop start = ip.bytes ++ trailing) :
    ip.At packet start := by
  have hheader : packet.drop start = ip.header ++ (ip.carried.bytes ++ trailing) := by
    rw [h, IpPacket.bytes, List.append_assoc]
  have hwhole := slice_of_drop hheader ip.length_header
  simp only [IpPacket.bytes, IpPacket.header, List.append_assoc, List.cons_append,
    List.nil_append] at h
  have htos : packet.drop (start + 1) = _ := drop_behind_byte h
  have hlen : packet.drop (start + 2) = _ := drop_behind_byte htos
  have hid : packet.drop (start + 4) = _ := drop_behind hlen (by rw [length_short])
  have hfragment : packet.drop (start + 6) = _ := drop_behind hid (by rw [length_short])
  have httl : packet.drop (start + 8) = _ := drop_behind hfragment (by rw [length_short])
  have hproto : packet.drop (start + 9) = _ := drop_behind_byte httl
  have hchecksum : packet.drop (start + 10) = _ := drop_behind_byte hproto
  have hsrc : packet.drop (start + 12) = _ := drop_behind hchecksum (by rw [length_short])
  have hdest : packet.drop (start + 16) = _ := drop_behind hsrc (by rw [ip.length_srcAddr])
  have htotal : (UInt16.ofNat ip.totalLen).toNat = ip.totalLen := by
    have hfits := ip.fits
    refine UInt16.toNat_ofNat_of_lt' (show _ < 65536 from ?_)
    unfold IpPacket.totalLen IpPacket.ihl
    omega
  exact
    { nibbles := byteAt_of_drop h
      services := byteAt_of_drop htos
      totalLen := (netShort_of_drop hlen).trans htotal
      ttl := byteAt_of_drop httl
      proto := byteAt_of_drop hproto
      checksum := netShort_of_drop hchecksum
      srcAddr := slice_of_drop hsrc ip.length_srcAddr
      destAddr := slice_of_drop hdest ip.length_destAddr
      header := hwhole }

variable {ip}

private theorem IpPacket.At.lengths (h : ip.At packet start) :
    headerLen packet start = 4 * ip.ihl ∧ segmentLen packet start = ip.carried.bytes.length := by
  have hihl := ip.ihl_le
  have hfits := ip.fits
  have hheader : headerLen packet start = 4 * ip.ihl := by
    rw [headerLen, h.nibbles, UInt8.toNat_ofNat_of_lt' (show _ < 256 by omega)]
    omega
  refine ⟨hheader, ?_⟩
  rw [segmentLen, h.totalLen, hheader, IpPacket.totalLen]
  omega

theorem IpPacket.At.psHead (h : ip.At packet start) (t : TcpSegment) (htcp : ip.carried = .tcp t) :
    (psHead packet start).bytes = ip.pseudoHeader := by
  obtain ⟨-, hsegment⟩ := h.lengths
  have hproto : ip.carried.proto = 6 := by rw [htcp]; rfl
  have hlength : toLE 2 (Trace.psHead packet start).tcpLen =
      (toLE 2 (segmentLen packet start)).reverse := toLE_swapBytes 2 _
  have hfits : (UInt16.ofNat ip.carried.bytes.length).toNat = ip.carried.bytes.length := by
    have := ip.fits
    exact UInt16.toNat_ofNat_of_lt' (show _ < 65536 by omega)
  rw [TcpPsHead.bytes, hlength, hsegment, IpPacket.pseudoHeader, short, hfits]
  simp only [Trace.psHead, h.srcAddr, h.destAddr, h.proto, hproto]

private theorem printed_getPayloadInfo (h : packet.drop start = ip.bytes ++ trailing) :
    printed (getPayloadInfo packet start) = ip.carriedLines := by
  have hat := ip.at_of_drop h
  obtain ⟨hheader, hsegment⟩ := hat.lengths
  have hpayload : packet.drop (start + 4 * ip.ihl) = ip.carried.bytes ++ trailing := by
    rw [IpPacket.bytes, List.append_assoc] at h
    exact drop_behind h (by rw [ip.length_header])
  rw [getPayloadInfo, hat.proto, hheader]
  unfold IpPacket.carriedLines
  cases hcarried : ip.carried with
  | icmp type rest =>
    rw [hcarried] at hpayload
    exact printed_getIcmpInfo hpayload
  | udp srcPort destPort rest =>
    rw [hcarried, Carried.bytes, List.append_assoc] at hpayload
    exact printed_getUdpInfo hpayload
  | other proto hproto bytes =>
    simp only [List.mem_cons, List.not_mem_nil, or_false, not_or] at hproto
    obtain ⟨hicmp, htcp, hudp⟩ := hproto
    simp only [Carried.proto]
    split
    · rename_i hnumber
      exact absurd (UInt8.toNat.inj hnumber) hicmp
    · rename_i hnumber
      exact absurd (UInt8.toNat.inj hnumber) htcp
    · rename_i hnumber
      exact absurd (UInt8.toNat.inj hnumber) hudp
    · rfl
  | tcp t =>
    have hps := hat.psHead t hcarried
    have hbytes : ip.carried.bytes = t.bytes := by rw [hcarried]; rfl
    rw [hbytes] at hpayload hsegment
    have hfits : ((psHead packet start).bytes ++ t.bytes).length ≤ 65535 := by
      have := ip.fits
      rw [hbytes] at this
      rw [hps, IpPacket.pseudoHeader]
      simp only [List.length_append, ip.length_srcAddr, ip.length_destAddr, length_short,
        List.length_cons, List.length_nil]
      omega
    have htcp := printed_getTcpInfo t hpayload (by rw [ntohs_psHead, hsegment]) hfits
    rw [hps] at htcp
    exact htcp

private theorem printed_getIpInfo (h : packet.drop start = ip.bytes ++ trailing) :
    printed (getIpInfo packet start) = ip.lines := by
  have hat := ip.at_of_drop h
  obtain ⟨hheader, -⟩ := hat.lengths
  have hpayload := printed_getPayloadInfo h
  have hversion : (UInt8.ofNat (ip.ihl + 16 * ip.version)).toNat / 16 = ip.version := by
    have hihl := ip.ihl_le
    rw [UInt8.toNat_ofNat_of_lt' (show _ < 256 by omega)]
    omega
  have hservices : (UInt8.ofNat (ip.ecn + 4 * ip.dscp)).toNat = ip.ecn + 4 * ip.dscp :=
    UInt8.toNat_ofNat_of_lt' (show _ < 256 by omega)
  have hdscp : ((ip.ecn : Nat) + 4 * ip.dscp) / 4 = ip.dscp := by omega
  have hecn : ((ip.ecn : Nat) + 4 * ip.dscp) % 4 = ip.ecn := by omega
  have hverdict := verdict_eq ip.header (by
    have := ip.fits
    rw [ip.length_header, IpPacket.ihl]
    omega) ip.checksum
  simp only [getIpInfo, checksumSteps, printed_read, printed_heading, printed_line,
    printed_protocolLine, printed_verdict, hat.nibbles, hat.services, hat.ttl, hat.proto,
    hat.checksum, hat.srcAddr, hat.destAddr, hheader, hat.header, hversion, hservices, hdscp, hecn,
    hverdict, hpayload, IpPacket.lines, List.cons_append, List.nil_append]

end Ip

/-! ## Frames -/

private theorem printed_getEthInfo (f : Frame) (trailing : List UInt8) :
    printed (getEthInfo (f.bytes ++ trailing)).2 = f.lines := by
  have hdrop : (f.bytes ++ trailing).drop 0 = f.destAddr ++ (f.srcAddr ++
      (short f.content.type ++ (f.content.bytes ++ trailing))) := by
    simp only [Frame.bytes, List.append_assoc, List.drop_zero]
  have hsrc : (f.bytes ++ trailing).drop 6 = _ := drop_behind hdrop (by rw [f.length_destAddr])
  have htype : (f.bytes ++ trailing).drop 12 = _ := drop_behind hsrc (by rw [f.length_srcAddr])
  have hcontent : (f.bytes ++ trailing).drop 14 = _ := drop_behind htype (by rw [length_short])
  have hdestAddr := slice_of_drop hdrop f.length_destAddr
  have hsrcAddr := slice_of_drop hsrc f.length_srcAddr
  unfold getEthInfo
  rw [hdestAddr, hsrcAddr, netShort_of_drop htype, Frame.lines]
  cases hkind : f.content with
  | ip packet =>
    rw [hkind] at hcontent
    change printed (_ ++ getIpInfo (f.bytes ++ trailing) 14) = _
    rw [printed_append, printed_getIpInfo hcontent]
    rfl
  | arp message =>
    rw [hkind] at hcontent
    change printed (_ ++ getArpInfo (f.bytes ++ trailing) 14) = _
    rw [printed_append, printed_getArpInfo message hcontent]
    rfl
  | other type htype bytes =>
    simp only [List.mem_cons, List.not_mem_nil, or_false, not_or] at htype
    obtain ⟨hip, harp⟩ := htype
    split
    · rename_i hnumber
      exact absurd (UInt16.toNat.inj hnumber) hip
    · rename_i hnumber
      exact absurd (UInt16.toNat.inj hnumber) harp
    · rfl

/-! ## The loop over a capture file -/

/-- What `pcap_next_ex` delivers: the length of the packet on the wire, the bytes that were captured
and the memory behind them. -/
structure Record where
  len : Nat
  data : List UInt8
  behind : List UInt8

/-- The loop of `main`, with the number of the next packet. -/
def traceRecords : Nat → List Record → List Step
  | _, [] => []
  | i, record :: records =>
      [.line "Packet number" (.number i), .line "Packet Len" (.number record.len)] ++
        (getEthInfo (record.data ++ record.behind)).2 ++ traceRecords (i + 1) records

/-- The output for a file of frames. -/
def frameLines : Nat → List (Nat × Frame) → List Step
  | _, [] => []
  | i, (len, frame) :: frames =>
      [.line "Packet number" (.number i), .line "Packet Len" (.number len)] ++ frame.lines ++
        frameLines (i + 1) frames

/-- A record that begins with a frame, whatever comes behind it. -/
structure Holds (record : Record) (frame : Nat × Frame) : Prop where
  len : record.len = frame.1
  bytes : frame.2.bytes <+: record.data ++ record.behind

/-- The trace of every capture file whose records begin with frames is the fields of these frames,
under consecutive numbers: padding, lengths and what memory holds behind a record make no
difference. -/
theorem traceRecords_frames (records : List Record) (frames : List (Nat × Frame))
    (h : List.Forall₂ Holds records frames) (i : Nat) :
    printed (traceRecords i records) = frameLines i frames := by
  induction h generalizing i with
  | nil => rfl
  | @cons record frame records frames hholds hrest ih =>
    obtain ⟨trailing, hbytes⟩ := hholds.bytes
    rw [traceRecords, ← hbytes, printed_append, printed_append, ih (i + 1), printed_getEthInfo,
      hholds.len]
    rfl

/-- The frame of `tcpFrame`. -/
def synFrame : Frame where
  destAddr := [2, 0, 0, 0, 0, 2]
  srcAddr := [2, 0, 0, 0, 0, 1]
  content := .ip
    { version := 4
      dscp := 0
      ecn := 0
      id := 1
      fragment := 0
      ttl := 64
      checksum := 0x66cd
      srcAddr := [10, 0, 0, 1]
      destAddr := [10, 0, 0, 2]
      words := 0
      options := []
      carried := .tcp
        { srcPort := 8080
          destPort := 80
          seqNum := 1
          ack := 0
          res := 0
          dataOfst := 5
          flags := ⟨false, true, false, false, false, false, false, false⟩
          window := 1024
          checksum := 0x77ff
          rest := [0, 0] }
      length_srcAddr := rfl
      length_destAddr := rfl
      words_le := by decide
      length_options := rfl
      fits := by decide }
  length_destAddr := rfl
  length_srcAddr := rfl

theorem traceRecords_frames_syn :
    printed (traceRecords 1 [⟨60, tcpFrame, [1, 2, 3]⟩]) = frameLines 1 [(60, synFrame)] :=
  traceRecords_frames [⟨60, tcpFrame, [1, 2, 3]⟩] [(60, synFrame)]
    (.cons ⟨rfl, [1, 2, 3], by decide⟩ .nil) 1

/-- No record that holds what its headers announce is traced with anything but its own bytes. -/
theorem traceRecords_own (records records' : List Record)
    (h : List.Forall₂ (fun record record' => record.len = record'.len ∧
      record.data = record'.data ∧ CapturedWhole record.data) records records') (i : Nat) :
    traceRecords i records = traceRecords i records' := by
  induction h generalizing i with
  | nil => rfl
  | cons hrecord hrest ih =>
    obtain ⟨hlen, hdata, hwhole⟩ := hrecord
    rw [traceRecords, traceRecords, ih (i + 1), hlen, getEthInfo_append _ hwhole, hdata,
      getEthInfo_append _ (hdata ▸ hwhole)]

theorem traceRecords_own_syn :
    traceRecords 1 [⟨54, tcpFrame, [1, 2, 3]⟩] = traceRecords 1 [⟨54, tcpFrame, []⟩] :=
  traceRecords_own [⟨54, tcpFrame, [1, 2, 3]⟩] [⟨54, tcpFrame, []⟩]
    (.cons ⟨rfl, rfl, by decide⟩ .nil) 1

end Cpe464.Trace
