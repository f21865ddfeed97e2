import Cpe464.Transfer.Packet

/-!
# The packet trace

`get_eth_info` prints a captured frame and hands it on, layer by layer, to the parsers of what it
carries. A parser gets the memory of the frame and where its own header begins, and is the list of
what it does in order: the bytes of the frame it reads, the lines it prints and the checksums it
computes.
-/

namespace Cpe464.Trace

open Transfer (inCksum)

inductive Value
  | text (s : String)
  | number (n : Nat)
  | mac (bytes : List UInt8)
  | address (bytes : List UInt8)
  deriving DecidableEq

inductive Step
  /-- `count` bytes of the frame are read from `offset` on. -/
  | read (offset count : Nat)
  | heading (text : String)
  | line (label : String) (value : Value)
  /-- `in_cksum` goes over some bytes, and its verdict is printed with the field of the header. -/
  | checksum (bytes : List UInt8) (correct : Bool) (field : Nat)
  deriving DecidableEq

/-- A 16-bit field, which lies in network order. -/
def netShort (packet : List UInt8) (offset : Nat) : Nat := ntohs (ofLE (slice packet offset 2))

def netLong (packet : List UInt8) (offset : Nat) : Nat := ntohl (ofLE (slice packet offset 4))

/-- The line for a port, with the name of its service if it has a known one. -/
def portLine (label : String) (port : Nat) : Step :=
  match port with
  | 53 => .line label (.text "DNS")
  | 23 => .line label (.text "Telnet")
  | 80 => .line label (.text "HTTP")
  | 20 => .line label (.text "FTP")
  | 110 => .line label (.text "POP3")
  | 25 => .line label (.text "SMTP")
  | _ => .line label (.number port)

/-- The line for a flag of the TCP header, one bit of a byte. -/
def flagLine (label : String) (flags : Nat) (bit : Nat) : Step :=
  .line label (.text (if flags / 2 ^ bit % 2 = 1 then "Yes" else "No"))

/-- The checksum lines: `in_cksum` over some bytes and the field at an offset. -/
def checksumSteps (packet bytes : List UInt8) (offset : Nat) : List Step :=
  [.read offset 2, .checksum bytes (inCksum bytes = 0) (netShort packet offset)]

def typeLine (type : Nat) : Step :=
  match type with
  | 0 => .line "Type" (.text "Reply")
  | 8 => .line "Type" (.text "Request")
  | _ => .line "Type" (.number type)

def protocolLine (proto : Nat) : Step :=
  match proto with
  | 1 => .line "Protocol" (.text "ICMP")
  | 6 => .line "Protocol" (.text "TCP")
  | 17 => .line "Protocol" (.text "UDP")
  | _ => .line "Protocol" (.text "Unknown")

/-- The line for the opcode of an ARP message. An opcode other than the two has none. -/
def opcodeLine (op : Nat) : List Step :=
  match op with
  | 1 => [.line "Opcode" (.text "Request")]
  | 2 => [.line "Opcode" (.text "Reply")]
  | _ => []

def getIcmpInfo (packet : List UInt8) (start : Nat) : List Step :=
  [.heading "ICMP Header", .read start 1, typeLine (byteAt packet start).toNat]

def getUdpInfo (packet : List UInt8) (start : Nat) : List Step :=
  [.heading "UDP Header", .read start 2, portLine "Source Port" (netShort packet start),
    .read (start + 2) 2, portLine "Dest Port" (netShort packet (start + 2))]

/-- `struct tcp_ps_head`; `tcpLen` is in network order. -/
structure TcpPsHead where
  srcAddr : List UInt8
  destAddr : List UInt8
  zeros : UInt8
  proto : UInt8
  tcpLen : Nat
  deriving DecidableEq

def TcpPsHead.bytes (h : TcpPsHead) : List UInt8 :=
  h.srcAddr ++ h.destAddr ++ [h.zeros, h.proto] ++ toLE 2 h.tcpLen

/-- `get_tcp_info`. The segment is copied behind the pseudo header. -/
def getTcpInfo (packet : List UInt8) (start : Nat) (psHead : TcpPsHead) : List Step :=
  let flags := (byteAt packet (start + 13)).toNat
  let segmentLen := ntohs psHead.tcpLen
  [.heading "TCP Header", .read start 2, portLine "Source Port" (netShort packet start),
      .read (start + 2) 2, portLine "Dest Port" (netShort packet (start + 2)),
      .read (start + 4) 4, .line "Sequence Number" (.number (netLong packet (start + 4))),
      .read (start + 8) 4, .line "ACK Number" (.number (netLong packet (start + 8))),
      .read (start + 12) 1,
      .line "Data Offset (bytes)" (.number ((byteAt packet (start + 12)).toNat / 16 * 4)),
      .read (start + 13) 1, flagLine "SYN Flag" flags 1, flagLine "RST Flag" flags 2,
      flagLine "FIN Flag" flags 0, flagLine "ACK Flag" flags 4, .read (start + 14) 2,
      .line "Window Size" (.number (netShort packet (start + 14))), .read start segmentLen] ++
    checksumSteps packet (psHead.bytes ++ slice packet start segmentLen) (start + 16)

def headerLen (packet : List UInt8) (start : Nat) : Nat := (byteAt packet start).toNat % 16 * 4

/-- What `get_ip_info` takes for the length of a TCP segment; it is converted to 16 bits. -/
def segmentLen (packet : List UInt8) (start : Nat) : Nat :=
  (((netShort packet (start + 2) : Int) - headerLen packet start) % 65536).toNat

def psHead (packet : List UInt8) (start : Nat) : TcpPsHead where
  srcAddr := slice packet (start + 12) 4
  destAddr := slice packet (start + 16) 4
  zeros := 0
  proto := byteAt packet (start + 9)
  tcpLen := htons (segmentLen packet start)

/-- The last switch of `get_ip_info`. -/
def getPayloadInfo (packet : List UInt8) (start : Nat) : List Step :=
  match (byteAt packet (start + 9)).toNat with
  | 1 => getIcmpInfo packet (start + headerLen packet start)
  | 6 =>
      [.read (start + 2) 2, .read (start + 12) 4, .read (start + 16) 4, .read (start + 9) 1] ++
        getTcpInfo packet (start + headerLen packet start) (psHead packet start)
  | 17 => getUdpInfo packet (start + headerLen packet start)
  | _ => []

def getIpInfo (packet : List UInt8) (start : Nat) : List Step :=
  [.heading "IP Header", .read start 1,
      .line "IP Version" (.number ((byteAt packet start).toNat / 16)),
      .line "Header Len (bytes)" (.number (headerLen packet start)),
      .heading "TOS subfields:", .read (start + 1) 1,
      .line "Diffserv bits" (.number ((byteAt packet (start + 1)).toNat / 4)),
      .line "ECN bits" (.number ((byteAt packet (start + 1)).toNat % 4)),
      .read (start + 8) 1, .line "TTL" (.number (byteAt packet (start + 8)).toNat),
      .read (start + 9) 1, protocolLine (byteAt packet (start + 9)).toNat,
      .read start (headerLen packet start)] ++
    checksumSteps packet (slice packet start (headerLen packet start)) (start + 10) ++
    [.read (start + 12) 4, .line "Sender IP" (.address (slice packet (start + 12) 4)),
      .read (start + 16) 4, .line "Dest IP" (.address (slice packet (start + 16) 4))] ++
    getPayloadInfo packet start

def getArpInfo (packet : List UInt8) (start : Nat) : List Step :=
  [.read (start + 8) 6, .read (start + 18) 6, .read (start + 14) 4, .read (start + 24) 4,
      .heading "ARP header", .read (start + 6) 2] ++
    opcodeLine (netShort packet (start + 6)) ++
    [.line "Sender MAC" (.mac (slice packet (start + 8) 6)),
      .line "Sender IP" (.address (slice packet (start + 14) 4)),
      .line "Target MAC" (.mac (slice packet (start + 18) 6)),
      .line "Target IP" (.address (slice packet (start + 24) 4))]

/-- `get_eth_info`: the type it returns and what it does. -/
def getEthInfo (packet : List UInt8) : String × List Step :=
  let header : List Step :=
    [.heading "Ethernet Header", .read 0 6, .line "Dest MAC" (.mac (slice packet 0 6)),
      .read 6 6, .line "Source MAC" (.mac (slice packet 6 6)), .read 12 2]
  match netShort packet 12 with
  | 0x0800 => ("IP", header ++ [.line "Type" (.text "IP")] ++ getIpInfo packet 14)
  | 0x0806 => ("ARP", header ++ [.line "Type" (.text "ARP")] ++ getArpInfo packet 14)
  | _ => ("NONE", header ++ [.line "Type" (.text "Unknown")])

/-! ## Fields -/

theorem netShort_eq (packet : List UInt8) (offset : Nat) (h : offset + 2 ≤ packet.length) :
    netShort packet offset =
      256 * (byteAt packet offset).toNat + (byteAt packet (offset + 1)).toNat := by
  have hbytes : slice packet offset 2 = [byteAt packet offset, byteAt packet (offset + 1)] := by
    have hlength := length_slice packet offset 2 h
    have hlow := byteAt_slice packet offset 2 0 (by decide)
    have hhigh := byteAt_slice packet offset 2 1 (by decide)
    match hslice : slice packet offset 2, hlength with
    | [a, b], _ =>
      rw [hslice] at hlow hhigh
      rw [show offset = offset + 0 from rfl, ← hlow]
      simp only [byteAt_cons_zero, byteAt_cons_succ] at hhigh ⊢
      rw [hhigh]
  have hvalue := toLE_ofLE [byteAt packet offset, byteAt packet (offset + 1)]
  change toLE 2 _ = _ at hvalue
  rw [netShort, hbytes, ntohs, swapBytes, hvalue]
  simp only [List.reverse_cons, List.reverse_nil, List.nil_append, List.cons_append, ofLE]
  omega

private theorem segmentLen_lt (packet : List UInt8) (start : Nat) :
    segmentLen packet start < 65536 := by
  unfold segmentLen
  omega

theorem ntohs_psHead (packet : List UInt8) (start : Nat) :
    ntohs (psHead packet start).tcpLen = segmentLen packet start := by
  show swapBytes 2 (swapBytes 2 (segmentLen packet start)) = _
  rw [swapBytes_swapBytes]
  exact Nat.mod_eq_of_lt (segmentLen_lt packet start)

end Cpe464.Trace
