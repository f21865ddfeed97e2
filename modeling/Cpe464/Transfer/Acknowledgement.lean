import Cpe464.Framework.Cumulative
import Cpe464.Transfer.Damage

/-!
# The acknowledgements of rcopy

`talkToServer` answers a data packet with an RR packet that carries the packet's own number. It
keeps no record of the packets before it, so that the number stands for all lower ones only as long
as they come in order.
-/

namespace Cpe464.Transfer

open Observation

/-- A data packet as the server sends it. A UDP datagram has room for 65500 bytes behind the
header. -/
structure DataPacket where
  sequence : UInt32
  payload : List UInt8
  length_payload : payload.length ≤ 65500

def DataPacket.datagram (packet : DataPacket) : List UInt8 :=
  sendData packet.payload (UInt16.ofNat packet.payload.length) packet.sequence 16

theorem DataPacket.length_datagram (packet : DataPacket) :
    packet.datagram.length = packet.payload.length + 7 :=
  length_sendData packet.payload packet.sequence 16
    (Nat.le_trans packet.length_payload (by decide))

/-- The number that an event acknowledges, if it sends an RR packet. -/
def RcopyEvent.rr : RcopyEvent → Option Nat
  | readUnsetHeader => none
  | sendto packet =>
      if (header packet).flag = 5 then some (ntohl (ofLE (slice packet 7 4))) else none

/-- The numbers that `talkToServer` acknowledges at each of the packets delivered to it. -/
def acknowledged (s : RcopyLoop) (delivered : List DataPacket) : List (List Nat) :=
  (outputs talkToServer s (delivered.map DataPacket.datagram)).map (List.filterMap RcopyEvent.rr)

/-! ## One packet -/

private theorem slice_landed {buf datagram : List UInt8} (hlen : buf.length = rcopyMaxBuf + 1)
    (hdatagram : 4 ≤ datagram.length) :
    slice (landed rcopyMaxBuf buf datagram) 0 4 = slice datagram 0 4 := by
  have hbuf := length_safeRecvfrom hlen datagram
  have hmax : rcopyMaxBuf = 80 := rfl
  show ((overlay (safeRecvfrom buf rcopyMaxBuf datagram) 4 [0, 0]).drop 0).take 4 = _
  rw [List.drop_zero, take_overlay _ _ (Nat.le_refl 4) (by omega), safeRecvfrom, overlay_zero,
    List.take_append_of_le_length (by rw [List.length_take]; omega), List.take_take, slice,
    List.drop_zero, Nat.min_eq_left (by omega)]

/-- Whatever came before, a data packet is acknowledged with its own number. -/
theorem talkToServer_rr (s : RcopyLoop) (packet : DataPacket) :
    (talkToServer s packet.datagram).1.filterMap RcopyEvent.rr = [packet.sequence.toNat] := by
  have hsize : packet.payload.length ≤ 65535 := Nat.le_trans packet.length_payload (by decide)
  have hflag : byteAt (hostSequence (landed rcopyMaxBuf s.buf packet.datagram)) 6 = 16 := by
    rw [flag_received s.length_buf]
    exact flagSeen_sendData s.buf packet.payload packet.sequence 16 hsize
  have hnumber : slice (hostSequence (landed rcopyMaxBuf s.buf packet.datagram)) 0 4 =
      toLE 4 packet.sequence.toNat := by
    have hsequence := sequenceNum_sendData packet.payload packet.sequence 16 hsize
    rw [slice_hostSequence, slice_landed s.length_buf (by rw [packet.length_datagram]; omega)]
    exact congrArg (toLE 4) hsequence
  have hhost : ofLE (toLE 4 packet.sequence.toNat) = packet.sequence.toNat := by
    rw [ofLE_toLE]
    exact Nat.mod_eq_of_lt packet.sequence.toNat_lt
  have hreply : RcopyEvent.rr (.sendto
      (sendData (toLE 4 (htonl packet.sequence.toNat)) 4 0 5)) = some packet.sequence.toNat := by
    have hfour := length_toLE 4 (htonl packet.sequence.toNat)
    have hrr := flag_sendData (toLE 4 (htonl packet.sequence.toNat)) 0 5 (by omega)
    have hbehind := drop_sendData (toLE 4 (htonl packet.sequence.toNat)) 0 5 (by omega)
    rw [hfour] at hrr hbehind
    change (header (sendData _ 4 0 5)).flag = 5 at hrr
    change (sendData _ 4 0 5).drop 7 = _ at hbehind
    rw [RcopyEvent.rr, if_pos hrr, slice, hbehind, List.take_of_length_le (Nat.le_of_eq hfour),
      ntohl_htonl]
  have hunset : (if s.headerSet then [] else [RcopyEvent.readUnsetHeader]).filterMap
      RcopyEvent.rr = [] := by
    cases s.headerSet <;> rfl
  rw [talkToServer_output, if_pos hflag, hnumber, hhost, List.filterMap_append, hunset,
    List.nil_append, List.filterMap_cons_some hreply, List.filterMap_nil]

/-! ## A run -/

private theorem acknowledged_eq (s : RcopyLoop) (delivered : List DataPacket) :
    acknowledged s delivered =
      (delivered.map fun packet => packet.sequence.toNat).map ([·]) := by
  induction delivered generalizing s with
  | nil => rfl
  | cons packet delivered ih =>
    have hrest := ih (talkToServer s packet.datagram).2
    rw [acknowledged] at hrest ⊢
    rw [List.map_cons, outputs, List.map_cons, talkToServer_rr, hrest, List.map_cons, List.map_cons]

/-- The acknowledgements are cumulative and never decrease exactly when the packets are delivered
in order: the first has number 0, and each later one the number of the last or the next. -/
theorem talkToServer_cumulative_iff (s : RcopyLoop) (delivered : List DataPacket) :
    Cumulative (delivered.map fun packet => packet.sequence.toNat) (acknowledged s delivered) ↔
      InOrder 0 (delivered.map fun packet => packet.sequence.toNat) := by
  rw [acknowledged_eq]
  exact cumulative_echo_iff _

def secondPacket : DataPacket := ⟨1, [104], by decide⟩

/-- Packet 0 is lost, and packet 1 is acknowledged as if it had come. -/
theorem lost_packet_acknowledged :
    acknowledged rcopyStart [secondPacket] = [[1]] ∧
      ¬Cumulative [1] (acknowledged rcopyStart [secondPacket]) := by
  have hacks : acknowledged rcopyStart [secondPacket] = [[1]] := by decide +kernel
  refine ⟨hacks, ?_⟩
  intro h
  have hreceived := h.below 0 [1] (by rw [hacks]; rfl) 1 (by decide) 0 (by decide)
  exact absurd hreceived (by decide)

end Cpe464.Transfer
