import Cpe464.Transfer.Packet

/-!
# Receiving a datagram

Both receive loops let a datagram land at the start of a buffer that they use again for the next
one, and hand it to `verifyData`, whose result neither of them looks at. What is left of earlier
datagrams stays behind a shorter one.
-/

namespace Cpe464.Transfer

/-- `MAXBUF` in server.c. -/
def serverMaxBuf : Nat := 1407

/-- `MAXBUF` in rcopy.c. -/
def rcopyMaxBuf : Nat := 80

/-- The buffer after `safeRecvfrom`; what does not fit of a datagram is lost. -/
def safeRecvfrom (buf : List UInt8) (len : Nat) (datagram : List UInt8) : List UInt8 :=
  overlay buf 0 (datagram.take len)

/-- The buffer after a datagram landed in it and was verified. -/
def landed (maxBuf : Nat) (buf datagram : List UInt8) : List UInt8 :=
  let buf := safeRecvfrom buf maxBuf datagram
  (verifyData buf (UInt16.ofNat (min datagram.length maxBuf)) (header buf).checksum).2

/-- What is received of a datagram is shorter than a header, or its checksum is not that of its
checksum field. -/
def Damaged (maxBuf : Nat) (datagram : List UInt8) : Prop :=
  (datagram.take maxBuf).length < 7 ∨ verdict (datagram.take maxBuf) ≠ 0

instance (maxBuf : Nat) (datagram : List UInt8) : Decidable (Damaged maxBuf datagram) :=
  inferInstanceAs (Decidable (_ ∨ _))

/-- The result that both loops drop is the verdict on what they received. -/
theorem verifyData_received {maxBuf : Nat} (hmax : maxBuf ≤ 65535) (buf datagram : List UInt8)
    (hheader : 7 ≤ (datagram.take maxBuf).length) :
    (verifyData (safeRecvfrom buf maxBuf datagram) (UInt16.ofNat (min datagram.length maxBuf))
      (header (safeRecvfrom buf maxBuf datagram)).checksum).1 = verdict (datagram.take maxBuf) := by
  have hlength : min datagram.length maxBuf = (datagram.take maxBuf).length := by
    rw [List.length_take, Nat.min_comm]
  rw [hlength, safeRecvfrom, overlay_zero]
  generalize datagram.take maxBuf = received at hheader hlength
  have hfit : 4 + ([0, 0] : List UInt8).length ≤ received.length := by
    simp only [List.length_cons, List.length_nil]
    omega
  have hsize : (UInt16.ofNat received.length).toNat = received.length :=
    UInt16.toNat_ofNat_of_lt' (show _ < 65536 by omega)
  have hzeroed := length_overlay received [0, 0] 4 hfit
  simp only [verdict, verifyData, header, hsize]
  rw [slice_append_left received _ 4 2 (by omega), overlay_append_left received _ [0, 0] 4 hfit,
    List.take_left' hzeroed, List.take_of_length_le (Nat.le_of_eq hzeroed)]

/-- The flag a loop sees: that of the datagram, or of an earlier one if the datagram is shorter. -/
def flagSeen (buf datagram : List UInt8) : UInt8 :=
  if 7 ≤ datagram.length then byteAt datagram 6 else byteAt buf 6

theorem flagSeen_sendData (buf payload : List UInt8) (sequence : UInt32) (flag : UInt8)
    (hlen : payload.length ≤ 65535) :
    flagSeen buf (sendData payload (UInt16.ofNat payload.length) sequence flag) = flag := by
  have hlength := length_sendData payload sequence flag hlen
  rw [flagSeen, if_pos (by omega)]
  exact flag_sendData payload sequence flag hlen

theorem drop_landed_sendData {maxBuf : Nat} (payload buf : List UInt8) (sequence : UInt32)
    (flag : UInt8) (hfit : payload.length + 7 ≤ maxBuf) (hmax : maxBuf ≤ 65535) :
    (landed maxBuf buf (sendData payload (UInt16.ofNat payload.length) sequence flag)).drop 7 =
      payload ++ buf.drop (payload.length + 7) := by
  have hlength := length_sendData payload sequence flag (by omega)
  obtain ⟨net, sum, hpacket, -, -, hnet, hsum⟩ :=
    sendData_parts payload sequence flag (by omega)
  show (overlay (overlay buf 0 ((sendData payload _ sequence flag).take maxBuf)) 4
    [0, 0]).drop 7 = _
  rw [List.take_of_length_le (by omega), overlay_zero, hlength,
    overlay_append_left _ _ _ _ (by rw [hlength, List.length_cons, List.length_singleton]; omega),
    hpacket, overlay_parts hnet hsum, List.append_assoc net]
  have hbehind := drop_parts hnet (show ([0, 0] : List UInt8).length = 2 from rfl) flag payload
  rw [List.drop_append_of_le_length, hbehind]
  simp only [List.length_append, List.length_cons, List.length_nil, hnet]
  omega

section

variable {maxBuf : Nat} {buf : List UInt8} (hlen : buf.length = maxBuf + 1)

include hlen

theorem length_safeRecvfrom (datagram : List UInt8) :
    (safeRecvfrom buf maxBuf datagram).length = maxBuf + 1 := by
  rw [safeRecvfrom, length_overlay _ _ _ (by rw [List.length_take]; omega), hlen]

theorem length_landed (hmax : 7 ≤ maxBuf) (datagram : List UInt8) :
    (landed maxBuf buf datagram).length = maxBuf + 1 := by
  have hbuf := length_safeRecvfrom hlen datagram
  show (overlay _ 4 [0, 0]).length = maxBuf + 1
  rw [length_overlay _ _ _ (by rw [hbuf, List.length_cons, List.length_singleton]; omega), hbuf]

/-- Outside the checksum field a byte of the buffer is that of the datagram, or what was there
before if the datagram ends earlier. -/
theorem byteAt_landed (hmax : 7 ≤ maxBuf) (datagram : List UInt8) (i : Nat)
    (hi : i < 4 ∨ 6 ≤ i) :
    byteAt (landed maxBuf buf datagram) i =
      if i < min datagram.length maxBuf then byteAt datagram i else byteAt buf i := by
  have hbuf := length_safeRecvfrom hlen datagram
  have houtside : byteAt (landed maxBuf buf datagram) i =
      byteAt (safeRecvfrom buf maxBuf datagram) i :=
    byteAt_overlay_outside _ [0, 0] 4 i
      (by rw [hbuf, List.length_cons, List.length_singleton]; omega) hi
  have htake : (datagram.take maxBuf).length = min datagram.length maxBuf := by
    rw [List.length_take, Nat.min_comm]
  rw [houtside, safeRecvfrom]
  by_cases hshort : i < min datagram.length maxBuf
  · have hbyte := byteAt_overlay_inside buf (datagram.take maxBuf) 0 i (Nat.zero_le _)
      (by rw [htake]; exact hshort)
    rw [Nat.zero_add] at hbyte
    rw [if_pos hshort, hbyte, byteAt, byteAt, List.getD_eq_getElem?_getD,
      List.getElem?_take_of_lt (by omega), List.getD_eq_getElem?_getD]
  · rw [if_neg hshort]
    exact byteAt_overlay_outside buf (datagram.take maxBuf) 0 i
      (by rw [htake]; omega) (Or.inr (by rw [htake]; omega))

theorem flag_landed (hmax : 7 ≤ maxBuf) (datagram : List UInt8) :
    byteAt (landed maxBuf buf datagram) 6 = flagSeen buf datagram := by
  rw [byteAt_landed hlen hmax datagram 6 (by omega), flagSeen]
  by_cases hwhole : 7 ≤ datagram.length
  · rw [if_pos hwhole, if_pos (by omega)]
  · rw [if_neg hwhole, if_neg (by omega)]

end

end Cpe464.Transfer
