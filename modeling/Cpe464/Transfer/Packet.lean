import Cpe464.Framework.OnesComplement
import Mathlib.Tactic.Ring

/-!
# Packets of the file transfer

A packet is a sequence number and a checksum in network order, a flag and the data. `sendData`
builds one and `verifyData` recomputes its checksum with the checksum field cleared.
-/

namespace Cpe464.Transfer

/-- The additions of `in_cksum`, in a 32-bit `int`. -/
def addWords : Int → List UInt8 → Int
  | sum, a :: b :: bytes => addWords (Int.bmod (sum + (a.toNat + 256 * b.toNat)) (2 ^ 32)) bytes
  | sum, [a] => Int.bmod (sum + a.toNat) (2 ^ 32)
  | sum, [] => sum

/-- `in_cksum`, on the bytes it is told to read. -/
def inCksum (bytes : List UInt8) : Nat :=
  let sum := addWords 0 bytes
  let sum := sum / 65536 + sum % 65536
  let sum := sum + sum / 65536
  ((-sum - 1) % 65536).toNat

structure Header where
  sequenceNum : Nat
  checksum : Nat
  flag : UInt8
  deriving DecidableEq

/-- The first seven bytes of a buffer as a `header_t`. -/
def header (buf : List UInt8) : Header where
  sequenceNum := ofLE (slice buf 0 4)
  checksum := ofLE (slice buf 4 2)
  flag := byteAt buf 6

/-- The packet that `sendData` hands to `sendtoErr`. -/
def sendData (buf : List UInt8) (bufLen : UInt16) (sequence : UInt32) (flag : UInt8) :
    List UInt8 :=
  let networkSequence := toLE 4 (htonl sequence.toNat)
  let data := buf.take bufLen.toNat
  let checksum := htons (inCksum (networkSequence ++ [0, 0] ++ flag :: data))
  networkSequence ++ toLE 2 checksum ++ flag :: data

/-- `verifyData`: its result and the buffer, in which it clears the checksum field. -/
def verifyData (buf : List UInt8) (len : UInt16) (checksum : Nat) : Int × List UInt8 :=
  let buf := overlay buf 4 [0, 0]
  let calculatedChecksum := ntohs (inCksum (buf.take len.toNat))
  ((calculatedChecksum : Int) - checksum, buf)

/-! ## The checksum -/

/-- The accumulator does not overflow as long as the sum fits an `int`. -/
theorem addWords_eq (sum : Nat) (bytes : List UInt8) (h : sum + wordSum bytes < 2 ^ 31) :
    addWords sum bytes = ((sum + wordSum bytes : Nat) : Int) := by
  fun_induction wordSum bytes generalizing sum with
  | case1 a b bytes ih =>
    have hword : Int.bmod ((sum : Int) + (a.toNat + 256 * b.toNat)) (2 ^ 32) =
        ((sum + (a.toNat + 256 * b.toNat) : Nat) : Int) := by
      rw [Int.bmod_eq_of_le (by omega) (by omega)]
      push_cast
      ring
    rw [addWords, hword, ih _ (by omega), Nat.add_assoc]
  | case2 a =>
    have hword : Int.bmod ((sum : Int) + a.toNat) (2 ^ 32) = ((sum + a.toNat : Nat) : Int) := by
      rw [Int.bmod_eq_of_le (by omega) (by omega)]
      push_cast
      ring
    rw [addWords, hword]
  | case3 => rfl

theorem inCksum_eq (bytes : List UInt8) (h : bytes.length ≤ 65535) :
    inCksum bytes = 65535 - foldCarries (wordSum bytes) := by
  have hsum := wordSum_le bytes
  have hwords := addWords_eq 0 bytes (by omega)
  rw [Nat.cast_zero, Nat.zero_add] at hwords
  have hcomplement (n : Nat) : ((-(n : Int) - 1) % 65536).toNat = 65535 - n % 65536 := by omega
  have hfold (n : Nat) :
      (n : Int) / 65536 + (n : Int) % 65536 = ((n / 65536 + n % 65536 : Nat) : Int) := by omega
  have hcarry (n : Nat) : (n : Int) + (n : Int) / 65536 = ((n + n / 65536 : Nat) : Int) := by omega
  simp only [inCksum, hwords, hfold, hcarry, hcomplement]
  rfl

private theorem inCksum_lt (bytes : List UInt8) : inCksum bytes < 65536 := by
  simp only [inCksum]
  omega

theorem inCksum_set_ne (bytes : List UInt8) (i : Nat) (b : UInt8) (h : i < bytes.length)
    (hlen : bytes.length ≤ 65535) (hne : b ≠ byteAt bytes i) :
    inCksum (bytes.set i b) ≠ inCksum bytes := by
  rw [inCksum_eq _ (by rw [List.length_set]; exact hlen), inCksum_eq bytes hlen]
  have hfold := foldCarries_set_ne bytes i b h (by omega) hne
  have hlt := foldCarries_lt (wordSum bytes)
  have hlt' := foldCarries_lt (wordSum (bytes.set i b))
  omega

/-! ## Verification -/

/-- What `verifyData` finds in a packet of up to 65535 bytes with the checksum field it carries. -/
def verdict (packet : List UInt8) : Int :=
  (verifyData packet (UInt16.ofNat packet.length) (header packet).checksum).1

private theorem verdict_eq_zero_iff (packet : List UInt8) (hlow : 7 ≤ packet.length)
    (hlen : packet.length ≤ 65535) :
    verdict packet = 0 ↔
      ofLE (slice packet 4 2) = ntohs (inCksum (overlay packet 4 [0, 0])) := by
  have hsize : (UInt16.ofNat packet.length).toNat = packet.length :=
    UInt16.toNat_ofNat_of_lt' (show _ < 65536 by omega)
  have hzeroed : (overlay packet 4 [0, 0]).length = packet.length :=
    length_overlay packet [0, 0] 4 (by simp; omega)
  simp only [verdict, verifyData, header, hsize, List.take_of_length_le (Nat.le_of_eq hzeroed)]
  omega

theorem verdict_set_ne_zero (packet : List UInt8) (hlow : 7 ≤ packet.length)
    (hlen : packet.length ≤ 65535) (hverdict : verdict packet = 0) (i : Nat) (b : UInt8)
    (hi : i < packet.length) (hne : b ≠ byteAt packet i) : verdict (packet.set i b) ≠ 0 := by
  have hfit : 4 + ([0, 0] : List UInt8).length ≤ packet.length := by simp; omega
  rw [verdict_eq_zero_iff packet hlow hlen] at hverdict
  rw [ne_eq, verdict_eq_zero_iff _ (by rw [List.length_set]; exact hlow)
    (by rw [List.length_set]; exact hlen)]
  intro hchanged
  by_cases hfield : 4 ≤ i ∧ i < 6
  · -- The checksum field itself changed, what it is compared with did not.
    rw [overlay_set_inside packet [0, 0] 4 i b hfield, ← hverdict,
      slice_set_inside packet 4 2 i b hfield.1] at hchanged
    have hslice : (slice packet 4 2).length = 2 := length_slice packet 4 2 (by omega)
    have hbytes := congrArg (byteAt · (i - 4)) (ofLE_inj (by rw [List.length_set]) hchanged)
    rw [byteAt_set_self _ _ _ (by omega), byteAt_slice _ _ _ _ (by omega),
      show 4 + (i - 4) = i by omega] at hbytes
    exact hne hbytes
  · have houtside : i < 4 ∨ 4 + ([0, 0] : List UInt8).length ≤ i := by
      simp only [List.length_cons, List.length_nil]
      omega
    rw [overlay_set_outside packet [0, 0] 4 i b hfit houtside,
      slice_set_outside packet 4 2 i b houtside, hverdict] at hchanged
    have hswapped := swapBytes_inj hchanged
    have hlt := inCksum_lt (overlay packet 4 [0, 0])
    have hlt' := inCksum_lt ((overlay packet 4 [0, 0]).set i b)
    have hsame : inCksum (overlay packet 4 [0, 0]) =
        inCksum ((overlay packet 4 [0, 0]).set i b) := by omega
    have hzeroed := length_overlay packet [0, 0] 4 hfit
    refine inCksum_set_ne (overlay packet 4 [0, 0]) i b (by rw [hzeroed]; exact hi)
      (by rw [hzeroed]; exact hlen) ?_ hsame.symm
    rwa [byteAt_overlay_outside packet [0, 0] 4 i hfit houtside]

/-! ## The parts of a packet -/

section

variable {net sum : List UInt8} (hnet : net.length = 4) (hsum : sum.length = 2) (flag : UInt8)
  (payload : List UInt8)

include hnet

private theorem sequenceNum_parts :
    (header (net ++ (sum ++ flag :: payload))).sequenceNum = ofLE net := by
  show ofLE (slice (net ++ (sum ++ flag :: payload)) 0 4) = ofLE net
  rw [slice, List.drop_zero, List.take_left' hnet]

include hsum

private theorem checksum_parts : slice (net ++ (sum ++ flag :: payload)) 4 2 = sum := by
  have hmiddle := slice_middle net sum (flag :: payload)
  rwa [hnet, hsum, List.append_assoc] at hmiddle

private theorem flag_parts : (header (net ++ (sum ++ flag :: payload))).flag = flag := by
  have hbyte := byteAt_append_right (net ++ sum) (flag :: payload) 0
  rw [List.length_append, hnet, hsum, List.append_assoc] at hbyte
  exact hbyte

theorem drop_parts : (net ++ (sum ++ flag :: payload)).drop 7 = payload := by
  rw [← List.append_assoc, ← List.singleton_append, ← List.append_assoc]
  apply List.drop_left'
  simp only [List.length_append, List.length_singleton, hnet, hsum]

theorem overlay_parts :
    overlay (net ++ (sum ++ flag :: payload)) 4 [0, 0] = net ++ [0, 0] ++ flag :: payload := by
  have hoverlay := overlay_append net (sum ++ flag :: payload) [0, 0]
  rw [hnet] at hoverlay
  rw [hoverlay, List.drop_left' (by rw [hsum]; rfl)]

end

/-! ## Packets built by `sendData` -/

theorem sendData_parts (payload : List UInt8) (sequence : UInt32) (flag : UInt8)
    (hlen : payload.length ≤ 65535) :
    ∃ net sum, sendData payload (UInt16.ofNat payload.length) sequence flag =
        net ++ (sum ++ flag :: payload) ∧
      net = toLE 4 (htonl sequence.toNat) ∧
      sum = toLE 2 (htons (inCksum (net ++ [0, 0] ++ flag :: payload))) ∧
      net.length = 4 ∧ sum.length = 2 := by
  have hsize : (UInt16.ofNat payload.length).toNat = payload.length :=
    UInt16.toNat_ofNat_of_lt' (show _ < 65536 by omega)
  refine ⟨_, _, ?_, rfl, rfl, length_toLE 4 _, length_toLE 2 _⟩
  rw [sendData, hsize, List.take_length, List.append_assoc]

theorem length_sendData (payload : List UInt8) (sequence : UInt32) (flag : UInt8)
    (hlen : payload.length ≤ 65535) :
    (sendData payload (UInt16.ofNat payload.length) sequence flag).length =
      payload.length + 7 := by
  obtain ⟨net, sum, hpacket, -, -, hnet, hsum⟩ := sendData_parts payload sequence flag hlen
  rw [hpacket]
  simp only [List.length_append, List.length_cons, hnet, hsum]
  omega

theorem ntohl_htonl (v : UInt32) : ntohl (ofLE (toLE 4 (htonl v.toNat))) = v.toNat := by
  rw [ofLE_toLE, ntohl, swapBytes_mod, htonl, swapBytes_swapBytes]
  exact Nat.mod_eq_of_lt v.toNat_lt

theorem sequenceNum_sendData (payload : List UInt8) (sequence : UInt32) (flag : UInt8)
    (hlen : payload.length ≤ 65535) :
    ntohl (header (sendData payload (UInt16.ofNat payload.length) sequence flag)).sequenceNum =
      sequence.toNat := by
  obtain ⟨net, sum, hpacket, hsequence, -, hnet, -⟩ := sendData_parts payload sequence flag hlen
  rw [hpacket, sequenceNum_parts hnet, hsequence, ntohl_htonl]

theorem flag_sendData (payload : List UInt8) (sequence : UInt32) (flag : UInt8)
    (hlen : payload.length ≤ 65535) :
    (header (sendData payload (UInt16.ofNat payload.length) sequence flag)).flag = flag := by
  obtain ⟨net, sum, hpacket, -, -, hnet, hsum⟩ := sendData_parts payload sequence flag hlen
  rw [hpacket, flag_parts hnet hsum]

theorem drop_sendData (payload : List UInt8) (sequence : UInt32) (flag : UInt8)
    (hlen : payload.length ≤ 65535) :
    (sendData payload (UInt16.ofNat payload.length) sequence flag).drop 7 = payload := by
  obtain ⟨net, sum, hpacket, -, -, hnet, hsum⟩ := sendData_parts payload sequence flag hlen
  rw [hpacket, drop_parts hnet hsum]

theorem verdict_sendData (payload : List UInt8) (sequence : UInt32) (flag : UInt8)
    (hlen : payload.length ≤ 65528) :
    verdict (sendData payload (UInt16.ofNat payload.length) sequence flag) = 0 := by
  have hlength := length_sendData payload sequence flag (by omega)
  rw [verdict_eq_zero_iff _ (by omega) (by omega)]
  obtain ⟨net, sum, hpacket, -, hchecksum, hnet, hsum⟩ :=
    sendData_parts payload sequence flag (by omega)
  rw [hpacket, checksum_parts hnet hsum, overlay_parts hnet hsum, hchecksum, ofLE_toLE]
  exact Nat.mod_eq_of_lt (swapBytes_lt 2 _)

/-- A packet decodes to what it was built from and verifies; changed in any one byte it does not
verify. -/
theorem sendData_integrity (payload : List UInt8) (sequence : UInt32) (flag : UInt8)
    (hlen : payload.length ≤ 65500) :
    let packet := sendData payload (UInt16.ofNat payload.length) sequence flag
    ntohl (header packet).sequenceNum = sequence.toNat ∧ (header packet).flag = flag ∧
    packet.drop 7 = payload ∧ verdict packet = 0 ∧
    ∀ i b, i < packet.length → b ≠ byteAt packet i → verdict (packet.set i b) ≠ 0 := by
  intro packet
  have hlength := length_sendData payload sequence flag (by omega)
  have hverdict := verdict_sendData payload sequence flag (by omega)
  refine ⟨sequenceNum_sendData payload sequence flag (by omega),
    flag_sendData payload sequence flag (by omega),
    drop_sendData payload sequence flag (by omega), hverdict, ?_⟩
  intro i b hi hne
  exact verdict_set_ne_zero _ (by omega) (by omega) hverdict i b hi hne

theorem sendData_integrity_ok :
    let packet := sendData [111, 107] (UInt16.ofNat [111, 107].length) 7 16
    ntohl (header packet).sequenceNum = 7 ∧ (header packet).flag = 16 ∧
    packet.drop 7 = [111, 107] ∧ verdict packet = 0 ∧
    ∀ i b, i < packet.length → b ≠ byteAt packet i → verdict (packet.set i b) ≠ 0 :=
  sendData_integrity [111, 107] 7 16 (by decide)

end Cpe464.Transfer
