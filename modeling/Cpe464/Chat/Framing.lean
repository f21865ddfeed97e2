import Cpe464.Framework.Bytes

/-!
# Chat PDU framing

`PDU.c` puts a two-byte length in network order in front of every payload. The length counts
itself. The stream of a connection is the list of the bytes that still arrive before the peer
closes, and a `recv` with `MSG_WAITALL` comes back short only at its end.
-/

namespace Cpe464.Chat

/-- An `int` passed as a `size_t`. -/
def toSize (n : Int) : Nat := (n % 2 ^ 64).toNat

/-- What a receive call leaves: its result, the caller's buffer and the unread stream. -/
structure Recv where
  ret : Int
  dataBuffer : List UInt8
  rest : List UInt8
  deriving DecidableEq

/-- `safeRecv(socketNum, dataBuffer + offset, bufferLen, MSG_WAITALL)`. A connection reset counts
as its end, every other failure of `recv` ends the process. -/
def safeRecv (stream dataBuffer : List UInt8) (offset : Nat) (bufferLen : Int) : Recv where
  ret := (stream.take (toSize bufferLen)).length
  dataBuffer := overlay dataBuffer offset (stream.take (toSize bufferLen))
  rest := stream.drop (toSize bufferLen)

/-- The bytes that `sendPDU` hands to `safeSend`. -/
def sendPDU (dataBuffer : List UInt8) (payloadLength : Int) : List UInt8 :=
  let netOrderPDULength := htons ((payloadLength + 2) % 65536).toNat
  toLE 2 netOrderPDULength ++ dataBuffer.take payloadLength.toNat

/-- `recvPDU`, with `uninit` the value `PDULength` has before the header is copied into its low
half. -/
def recvPDU (stream dataBuffer : List UInt8) (bufferSize : Int) (uninit : Nat) : Recv :=
  let header := safeRecv stream dataBuffer 0 2
  if header.ret = 0 then
    { header with ret := 0 }
  else if header.ret > 0 then
    let pduLength := ofLE (slice header.dataBuffer 0 2) + 65536 * (uninit / 65536)
    if bufferSize < ntohs pduLength then
      { header with ret := -1 }
    else
      let hostOrderPayloadLength : Int := ntohs pduLength - 2
      safeRecv header.rest header.dataBuffer 2 hostOrderPayloadLength
  else
    { header with ret := -1 }

/-- The two bytes in front of a payload of `n` bytes. -/
def pduHeader (n : Nat) : List UInt8 := toLE 2 (htons (n + 2))

@[simp] theorem length_pduHeader (n : Nat) : (pduHeader n).length = 2 := length_toLE _ _

theorem sendPDU_eq (payload : List UInt8) (h : payload.length ≤ 65533) :
    sendPDU payload payload.length = pduHeader payload.length ++ payload := by
  have hlen : (((payload.length : Int) + 2) % 65536).toNat = payload.length + 2 := by omega
  simp only [sendPDU, pduHeader, hlen, Int.toNat_natCast, List.take_length]

theorem ntohs_pduHeader (n uninit : Nat) (h : n ≤ 65533) :
    ntohs (ofLE (pduHeader n) + 65536 * (uninit / 65536)) = n + 2 := by
  have hcut : (ofLE (pduHeader n) + 65536 * (uninit / 65536)) % 256 ^ 2 = htons (n + 2) := by
    have hlt : htons (n + 2) < 256 ^ 2 := swapBytes_lt 2 (n + 2)
    rw [pduHeader, ofLE_toLE, Nat.mod_eq_of_lt hlt]
    omega
  rw [ntohs, ← swapBytes_mod, hcut, htons, swapBytes_swapBytes]
  exact Nat.mod_eq_of_lt (by omega)

private theorem toSize_natCast (n : Nat) (h : n < 2 ^ 64) : toSize n = n := by
  simp only [toSize]
  omega

private theorem safeRecv_append (bytes rest dataBuffer : List UInt8) (offset n : Nat)
    (hn : bytes.length = n) (hsize : n < 2 ^ 64) :
    safeRecv (bytes ++ rest) dataBuffer offset n =
      ⟨n, overlay dataBuffer offset bytes, rest⟩ := by
  subst hn
  simp only [safeRecv, toSize_natCast _ hsize, List.take_left, List.drop_left]

/-- One framed payload is received whole, behind its header and in front of what the buffer held
before. -/
theorem recvPDU_sendPDU (payload rest dataBuffer : List UInt8) (bufferSize uninit : Nat)
    (hhigh : bufferSize ≤ 65535) (hfit : payload.length + 2 ≤ bufferSize) :
    recvPDU (sendPDU payload payload.length ++ rest) dataBuffer bufferSize uninit =
      { ret := payload.length
        dataBuffer := pduHeader payload.length ++ payload ++ dataBuffer.drop (payload.length + 2)
        rest := rest } := by
  have hsend := sendPDU_eq payload (by omega)
  have hheader : safeRecv (sendPDU payload payload.length ++ rest) dataBuffer 0 2 =
      ⟨2, pduHeader payload.length ++ dataBuffer.drop 2, payload ++ rest⟩ := by
    rw [hsend, List.append_assoc]
    have := safeRecv_append (pduHeader payload.length) (payload ++ rest) dataBuffer 0 2
      (length_pduHeader _) (by decide)
    rwa [overlay_zero, length_pduHeader] at this
  have hfield : slice (pduHeader payload.length ++ dataBuffer.drop 2) 0 2 =
      pduHeader payload.length := List.take_left' (length_pduHeader _)
  have hvalue := ntohs_pduHeader payload.length uninit (by omega)
  have hcount : ((payload.length + 2 : Nat) : Int) - 2 = payload.length := by omega
  have hroom : ¬((bufferSize : Int) < ((payload.length + 2 : Nat) : Int)) := by omega
  have hbuffer := overlay_append (pduHeader payload.length) (dataBuffer.drop 2) payload
  rw [length_pduHeader, List.drop_drop, Nat.add_comm 2] at hbuffer
  rw [recvPDU, hheader]
  simp only [hfield, hvalue, hcount, if_neg hroom]
  rw [safeRecv_append payload rest _ 2 _ rfl (by omega), hbuffer]
  simp

/-! ## Whole streams -/

/-- The stream that one `sendPDU` call per payload puts on a connection. -/
def wire (payloads : List (List UInt8)) : List UInt8 :=
  payloads.flatMap fun payload => sendPDU payload payload.length

/-- Successive `recvPDU` calls into one buffer, one for every value of the uninitialised local. -/
def recvPDUs (bufferSize : Int) : List Nat → List UInt8 → List UInt8 → List Recv
  | [], _, _ => []
  | uninit :: uninits, stream, dataBuffer =>
      let call := recvPDU stream dataBuffer bufferSize uninit
      call :: recvPDUs bufferSize uninits call.rest call.dataBuffer

/-- The calls return the payloads of a stream in order: each returns its payload's length, leaves
the payload behind the two header bytes and consumes exactly the payload and its header; `tail` is
what the last call leaves unread. -/
def Delivers (tail : List UInt8) : List (List UInt8) → List UInt8 → List Recv → Prop
  | [], stream, [] => stream = tail
  | payload :: payloads, stream, call :: calls =>
      call.ret = payload.length ∧
      slice call.dataBuffer 2 payload.length = payload ∧
      payload.length + 2 ≤ stream.length ∧
      call.rest = stream.drop (payload.length + 2) ∧
      Delivers tail payloads call.rest calls
  | _, _, _ => False

/-- Receiving undoes sending on whole streams, for every list of payloads that fit the buffer. -/
theorem recvPDUs_wire (bufferSize : Nat) (hlow : 3 ≤ bufferSize) (hhigh : bufferSize ≤ 65535)
    (payloads : List (List UInt8))
    (hpayloads : ∀ payload ∈ payloads, 1 ≤ payload.length ∧ payload.length ≤ bufferSize - 2)
    (dataBuffer : List UInt8) (hbuffer : dataBuffer.length = bufferSize)
    (uninits : List Nat) (hcalls : uninits.length = payloads.length) (tail : List UInt8) :
    Delivers tail payloads (wire payloads ++ tail)
      (recvPDUs bufferSize uninits (wire payloads ++ tail) dataBuffer) := by
  induction payloads generalizing dataBuffer uninits with
  | nil =>
    obtain rfl : uninits = [] := List.length_eq_zero_iff.mp hcalls
    rfl
  | cons payload payloads ih =>
    cases uninits with
    | nil => simp at hcalls
    | cons uninit uninits =>
      have hfit := (hpayloads payload (by simp)).2
      have hstream : wire (payload :: payloads) ++ tail =
          sendPDU payload payload.length ++ (wire payloads ++ tail) := by
        simp only [wire, List.flatMap_cons, List.append_assoc]
      have hsend := sendPDU_eq payload (by omega)
      have hlength : (sendPDU payload payload.length).length = payload.length + 2 := by
        rw [hsend, List.length_append, length_pduHeader, Nat.add_comm]
      rw [hstream, recvPDUs,
        recvPDU_sendPDU payload _ dataBuffer bufferSize uninit hhigh (by omega)]
      refine ⟨rfl, ?_, ?_, ?_, ?_⟩
      · have := slice_middle (pduHeader payload.length) payload
          (dataBuffer.drop (payload.length + 2))
        rwa [length_pduHeader] at this
      · rw [List.length_append, hlength]
        omega
      · rw [← hlength, List.drop_left]
      · apply ih (fun p hp => hpayloads p (by simp [hp]))
        · simp only [List.length_append, length_pduHeader, List.length_drop, hbuffer]
          omega
        · simpa using hcalls

theorem recvPDUs_wire_two :
    Delivers [9] [[7], [8, 0]] (wire [[7], [8, 0]] ++ [9])
      (recvPDUs 5 [0, 4294967295] (wire [[7], [8, 0]] ++ [9]) [1, 2, 3, 4, 5]) :=
  recvPDUs_wire 5 (by decide) (by decide) [[7], [8, 0]] (by decide) [1, 2, 3, 4, 5] rfl
    [0, 4294967295] rfl [9]

end Cpe464.Chat
