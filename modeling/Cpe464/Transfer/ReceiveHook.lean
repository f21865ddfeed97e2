import Cpe464.Transfer.Packet

/-!
# The check of the receive hook

`recvfrom_Mod` of the linked library takes `in_cksum` over a whole packet with its checksum field
and reports the packet as corrupted unless the result is zero. `in_cksum` sums words in the order
of the host and `sendData` stores its result in network order, so that the field fills the sum up
only when its two bytes are equal. `verifyData` clears the field and swaps the bytes back.
-/

namespace Cpe464.Transfer

/-- What `recvfrom_Mod` reports of a packet it received. -/
def recvfromMod (buf : List UInt8) : Option String :=
  if inCksum buf ≠ 0 then some " - RECV Corrupted packet" else none

/-- `verifyData` accepts the packet exactly when the hook does not report it. -/
def ChecksAgree (packet : List UInt8) : Prop := verdict packet = 0 ↔ recvfromMod packet = none

/-- What `sendData` takes the checksum over. -/
def cleared (payload : List UInt8) (sequence : UInt32) (flag : UInt8) : List UInt8 :=
  toLE 4 (htonl sequence.toNat) ++ [0, 0] ++ flag :: payload

private theorem recvfromMod_eq_none_iff (buf : List UInt8) :
    recvfromMod buf = none ↔ inCksum buf = 0 := by
  rw [recvfromMod]
  by_cases h : inCksum buf = 0
  · rw [if_neg (not_not_intro h)]
    exact iff_of_true rfl h
  · rw [if_pos h]
    exact iff_of_false (Option.some_ne_none _) h

section Packet

variable (payload : List UInt8) (sequence : UInt32) (flag : UInt8)

private theorem length_cleared : (cleared payload sequence flag).length = payload.length + 7 := by
  simp only [cleared, List.length_append, List.length_cons, List.length_nil, length_toLE]
  omega

variable (hlen : payload.length ≤ 65528)

include hlen

private theorem wordSum_sendData :
    wordSum (sendData payload (UInt16.ofNat payload.length) sequence flag) =
      wordSum (cleared payload sequence flag) +
        swapBytes 2 (inCksum (cleared payload sequence flag)) := by
  obtain ⟨net, sum, hpacket, hnet, hsum, hnetlen, hsumlen⟩ :=
    sendData_parts payload sequence flag (by omega)
  have hcleared : cleared payload sequence flag = net ++ ([0, 0] ++ flag :: payload) := by
    rw [cleared, ← hnet, List.append_assoc]
  have hzero : wordSum [0, 0] = 0 := rfl
  rw [List.append_assoc, ← hcleared] at hsum
  rw [hpacket, hcleared, wordSum_append _ _ (by rw [hnetlen]), wordSum_append _ _ (by rw [hsumlen]),
    wordSum_append _ _ (by rw [hnetlen]), wordSum_append _ _ rfl, ← hcleared, hsum, wordSum_toLE,
    htons, hzero]
  have hswapped : swapBytes 2 (inCksum (cleared payload sequence flag)) < 65536 := swapBytes_lt 2 _
  omega

/-- The hook lets a packet pass exactly when its bytes at even and at odd places have the same sum
modulo 257. -/
private theorem inCksum_sendData_eq_zero_iff :
    inCksum (sendData payload (UInt16.ofNat payload.length) sequence flag) = 0 ↔
      257 ∣ alternatingByteSum (cleared payload sequence flag) := by
  have hlength := length_sendData payload sequence flag (by omega)
  have hclearedLength := length_cleared payload sequence flag
  have hsum := wordSum_le (cleared payload sequence flag)
  have hmod := wordSum_mod (cleared payload sequence flag)
  have hlt := foldCarries_lt
    (wordSum (sendData payload (UInt16.ofNat payload.length) sequence flag))
  have hfull := foldCarries_swapped_full_iff (wordSum (cleared payload sequence flag)) (by omega)
  rw [← inCksum_eq _ (by omega), ← wordSum_sendData payload sequence flag hlen] at hfull
  rw [inCksum_eq _ (by omega)]
  omega

end Packet

/-- The two checks agree on a packet and on all packets that differ from it in one byte exactly
when its bytes at even and at odd places have the same sum modulo 257. -/
theorem sendData_checksAgree_iff (payload : List UInt8) (sequence : UInt32) (flag : UInt8)
    (hlen : payload.length ≤ 65528) :
    let packet := sendData payload (UInt16.ofNat payload.length) sequence flag
    (ChecksAgree packet ∧
        ∀ i b, i < packet.length → b ≠ byteAt packet i → ChecksAgree (packet.set i b)) ↔
      257 ∣ alternatingByteSum (toLE 4 (htonl sequence.toNat) ++ [0, 0] ++ flag :: payload) := by
  intro packet
  have hlength : packet.length = payload.length + 7 :=
    length_sendData payload sequence flag (by omega)
  have hverdict : verdict packet = 0 := verdict_sendData payload sequence flag hlen
  have hzero : inCksum packet = 0 ↔ _ := inCksum_sendData_eq_zero_iff payload sequence flag hlen
  rw [cleared] at hzero
  have hpacket : ChecksAgree packet ↔ inCksum packet = 0 := by
    rw [ChecksAgree, recvfromMod_eq_none_iff]
    exact ⟨fun h => h.mp hverdict, fun h => iff_of_true hverdict h⟩
  rw [← hzero, ← hpacket]
  refine ⟨And.left, ?_⟩
  intro hagree
  refine ⟨hagree, ?_⟩
  intro i b hi hne
  -- Neither check accepts a packet with a changed byte.
  have hrejected := verdict_set_ne_zero packet (by omega) (by omega) hverdict i b hi hne
  have hreported := inCksum_set_ne packet i b hi (by omega) hne
  rw [hpacket.mp hagree] at hreported
  rw [ChecksAgree, recvfromMod_eq_none_iff]
  exact iff_of_false hrejected hreported

theorem sendData_checksAgree_balanced :
    let packet := sendData [16] (UInt16.ofNat [16].length) 0 16
    ChecksAgree packet ∧
      ∀ i b, i < packet.length → b ≠ byteAt packet i → ChecksAgree (packet.set i b) :=
  (sendData_checksAgree_iff [16] 0 16 (by decide)).mpr (by decide)

/-- The hook reports an intact packet as corrupted. -/
theorem intact_packet_reported :
    verdict (sendData [104, 105] 2 0 16) = 0 ∧
      recvfromMod (sendData [104, 105] 2 0 16) = some " - RECV Corrupted packet" ∧
      ¬ChecksAgree (sendData [104, 105] 2 0 16) := by
  have hverdict : verdict (sendData [104, 105] 2 0 16) = 0 := by decide +kernel
  have hreport : recvfromMod (sendData [104, 105] 2 0 16) = some " - RECV Corrupted packet" := by
    decide +kernel
  refine ⟨hverdict, hreport, ?_⟩
  intro h
  have hpassed := h.mp hverdict
  rw [hreport] at hpassed
  cases hpassed

end Cpe464.Transfer
