import Cpe464.Trace.Parse

/-!
# Reads behind the capture

The parsers are given where a captured record begins but not how long it is. `CapturedWhole` is
what a record has to be for all their reads to lie inside it: it holds the headers they look at and
as much behind them as the header and the total length announce.
-/

namespace Cpe464.Trace

/-- A read lies in front of an offset. -/
def Step.ReadsBelow (n : Nat) : Step → Prop
  | .read offset count => count = 0 ∨ offset + count ≤ n
  | _ => True

instance (n : Nat) : (step : Step) → Decidable (step.ReadsBelow n)
  | .read _ _ => inferInstanceAs (Decidable (_ ∨ _))
  | .heading _ => inferInstanceAs (Decidable True)
  | .line _ _ => inferInstanceAs (Decidable True)
  | .checksum _ _ _ => inferInstanceAs (Decidable True)

def ReadsBelow (n : Nat) (steps : List Step) : Prop := ∀ step ∈ steps, step.ReadsBelow n

instance (n : Nat) (steps : List Step) : Decidable (ReadsBelow n steps) :=
  inferInstanceAs (Decidable (∀ _ ∈ _, _))

/-- What is behind the header of an IP packet lies in front of an offset, as far as it is read. -/
def PayloadBelow (n : Nat) (packet : List UInt8) (start : Nat) : Prop :=
  ((byteAt packet (start + 9)).toNat = 1 → start + headerLen packet start + 1 ≤ n) ∧
  ((byteAt packet (start + 9)).toNat = 6 → start + headerLen packet start + 18 ≤ n ∧
    start + headerLen packet start + segmentLen packet start ≤ n) ∧
  ((byteAt packet (start + 9)).toNat = 17 → start + headerLen packet start + 4 ≤ n)

instance (n : Nat) (packet : List UInt8) (start : Nat) :
    Decidable (PayloadBelow n packet start) := inferInstanceAs (Decidable (_ ∧ _ ∧ _))

/-- The record holds an Ethernet header, and an IP packet or an ARP header where it announces
one. -/
def CapturedWhole (data : List UInt8) : Prop :=
  14 ≤ data.length ∧
  (netShort data 12 = 0x0800 → 34 ≤ data.length ∧ 14 + headerLen data 14 ≤ data.length ∧
    PayloadBelow data.length data 14) ∧
  (netShort data 12 = 0x0806 → 42 ≤ data.length)

instance (data : List UInt8) : Decidable (CapturedWhole data) :=
  inferInstanceAs (Decidable (_ ∧ _ ∧ _))

section Steps

variable (n : Nat)

private theorem readsBelow_append (steps steps' : List Step) :
    ReadsBelow n (steps ++ steps') ↔ ReadsBelow n steps ∧ ReadsBelow n steps' :=
  List.forall_mem_append

private theorem readsBelow_cons (step : Step) (steps : List Step) :
    ReadsBelow n (step :: steps) ↔ step.ReadsBelow n ∧ ReadsBelow n steps :=
  List.forall_mem_cons

private theorem readsBelow_nil : ReadsBelow n [] := List.forall_mem_nil _

private theorem readsBelow_read (offset count : Nat) :
    (Step.read offset count).ReadsBelow n ↔ count = 0 ∨ offset + count ≤ n := Iff.rfl

private theorem readsBelow_heading (text : String) : (Step.heading text).ReadsBelow n := trivial

private theorem readsBelow_line (label : String) (value : Value) :
    (Step.line label value).ReadsBelow n := trivial

private theorem readsBelow_portLine (label : String) (port : Nat) :
    (portLine label port).ReadsBelow n := by
  unfold portLine
  split <;> trivial

private theorem readsBelow_typeLine (type : Nat) : (typeLine type).ReadsBelow n := by
  unfold typeLine
  split <;> trivial

private theorem readsBelow_protocolLine (proto : Nat) : (protocolLine proto).ReadsBelow n := by
  unfold protocolLine
  split <;> trivial

private theorem readsBelow_opcodeLine (op : Nat) : ReadsBelow n (opcodeLine op) := by
  unfold opcodeLine
  split <;> simp [readsBelow_cons, readsBelow_nil, readsBelow_line]

private theorem readsBelow_flagLine (label : String) (flags bit : Nat) :
    (flagLine label flags bit).ReadsBelow n := trivial

private theorem readsBelow_checksumSteps_iff (packet bytes : List UInt8) (offset : Nat) :
    ReadsBelow n (checksumSteps packet bytes offset) ↔ offset + 2 ≤ n := by
  simp [checksumSteps, readsBelow_cons, readsBelow_nil, Step.ReadsBelow]

end Steps

/-! ## The parsers -/

section Parsers

variable (n : Nat) (packet : List UInt8) (start : Nat)

private theorem readsBelow_getIcmpInfo_iff :
    ReadsBelow n (getIcmpInfo packet start) ↔ start + 1 ≤ n := by
  simp only [getIcmpInfo, readsBelow_cons, readsBelow_nil, readsBelow_read, readsBelow_heading,
    readsBelow_typeLine, true_and, and_true]
  omega

private theorem readsBelow_getUdpInfo_iff :
    ReadsBelow n (getUdpInfo packet start) ↔ start + 4 ≤ n := by
  simp only [getUdpInfo, readsBelow_cons, readsBelow_nil, readsBelow_read, readsBelow_heading,
    readsBelow_portLine, true_and, and_true]
  omega

private theorem readsBelow_getTcpInfo_iff (psHead : TcpPsHead) :
    ReadsBelow n (getTcpInfo packet start psHead) ↔
      start + 18 ≤ n ∧ start + ntohs psHead.tcpLen ≤ n := by
  simp only [getTcpInfo, readsBelow_append, readsBelow_cons, readsBelow_nil, readsBelow_read,
    readsBelow_heading, readsBelow_line, readsBelow_portLine, readsBelow_flagLine,
    readsBelow_checksumSteps_iff, true_and, and_true]
  omega

private theorem readsBelow_getArpInfo_iff :
    ReadsBelow n (getArpInfo packet start) ↔ start + 28 ≤ n := by
  simp only [getArpInfo, readsBelow_append, readsBelow_cons, readsBelow_nil, readsBelow_read,
    readsBelow_heading, readsBelow_line, readsBelow_opcodeLine, true_and, and_true]
  omega

private theorem readsBelow_getPayloadInfo_iff (hheader : start + 20 ≤ n) :
    ReadsBelow n (getPayloadInfo packet start) ↔ PayloadBelow n packet start := by
  unfold getPayloadInfo PayloadBelow
  split
  · rename_i hproto
    simp [hproto, readsBelow_getIcmpInfo_iff]
  · rename_i hproto
    simp only [hproto, readsBelow_append, readsBelow_cons, readsBelow_nil, readsBelow_read,
      readsBelow_getTcpInfo_iff, ntohs_psHead, and_true]
    grind
  · rename_i hproto
    simp [hproto, readsBelow_getUdpInfo_iff]
  · rename_i hicmp htcp hudp
    exact iff_of_true (readsBelow_nil n)
      ⟨fun h => absurd h hicmp, fun h => absurd h htcp, fun h => absurd h hudp⟩

private theorem readsBelow_getIpInfo_iff :
    ReadsBelow n (getIpInfo packet start) ↔
      start + 20 ≤ n ∧ start + headerLen packet start ≤ n ∧ PayloadBelow n packet start := by
  by_cases hheader : start + 20 ≤ n
  · simp only [getIpInfo, readsBelow_append, readsBelow_cons, readsBelow_nil, readsBelow_read,
      readsBelow_heading, readsBelow_line, readsBelow_protocolLine, readsBelow_checksumSteps_iff,
      readsBelow_getPayloadInfo_iff n packet start hheader, true_and, and_true]
    grind
  · refine iff_of_false ?_ (fun h => hheader h.1)
    intro hbelow
    have hdest := hbelow (.read (start + 16) 4) (by simp [getIpInfo])
    simp only [Step.ReadsBelow] at hdest
    omega

end Parsers

/-! ## A captured record -/

section Captured

variable (data behind : List UInt8)

theorem netShort_append (offset : Nat) (h : offset + 2 ≤ data.length) :
    netShort (data ++ behind) offset = netShort data offset := by
  rw [netShort, slice_append_left _ _ _ _ h, netShort]

theorem headerLen_append (start : Nat) (h : start < data.length) :
    headerLen (data ++ behind) start = headerLen data start := by
  rw [headerLen, byteAt_append_left _ _ _ h, headerLen]

private theorem payloadBelow_append (n start : Nat) (h : start + 20 ≤ data.length) :
    PayloadBelow n (data ++ behind) start ↔ PayloadBelow n data start := by
  unfold PayloadBelow segmentLen
  rw [byteAt_append_left _ _ _ (by omega), headerLen_append _ _ _ (by omega),
    netShort_append _ _ _ (by omega)]

/-- `get_eth_info` reads no byte behind a captured record, whatever is there, exactly when the
record holds what its headers announce. -/
theorem getEthInfo_readsBelow_iff :
    ReadsBelow data.length (getEthInfo (data ++ behind)).2 ↔ CapturedWhole data := by
  by_cases hether : 14 ≤ data.length
  · unfold getEthInfo CapturedWhole
    rw [netShort_append _ _ _ (by omega)]
    split
    · rename_i htype
      simp only [readsBelow_append, readsBelow_cons, readsBelow_nil, readsBelow_read,
        readsBelow_heading, readsBelow_line, readsBelow_getIpInfo_iff, htype, true_and, and_true]
      by_cases hheader : 34 ≤ data.length
      · rw [payloadBelow_append data behind _ 14 hheader,
          headerLen_append data behind 14 (by omega)]
        grind
      · grind
    · rename_i htype
      simp only [readsBelow_append, readsBelow_cons, readsBelow_nil, readsBelow_read,
        readsBelow_heading, readsBelow_line, readsBelow_getArpInfo_iff, htype,
        true_and, and_true]
      grind
    · rename_i hip harp
      simp only [readsBelow_append, readsBelow_cons, readsBelow_nil, readsBelow_read,
        readsBelow_heading, readsBelow_line, true_and, and_true]
      grind
  · refine iff_of_false ?_ (fun h => hether h.1)
    intro hbelow
    have htype := hbelow (.read 12 2) (by unfold getEthInfo; split <;> simp)
    simp only [Step.ReadsBelow] at htype
    omega

end Captured

/-- A record that ends behind the Ethernet header of an IP packet. -/
theorem getEthInfo_reads_behind :
    ¬ReadsBelow 14 (getEthInfo ([255, 255, 255, 255, 255, 255, 2, 0, 0, 0, 0, 1, 8, 0] ++
      List.replicate 20 0)).2 := by
  decide

end Cpe464.Trace
