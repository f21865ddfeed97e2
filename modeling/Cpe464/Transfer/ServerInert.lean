import Cpe464.Transfer.ServerLoop

/-!
# Datagrams without effect on the server

A datagram is inert for `processClient` when it is neither answered nor forked for and nothing the
loop does later depends on it. Later turns see the flag byte that a shorter datagram leaves in
place and, while another child may be forked, the bytes behind it. An inert datagram therefore has
to leave exactly these alone.
-/

namespace Cpe464.Transfer

open Observation

/-- The datagram neither brings nor hides a flag the loop acts on, and while children may be forked
the bytes behind its header are those that are in the buffer. -/
structure ServerHarmless (s : ServerLoop) (arrival : Arrival) : Prop where
  unanswered : byteAt s.buf 6 ≠ 16 ∧ flagSeen s.buf arrival.datagram ≠ 16
  unrequested : s.pidCount ≤ 10 →
    (byteAt s.buf 6 = 8 ↔ flagSeen s.buf arrival.datagram = 8) ∧
    (flagSeen s.buf arrival.datagram = 8 → arrival.forked = false) ∧
    ∀ i, 7 ≤ i → i < min arrival.datagram.length serverMaxBuf →
      byteAt arrival.datagram i = byteAt s.buf i

/-- States that later turns do not tell apart. -/
structure Alike (s t : ServerLoop) : Prop where
  pidCount : s.pidCount = t.pidCount
  answered : byteAt s.buf 6 = 16 ↔ byteAt t.buf 6 = 16
  requested : s.pidCount ≤ 10 →
    (byteAt s.buf 6 = 8 ↔ byteAt t.buf 6 = 8) ∧ ∀ i, 7 ≤ i → byteAt s.buf i = byteAt t.buf i

private theorem request_congr {buf buf' : List UInt8} (hlen : buf.length = buf'.length)
    (h : ∀ i, 7 ≤ i → byteAt buf i = byteAt buf' i) (arrival : Arrival) :
    requestedFile buf = requestedFile buf' ∧ connect buf arrival = connect buf' arrival := by
  have hslice (offset count : Nat) (hoffset : 7 ≤ offset) :
      slice buf offset count = slice buf' offset count :=
    slice_congr hlen (fun i hi _ => h i (by omega))
  constructor
  · rw [requestedFile, requestedFile, hslice 7 100 (by omega)]
  · simp only [connect, hslice 7 100 (by omega),
      hslice (7 + nameLength (slice buf' 7 100) arrival.windowOverrun) 4 (by omega),
      hslice (11 + nameLength (slice buf' 7 100) arrival.bufferOverrun) 2 (by omega)]

private theorem byteAt_landed_congr {buf buf' : List UInt8} {i : Nat}
    (hbuf : buf.length = serverMaxBuf + 1) (hbuf' : buf'.length = serverMaxBuf + 1)
    (datagram : List UInt8) (hi : 6 ≤ i) (h : byteAt buf i = byteAt buf' i) :
    byteAt (landed serverMaxBuf buf datagram) i =
      byteAt (landed serverMaxBuf buf' datagram) i := by
  rw [byteAt_landed hbuf (by decide) datagram i (Or.inr hi),
    byteAt_landed hbuf' (by decide) datagram i (Or.inr hi), h]

private theorem byteAt_landed_eq_iff {buf : List UInt8} (hbuf : buf.length = serverMaxBuf + 1)
    (datagram : List UInt8) :
    (∀ i, 7 ≤ i → byteAt (landed serverMaxBuf buf datagram) i = byteAt buf i) ↔
      ∀ i, 7 ≤ i → i < min datagram.length serverMaxBuf →
        byteAt datagram i = byteAt buf i := by
  constructor
  · intro h i hi hown
    rw [← h i hi, byteAt_landed hbuf (by decide) datagram i (by omega), if_pos hown]
  · intro h i hi
    rw [byteAt_landed hbuf (by decide) datagram i (by omega)]
    split_ifs with hown
    · exact h i hi hown
    · rfl

private theorem flag_landed_congr {buf buf' : List UInt8} {flag : UInt8}
    (hbuf : buf.length = serverMaxBuf + 1) (hbuf' : buf'.length = serverMaxBuf + 1)
    (datagram : List UInt8) (h : byteAt buf 6 = flag ↔ byteAt buf' 6 = flag) :
    byteAt (landed serverMaxBuf buf datagram) 6 = flag ↔
      byteAt (landed serverMaxBuf buf' datagram) 6 = flag := by
  rw [byteAt_landed hbuf (by decide) datagram 6 (by omega),
    byteAt_landed hbuf' (by decide) datagram 6 (by omega)]
  split_ifs with hshort
  · exact Iff.rfl
  · exact h

private theorem Alike.forks_iff {s t : ServerLoop} (h : Alike s t) (arrival : Arrival) :
    Forks s arrival ↔ Forks t arrival := by
  unfold Forks
  rw [← h.pidCount]
  by_cases hlive : s.pidCount ≤ 10
  · rw [flag_landed_congr s.length_buf t.length_buf arrival.datagram (h.requested hlive).1]
  · simp only [hlive, false_and, and_false]

theorem Alike.output {s t : ServerLoop} (h : Alike s t) (arrival : Arrival) :
    (processClient s arrival).1 = (processClient t arrival).1 := by
  rw [processClient_output, processClient_output]
  by_cases hforks : Forks s arrival
  · have hlen : (landed serverMaxBuf s.buf arrival.datagram).length =
        (landed serverMaxBuf t.buf arrival.datagram).length := by
      rw [length_landed s.length_buf (by decide), length_landed t.length_buf (by decide)]
    obtain ⟨hfile, hconnect⟩ := request_congr hlen
      (fun i hi => byteAt_landed_congr s.length_buf t.length_buf arrival.datagram (by omega)
        ((h.requested hforks.2.1).2 i hi)) arrival
    simp only [if_pos hforks, if_pos ((h.forks_iff arrival).mp hforks), hfile, hconnect]
  · simp only [if_neg hforks, if_neg (hforks ∘ (h.forks_iff arrival).mpr),
      flag_landed_congr s.length_buf t.length_buf arrival.datagram h.answered]

theorem Alike.next {s t : ServerLoop} (h : Alike s t) (arrival : Arrival) :
    Alike (processClient s arrival).2 (processClient t arrival).2 := by
  have hpid : (processClient s arrival).2.pidCount = (processClient t arrival).2.pidCount := by
    simp only [processClient_pidCount, h.forks_iff arrival, h.pidCount]
  refine ⟨hpid, ?_, ?_⟩
  · rw [processClient_buf, processClient_buf]
    exact flag_landed_congr s.length_buf t.length_buf arrival.datagram h.answered
  · intro hlive
    -- The count does not go down, so the states were alike in their requests before the turn.
    have hbefore : s.pidCount ≤ 10 := by
      rw [processClient_pidCount] at hlive
      split_ifs at hlive with hforks
      · exact hforks.2.1
      · exact hlive
    obtain ⟨hflag, hbytes⟩ := h.requested hbefore
    rw [processClient_buf, processClient_buf]
    refine ⟨flag_landed_congr s.length_buf t.length_buf arrival.datagram hflag, ?_⟩
    intro i hi
    exact byteAt_landed_congr s.length_buf t.length_buf arrival.datagram (by omega) (hbytes i hi)

theorem Alike.indistinguishable {s t : ServerLoop} (h : Alike s t) :
    Indistinguishable processClient s t :=
  indistinguishable_of_simulation Alike (fun _ _ arrival h => ⟨h.output arrival, h.next arrival⟩) h

theorem ServerHarmless.inert {s : ServerLoop} {arrival : Arrival} (h : ServerHarmless s arrival) :
    Inert processClient (· = []) s arrival := by
  have hflag := flag_landed s.length_buf (by decide) arrival.datagram
  have hforks : ¬ Forks s arrival := by
    intro ⟨hrequest, hlive, hforked⟩
    rw [hflag] at hrequest
    rw [(h.unrequested hlive).2.1 hrequest] at hforked
    exact absurd hforked (by decide)
  constructor
  · rw [processClient_output]
    simp only [if_neg hforks, hflag, if_neg h.unanswered.2]
  · have hpid : (processClient s arrival).2.pidCount = s.pidCount := by
      rw [processClient_pidCount, if_neg hforks]
    refine Alike.indistinguishable ⟨hpid, ?_, ?_⟩
    · rw [processClient_buf, hflag]
      exact iff_of_false h.unanswered.2 h.unanswered.1
    · intro hlive
      rw [hpid] at hlive
      obtain ⟨hrequest, _, hbytes⟩ := h.unrequested hlive
      rw [processClient_buf, hflag]
      exact ⟨hrequest.symm, (byteAt_landed_eq_iff s.length_buf _).mpr hbytes⟩

/-! ## Probes

An empty datagram shows the flag that is left in the buffer. A request that is cut off inside its
name, or that has no end of name and a chosen overrun, shows a byte behind the header.
-/

def emptyProbe : Arrival := ⟨[], 0, true, 0, 0⟩

/-- A request with `n` bytes of a name. -/
def nameProbe (n overrun : Nat) : Arrival :=
  ⟨[0, 0, 0, 0, 0, 0, 8] ++ List.replicate n 1, 0, true, overrun, overrun⟩

private theorem byteAt_landed_emptyProbe {buf : List UInt8} (hbuf : buf.length = serverMaxBuf + 1) :
    byteAt (landed serverMaxBuf buf emptyProbe.datagram) 6 = byteAt buf 6 := by
  rw [byteAt_landed hbuf (by decide) _ 6 (by omega), if_neg (by simp [emptyProbe])]

private theorem emptyProbe_answered_iff (s : ServerLoop) :
    (∃ packet, .sendto 0 packet ∈ (processClient s emptyProbe).1) ↔ byteAt s.buf 6 = 16 := by
  simp only [processClient_output, Forks, byteAt_landed_emptyProbe s.length_buf]
  by_cases hflag : byteAt s.buf 6 = 16
  · simp [hflag, emptyProbe]
  · simp only [hflag, if_false]
    split_ifs <;> simp

private theorem emptyProbe_forked_iff {s : ServerLoop} (hlive : s.pidCount ≤ 10) :
    (∃ fileName windowSize bufferSize,
      .fork 0 fileName windowSize bufferSize ∈ (processClient s emptyProbe).1) ↔
      byteAt s.buf 6 = 8 := by
  simp only [processClient_output, Forks, byteAt_landed_emptyProbe s.length_buf]
  by_cases hflag : byteAt s.buf 6 = 8
  · simp [hflag, hlive, emptyProbe]
  · simp only [hflag, false_and, if_false]
    split_ifs <;> simp

section

variable {buf : List UInt8} (hbuf : buf.length = serverMaxBuf + 1) {n : Nat} (overrun : Nat)

include hbuf

private theorem flag_landed_nameProbe :
    byteAt (landed serverMaxBuf buf (nameProbe n overrun).datagram) 6 = 8 := by
  rw [byteAt_landed hbuf (by decide) _ 6 (by omega), if_pos (by simp [nameProbe, serverMaxBuf])]
  rfl

private theorem byteAt_landed_nameProbe_name (hn : n ≤ 100) {i : Nat} (hi : i < n) :
    byteAt (landed serverMaxBuf buf (nameProbe n overrun).datagram) (7 + i) = 1 := by
  have hname : byteAt (nameProbe n overrun).datagram (7 + i) = byteAt (List.replicate n 1) i :=
    byteAt_append_right [0, 0, 0, 0, 0, 0, 8] (List.replicate n 1) i
  rw [byteAt_landed hbuf (by decide) _ _ (by omega),
    if_pos (by simp [nameProbe, serverMaxBuf]; omega), hname]
  simp [byteAt, hi]

private theorem byteAt_landed_nameProbe_rest {i : Nat} (hi : 7 + n ≤ i) :
    byteAt (landed serverMaxBuf buf (nameProbe n overrun).datagram) i = byteAt buf i := by
  rw [byteAt_landed hbuf (by decide) _ i (by omega),
    if_neg (by simp [nameProbe]; omega)]

private theorem byteAt_requestedFile_nameProbe (h : n < 100) :
    byteAt (requestedFile (landed serverMaxBuf buf (nameProbe n overrun).datagram)) n =
      byteAt buf (7 + n) := by
  rw [requestedFile, byteAt_cString, byteAt_slice _ _ _ _ h,
    byteAt_landed_nameProbe_rest hbuf overrun (Nat.le_refl _)]
  intro j hj
  rw [byteAt_slice _ _ _ _ (by omega), byteAt_landed_nameProbe_name hbuf overrun (by omega) hj]
  decide

end

private theorem nameLength_nameProbe {buf : List UInt8} (hbuf : buf.length = serverMaxBuf + 1)
    (overrun : Nat) :
    nameLength (slice (landed serverMaxBuf buf (nameProbe 100 overrun).datagram) 7 100) overrun =
      overrun := by
  have hname : 0 ∉ slice (landed serverMaxBuf buf (nameProbe 100 overrun).datagram) 7 100 := by
    intro hmem
    obtain ⟨j, hj, hzero⟩ := List.getElem_of_mem hmem
    have hlt : j < 100 := by
      rw [slice, List.length_take] at hj
      omega
    have hone := byteAt_landed_nameProbe_name hbuf overrun (Nat.le_refl 100) hlt
    rw [← byteAt_slice _ _ _ _ hlt, byteAt, List.getD_eq_getElem?_getD,
      List.getElem?_eq_getElem hj, hzero] at hone
    exact absurd hone (by decide)
  rw [nameLength, strlen, if_neg hname, Option.getD_none]

private theorem windowSize_nameProbe {buf : List UInt8} (hbuf : buf.length = serverMaxBuf + 1)
    {n : Nat} (hn : 100 ≤ n) :
    (connect (landed serverMaxBuf buf (nameProbe 100 n).datagram) (nameProbe 100 n)).windowSize =
      UInt32.ofNat (ntohl (ofLE (slice buf (7 + n) 4))) := by
  have hslice : slice (landed serverMaxBuf buf (nameProbe 100 n).datagram) (7 + n) 4 =
      slice buf (7 + n) 4 :=
    slice_congr (by rw [length_landed hbuf (by decide), hbuf])
      (fun i hi _ => byteAt_landed_nameProbe_rest hbuf n (by omega))
  rw [← hslice]
  conv_rhs => rw [← nameLength_nameProbe hbuf n]
  rfl

private theorem bytes_eq_of_ntohl {bytes bytes' : List UInt8} (hlen : bytes.length = bytes'.length)
    (hfour : bytes.length ≤ 4)
    (h : UInt32.ofNat (ntohl (ofLE bytes)) = UInt32.ofNat (ntohl (ofLE bytes'))) :
    bytes = bytes' := by
  have hsmall (bytes : List UInt8) (hfour : bytes.length ≤ 4) : ofLE bytes < 256 ^ 4 :=
    Nat.lt_of_lt_of_le (ofLE_lt bytes) (Nat.pow_le_pow_right (by decide) hfour)
  have hnumber := congrArg UInt32.toNat h
  have hlt (v : Nat) : ntohl v < 2 ^ 32 := swapBytes_lt 4 v
  rw [UInt32.toNat_ofNat_of_lt' (hlt _), UInt32.toNat_ofNat_of_lt' (hlt _)] at hnumber
  have hvalue := swapBytes_inj hnumber
  rw [Nat.mod_eq_of_lt (hsmall bytes hfour), Nat.mod_eq_of_lt (hsmall bytes' (by omega))] at hvalue
  exact ofLE_inj hlen hvalue

private theorem forks_nameProbe {s : ServerLoop} (hlive : s.pidCount ≤ 10) (n overrun : Nat) :
    Forks s (nameProbe n overrun) :=
  ⟨flag_landed_nameProbe s.length_buf overrun, hlive, rfl⟩

/-- Two states in which children may be forked and whose answers agree have the same bytes behind
the header. -/
private theorem byteAt_eq_of_output {s t : ServerLoop} (hs : s.pidCount ≤ 10) (ht : t.pidCount ≤ 10)
    (h : ∀ arrival, (processClient s arrival).1 = (processClient t arrival).1) (i : Nat)
    (hi : 7 ≤ i) : byteAt s.buf i = byteAt t.buf i := by
  have hforked (n overrun : Nat) := h (nameProbe n overrun)
  simp only [processClient_output, if_pos (forks_nameProbe hs _ _),
    if_pos (forks_nameProbe ht _ _), List.cons.injEq, ServerEvent.fork.injEq, and_true,
    true_and] at hforked
  obtain ⟨n, rfl⟩ : ∃ n, i = 7 + n := ⟨i - 7, by omega⟩
  by_cases hn : n < 100
  · obtain ⟨hfile, _⟩ := hforked n 0
    rw [← byteAt_requestedFile_nameProbe s.length_buf 0 hn, hfile,
      byteAt_requestedFile_nameProbe t.length_buf 0 hn]
  · obtain ⟨_, hwindow, _⟩ := hforked 100 n
    rw [windowSize_nameProbe s.length_buf (by omega),
      windowSize_nameProbe t.length_buf (by omega)] at hwindow
    have hbytes := congrArg (byteAt · 0) (bytes_eq_of_ntohl
      (by simp only [slice, List.length_take, List.length_drop, s.length_buf, t.length_buf])
      (by simp only [slice, List.length_take]; omega) hwindow)
    simpa only [byteAt_slice _ _ _ _ (show 0 < 4 by decide), Nat.add_zero] using hbytes

private theorem ServerHarmless.of_inert {s : ServerLoop} {arrival : Arrival}
    (h : Inert processClient (· = []) s arrival) : ServerHarmless s arrival := by
  obtain ⟨hsilent, hsame⟩ := h
  have hseen := flag_landed s.length_buf (by decide) arrival.datagram
  rw [processClient_output] at hsilent
  have hforks : ¬ Forks s arrival := by
    intro hforks
    simp [if_pos hforks] at hsilent
  have hflag : flagSeen s.buf arrival.datagram ≠ 16 := by
    intro hflag
    simp [if_neg hforks, hseen, hflag] at hsilent
  have hpid : (processClient s arrival).2.pidCount = s.pidCount := by
    rw [processClient_pidCount, if_neg hforks]
  have hempty := hsame.output emptyProbe
  constructor
  · refine ⟨?_, hflag⟩
    rwa [ne_eq, ← emptyProbe_answered_iff, ← hempty, emptyProbe_answered_iff, processClient_buf,
      hseen]
  · intro hlive
    have hlive' : (processClient s arrival).2.pidCount ≤ 10 := by
      rw [hpid]
      exact hlive
    refine ⟨?_, ?_, ?_⟩
    · rw [← emptyProbe_forked_iff hlive, ← hempty, emptyProbe_forked_iff hlive',
        processClient_buf, hseen]
    · intro hrequest
      by_contra hforked
      exact hforks ⟨by rw [hseen]; exact hrequest, hlive, by simpa using hforked⟩
    · rw [← byteAt_landed_eq_iff s.length_buf, ← processClient_buf]
      exact byteAt_eq_of_output hlive' hlive hsame.output

theorem server_inert_iff (s : ServerLoop) (arrival : Arrival) :
    Inert processClient (· = []) s arrival ↔ ServerHarmless s arrival :=
  ⟨ServerHarmless.of_inert, ServerHarmless.inert⟩

end Cpe464.Transfer
