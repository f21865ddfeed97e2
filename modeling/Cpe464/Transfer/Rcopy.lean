import Cpe464.Framework.Observation
import Cpe464.Transfer.Receive

/-!
# The receive loop of rcopy

`talkToServer` takes one datagram after another until `pollCall` times out, and acknowledges each
data packet with its sequence number. `udpHeader` is set only after the first datagram was handed
to `verifyData`.
-/

namespace Cpe464.Transfer

open Observation

/-- A packet sent to where the datagram came from, or the checksum taken through `udpHeader` before
it is set. -/
inductive RcopyEvent where
  | readUnsetHeader
  | sendto (packet : List UInt8)
  deriving DecidableEq

/-- The locals of `talkToServer` that live across the turns of its loop. -/
structure RcopyLoop where
  buf : List UInt8
  length_buf : buf.length = rcopyMaxBuf + 1
  headerSet : Bool

/-- The header in the buffer gets its sequence number in host order. -/
def hostSequence (buf : List UInt8) : List UInt8 :=
  overlay buf 0 (toLE 4 (ntohl (header buf).sequenceNum))

private theorem length_hostSequence {buf : List UInt8} (h : 4 ≤ buf.length) :
    (hostSequence buf).length = buf.length :=
  length_overlay buf _ 0 (by rw [length_toLE]; omega)

theorem length_received {buf : List UInt8} (hlen : buf.length = rcopyMaxBuf + 1)
    (datagram : List UInt8) :
    (hostSequence (landed rcopyMaxBuf buf datagram)).length = rcopyMaxBuf + 1 := by
  have hlanded := length_landed hlen (by decide) datagram
  rw [length_hostSequence (by rw [hlanded]; decide), hlanded]

/-- One turn of the loop of `talkToServer`. The result of `verifyData` is dropped, so it does not
matter which checksum an unset header gives it. -/
def talkToServer (s : RcopyLoop) (datagram : List UInt8) : List RcopyEvent × RcopyLoop :=
  let unset := if s.headerSet then [] else [.readUnsetHeader]
  let buf := hostSequence (landed rcopyMaxBuf s.buf datagram)
  let reply :=
    if (header buf).flag = 16 then
      [.sendto (sendData (toLE 4 (htonl (header buf).sequenceNum)) 4 0 5)]
    else []
  (unset ++ reply,
    { buf, length_buf := length_received s.length_buf datagram, headerSet := true })

/-! ## One turn -/

private theorem byteAt_hostSequence {buf : List UInt8} (h : 4 ≤ buf.length) {i : Nat} (hi : 4 ≤ i) :
    byteAt (hostSequence buf) i = byteAt buf i :=
  byteAt_overlay_outside buf _ 0 i (by rw [length_toLE]; omega) (by rw [length_toLE]; omega)

theorem flag_received {buf : List UInt8} (hlen : buf.length = rcopyMaxBuf + 1)
    (datagram : List UInt8) :
    byteAt (hostSequence (landed rcopyMaxBuf buf datagram)) 6 = flagSeen buf datagram := by
  have hlanded := length_landed hlen (by decide) datagram
  rw [byteAt_hostSequence (by rw [hlanded]; decide) (by omega), flag_landed hlen (by decide)]

theorem slice_hostSequence (buf : List UInt8) :
    slice (hostSequence buf) 0 4 = toLE 4 (ntohl (ofLE (slice buf 0 4))) := by
  have hfour := length_toLE 4 (ntohl (ofLE (slice buf 0 4)))
  show ((overlay buf 0 (toLE 4 (ntohl (ofLE (slice buf 0 4))))).drop 0).take 4 = _
  rw [List.drop_zero, overlay_zero, List.take_left' hfour]

private theorem hostSequence_congr {buf buf' : List UInt8} (hlen : buf.length = buf'.length)
    (h : ∀ i < 4, byteAt buf i = byteAt buf' i) :
    slice (hostSequence buf) 0 4 = slice (hostSequence buf') 0 4 := by
  have hnumber : slice buf 0 4 = slice buf' 0 4 :=
    slice_congr hlen (fun i _ hi => h i (by omega))
  rw [slice_hostSequence, slice_hostSequence, hnumber]

theorem talkToServer_output (s : RcopyLoop) (datagram : List UInt8) :
    (talkToServer s datagram).1 =
      (if s.headerSet then [] else [.readUnsetHeader]) ++
        if byteAt (hostSequence (landed rcopyMaxBuf s.buf datagram)) 6 = 16 then
          [.sendto (sendData (toLE 4 (htonl
            (ofLE (slice (hostSequence (landed rcopyMaxBuf s.buf datagram)) 0 4)))) 4 0 5)]
        else [] := rfl

/-! ## Datagrams without effect -/

def NoReply (events : List RcopyEvent) : Prop := ∀ packet, .sendto packet ∉ events

/-- The header is set, and neither the flag that the datagram brings nor the one it hides is that
of a data packet. -/
structure RcopyHarmless (s : RcopyLoop) (datagram : List UInt8) : Prop where
  headerSet : s.headerSet = true
  unanswered : byteAt s.buf 6 ≠ 16 ∧ flagSeen s.buf datagram ≠ 16

/-- States that later turns do not tell apart: a flag that is answered comes with its sequence
number. -/
structure SameReplies (s t : RcopyLoop) : Prop where
  headerSet : s.headerSet = t.headerSet
  answered : byteAt s.buf 6 = 16 ∨ byteAt t.buf 6 = 16 →
    byteAt s.buf 6 = byteAt t.buf 6 ∧ ∀ i < 4, byteAt s.buf i = byteAt t.buf i

theorem SameReplies.received {s t : RcopyLoop} (h : SameReplies s t) (datagram : List UInt8)
    (hflag : byteAt (hostSequence (landed rcopyMaxBuf s.buf datagram)) 6 = 16 ∨
      byteAt (hostSequence (landed rcopyMaxBuf t.buf datagram)) 6 = 16) :
    byteAt (hostSequence (landed rcopyMaxBuf s.buf datagram)) 6 =
        byteAt (hostSequence (landed rcopyMaxBuf t.buf datagram)) 6 ∧
      slice (hostSequence (landed rcopyMaxBuf s.buf datagram)) 0 4 =
        slice (hostSequence (landed rcopyMaxBuf t.buf datagram)) 0 4 := by
  have hlen : (landed rcopyMaxBuf s.buf datagram).length =
      (landed rcopyMaxBuf t.buf datagram).length := by
    rw [length_landed s.length_buf (by decide), length_landed t.length_buf (by decide)]
  have hbyte (s : RcopyLoop) (i : Nat) (hi : i < 4) :=
    byteAt_landed s.length_buf (by decide) datagram i (Or.inl hi)
  rw [flag_received s.length_buf, flag_received t.length_buf, flagSeen, flagSeen] at hflag ⊢
  by_cases hwhole : 7 ≤ datagram.length
  · rw [if_pos hwhole, if_pos hwhole]
    refine ⟨rfl, hostSequence_congr hlen ?_⟩
    intro i hi
    have hown : i < min datagram.length rcopyMaxBuf := by
      rw [rcopyMaxBuf]
      omega
    rw [hbyte s i hi, hbyte t i hi, if_pos hown, if_pos hown]
  · rw [if_neg hwhole, if_neg hwhole] at hflag ⊢
    obtain ⟨hsame, hbytes⟩ := h.answered hflag
    refine ⟨hsame, hostSequence_congr hlen ?_⟩
    intro i hi
    rw [hbyte s i hi, hbyte t i hi, hbytes i hi]

theorem SameReplies.output {s t : RcopyLoop} (h : SameReplies s t) (datagram : List UInt8) :
    (talkToServer s datagram).1 = (talkToServer t datagram).1 := by
  rw [talkToServer_output, talkToServer_output, h.headerSet]
  by_cases hflag : byteAt (hostSequence (landed rcopyMaxBuf s.buf datagram)) 6 = 16 ∨
      byteAt (hostSequence (landed rcopyMaxBuf t.buf datagram)) 6 = 16
  · obtain ⟨hsame, hsequence⟩ := h.received datagram hflag
    rw [hsame, hsequence]
  · rw [not_or] at hflag
    rw [if_neg hflag.1, if_neg hflag.2]

theorem SameReplies.next {s t : RcopyLoop} (h : SameReplies s t) (datagram : List UInt8) :
    SameReplies (talkToServer s datagram).2 (talkToServer t datagram).2 := by
  refine ⟨rfl, ?_⟩
  intro hflag
  obtain ⟨hsame, hsequence⟩ := h.received datagram hflag
  refine ⟨hsame, ?_⟩
  intro i hi
  have hbyte := congrArg (byteAt · i) hsequence
  simp only [byteAt_slice _ _ _ _ hi, Nat.zero_add] at hbyte
  exact hbyte

theorem SameReplies.indistinguishable {s t : RcopyLoop} (h : SameReplies s t) :
    Indistinguishable talkToServer s t :=
  indistinguishable_of_simulation SameReplies
    (fun _ _ datagram h => ⟨h.output datagram, h.next datagram⟩) h

private theorem talkToServer_empty (s : RcopyLoop) :
    ((∃ packet, .sendto packet ∈ (talkToServer s []).1) ↔ byteAt s.buf 6 = 16) ∧
      (.readUnsetHeader ∈ (talkToServer s []).1 ↔ s.headerSet = false) := by
  have hflag : byteAt (hostSequence (landed rcopyMaxBuf s.buf [])) 6 = byteAt s.buf 6 :=
    flag_received s.length_buf []
  rw [talkToServer_output, hflag]
  constructor
  · by_cases hflag : byteAt s.buf 6 = 16
    · simp [hflag]
    · cases hset : s.headerSet <;> simp [hflag]
  · cases hset : s.headerSet
    · simp
    · by_cases hdata : byteAt s.buf 6 = 16
      · simp [hdata]
      · simp [hdata]

theorem rcopy_inert_iff (s : RcopyLoop) (datagram : List UInt8) :
    Inert talkToServer NoReply s datagram ↔ RcopyHarmless s datagram := by
  have hseen := flag_received s.length_buf datagram
  constructor
  · intro ⟨hsilent, hsame⟩
    have hempty := hsame.output []
    have hflag : flagSeen s.buf datagram ≠ 16 := by
      intro hflag
      rw [talkToServer_output, hseen, if_pos hflag] at hsilent
      exact hsilent _ (List.mem_append_right _ (List.mem_singleton_self _))
    obtain ⟨hanswered, hset⟩ := talkToServer_empty (talkToServer s datagram).2
    rw [hempty, (talkToServer_empty s).1] at hanswered
    rw [hempty, (talkToServer_empty s).2] at hset
    constructor
    · by_contra hunset
      have hafter := hset.mp (by simpa using hunset)
      exact Bool.noConfusion hafter
    · refine ⟨?_, hflag⟩
      intro hbefore
      exact hflag (hseen.symm.trans (hanswered.mp hbefore))
  · intro h
    constructor
    · intro packet hmem
      simp [talkToServer_output, h.headerSet, hseen, h.unanswered.2] at hmem
    · refine SameReplies.indistinguishable ⟨h.headerSet.symm, ?_⟩
      intro hflag
      rcases hflag with hflag | hflag
      · exact absurd (hseen.symm.trans hflag) h.unanswered.2
      · exact absurd hflag h.unanswered.1

end Cpe464.Transfer
