import Cpe464.Framework.Chunks
import Cpe464.Transfer.Connect
import Cpe464.Transfer.Session

/-!
# What the clients receive

As long as the network does not change a datagram, it may lose, duplicate and reorder them as it
likes: when a client acknowledges a number, the block of its own file with that number lies in its
receive buffer. Once every number was acknowledged, the blocks make up the file.
-/

namespace Cpe464.Transfer

open Runs

/-- The arguments of rcopy, as far as a connect packet can carry them. -/
structure Request where
  fromFileName : List UInt8
  windowSize : UInt32
  bufferSize : UInt16
  length_fromFileName : fromFileName.length ≤ 99
  fromFileName_zero : 0 ∉ fromFileName
  windowSize_lt : windowSize.toNat < 2 ^ 24

def Request.packet (r : Request) : List UInt8 :=
  sendData (connectPayload r.fromFileName r.windowSize r.bufferSize)
    (UInt16.ofNat (connectPayload r.fromFileName r.windowSize r.bufferSize).length) 0 8

theorem Request.connectBuf_eq (r : Request) :
    connectBuf (processArgs r.fromFileName r.windowSize r.bufferSize) = some r.packet :=
  Transfer.connectBuf_eq r.fromFileName_zero r.length_fromFileName r.windowSize r.bufferSize

/-- A packet with a block of the file goes into the receive buffer of rcopy, and the window has a
slot for every block. -/
structure Request.Fits (fopen : List UInt8 → Option (List UInt8)) (r : Request) : Prop where
  bufferSize : 1 ≤ r.bufferSize.toNat ∧ r.bufferSize.toNat ≤ 73
  windowSize : ∀ file, fopen r.fromFileName = some file →
    blockCount r.bufferSize file ≤ r.windowSize.toNat

/-- A client with its arguments enters its loop with this buffer. -/
structure Start where
  request : Request
  loop : RcopyLoop

def startSession (loop : ServerLoop) (starts : List Start) : Session :=
  initialSession loop (starts.map fun start => (start.request.packet, start.loop))

def SessionAction.Flips : SessionAction → Prop
  | .toServer (.flip _) _ => True
  | .toClient (.flip _) _ => True
  | _ => False

/-- The payload begins with the block; behind a short last block lies the rest of a slot. -/
structure HoldsBlock (bufferSize : UInt16) (file : List UInt8) (j : Nat) (payload : List UInt8) :
    Prop where
  length : payload.length = bufferSize.toNat
  block : slice file (j * bufferSize.toNat) bufferSize.toNat <+: payload

/-! ## What a client has -/

/-- The number that a client acknowledges. -/
def SessionEvent.rr (client : Nat) : SessionEvent → Option Nat
  | .server _ => none
  | .client sender event => if sender = client then event.rr else none

/-- What lies behind the header in the buffer of a client. -/
def Session.received (s : Session) (client : Nat) (bufferSize : UInt16) : List UInt8 :=
  (s.clients[client]?.map fun loop => slice loop.buf 7 bufferSize.toNat).getD []

/-- The numbers that a client acknowledges in a step, each with what it has received. -/
def arrivals (client : Nat) (bufferSize : UInt16)
    (m : Moment Session SessionAction (List SessionEvent)) : List (Nat × List UInt8) :=
  (m.output.filterMap (SessionEvent.rr client)).map fun number =>
    (number, m.after.received client bufferSize)

/-! ## The invariant -/

section Invariant

variable (fopen : List UInt8 → Option (List UInt8)) (requests : List Request)

/-- A connect packet or an acknowledgement of a client. -/
def FromClient (d : Datagram) : Prop :=
  ∃ r, requests[d.client]? = some r ∧ (d.bytes = r.packet ∨ d.IsRR)

/-- A data packet with a block of the file that the client has asked for. -/
def IsBlock (d : Datagram) : Prop :=
  ∃ r file, ∃ packet : DataPacket, requests[d.client]? = some r ∧
    fopen r.fromFileName = some file ∧ packet.sequence.toNat < blockCount r.bufferSize file ∧
    HoldsBlock r.bufferSize file packet.sequence.toNat packet.payload ∧ d.bytes = packet.datagram

/-- The child has all or nothing of the file in front of it. -/
def Child.Serves (c : Child) : Prop :=
  ∃ r, requests[c.client]? = some r ∧ c.bufferSize = r.bufferSize ∧ ∀ s ∈ c.sender, s.file = [] ∨
    fopen r.fromFileName = some s.file ∧ s.seq = 0 ∧
      ∀ j < blockCount r.bufferSize s.file, (s.window.getD j []).length = r.bufferSize.toNat

structure Orderly (s : Session) : Prop where
  inFlight : ∀ d ∈ s.server.inFlight, FromClient requests d
  children : ∀ c ∈ s.server.children, c.Serves fopen requests
  toClients : ∀ d ∈ s.toClients, d.IsResponse ∨ IsBlock fopen requests d

/-- Whatever a client acknowledges in a step, it has received the block with this number. -/
def Acknowledges (m : Moment Session SessionAction (List SessionEvent)) : Prop :=
  ∀ client r, requests[client]? = some r → ∀ arrival ∈ arrivals client r.bufferSize m,
    ∃ file, fopen r.fromFileName = some file ∧ arrival.1 < blockCount r.bufferSize file ∧
      HoldsBlock r.bufferSize file arrival.1 arrival.2

end Invariant

section Server

variable {fopen : List UInt8 → Option (List UInt8)} {requests : List Request}

private theorem parentReceive_orderly {s s' : Server} {loop : ServerLoop} {index : Nat}
    {d : Datagram} {forked : Bool} {windowOverrun bufferOverrun : Nat} {heap : Nat → Nat → UInt8}
    {events : List Event}
    (h : parentReceive fopen s loop index d forked windowOverrun bufferOverrun heap =
      some (events, s')) (hd : FromClient requests d) (hfits : ∀ r ∈ requests, r.Fits fopen)
    (hs : ∀ c ∈ s.children, c.Serves fopen requests) :
    ∀ c ∈ s'.children, c.Serves fopen requests := by
  obtain ⟨-, ⟨hforks, response, child, hstart, -, hchildren⟩ | ⟨hchildren, -⟩⟩ :=
    parentReceive_cases h
  · rw [hchildren]
    refine List.forall_mem_append.mpr ⟨hs, List.forall_mem_singleton.mpr ?_⟩
    obtain ⟨r, hr, hpacket | hrr⟩ := hd
    · let arrival : Arrival := ⟨d.bytes, d.client, forked, windowOverrun, bufferOverrun⟩
      have harrival : arrival.datagram = r.packet := hpacket
      obtain ⟨hwindow, hbuffer, hfile, -⟩ := request_arrives (s := loop) r.length_fromFileName
        harrival r.fromFileName_zero r.windowSize_lt
      obtain ⟨hclient, hsize, hsender⟩ := startSend_cases hstart
      refine ⟨r, by rw [hclient]; exact hr, hsize.trans hbuffer, ?_⟩
      intro sender hmem
      rcases hsender with ⟨file, hopen, -, hsender⟩ | ⟨-, hsender⟩
      · rw [hsender] at hmem
        cases hmem
        rw [hfile] at hopen
        refine .inr ⟨hopen, rfl, ?_⟩
        intro j hj
        have hslots := (hfits r (List.mem_of_getElem? hr)).windowSize file hopen
        rw [hwindow, hbuffer]
        exact length_slot heap r.bufferSize (Nat.lt_of_lt_of_le hj hslots)
      · rw [hsender] at hmem
        cases hmem
    · have hflag := hforks.1
      rw [flag_landed loop.length_buf (by decide), flagSeen, if_pos hrr.1, hrr.2] at hflag
      exact absurd hflag (by decide)
  · rw [hchildren]
    exact hs

private theorem exists_blockPacket {r : Request} {s : Sender} {j : Nat} (hfits : r.Fits fopen)
    (hopen : fopen r.fromFileName = some s.file) (hseq : s.seq = 0)
    (hj : j < blockCount r.bufferSize s.file)
    (hslot : (s.window.getD j []).length = r.bufferSize.toNat) :
    ∃ packet : DataPacket, packet.sequence.toNat = j ∧
      HoldsBlock r.bufferSize s.file j packet.payload ∧
      packet.datagram = blockPacket r.bufferSize s j := by
  rw [← Nat.zero_add j, ← hseq] at hslot
  have hlength := length_blockPayload hslot
  have hsize := hfits.bufferSize.2
  have hcount := hfits.windowSize s.file hopen
  have hwindow := r.windowSize_lt
  refine ⟨⟨UInt32.ofNat (s.seq + j), blockPayload r.bufferSize s j, by omega⟩, ?_, ⟨hlength, ?_⟩,
    ?_⟩
  · rw [hseq, Nat.zero_add]
    exact UInt32.toNat_ofNat_of_lt' (show j < 4294967296 by omega)
  · show _ <+: overlay (s.window.getD (s.seq + j) []) 0 _
    rw [overlay_zero]
    exact List.prefix_append _ _
  · have hbytes : UInt16.ofNat (blockPayload r.bufferSize s j).length = r.bufferSize := by
      rw [hlength, UInt16.ofNat_toNat]
    show sendData _ (UInt16.ofNat _) _ 16 = blockPacket r.bufferSize s j
    rw [hbytes]
    rfl

private theorem childReceive_orderly {c : Child} (hc : c.Serves fopen requests)
    (hfits : ∀ r ∈ requests, r.Fits fopen) (input : WakeUp) :
    (∀ c' ∈ (c.receive input).2, c'.Serves fopen requests) ∧
      ∀ sent ∈ ((c.receive input).1.map (Event.childSent c.client)).filterMap Event.datagram,
        IsBlock fopen requests sent := by
  obtain ⟨r, hr, hbuffer, hserves⟩ := hc
  have hfit := hfits r (List.mem_of_getElem? hr)
  cases hsender : c.sender with
  | none =>
    rw [Child.receive, hsender]
    refine ⟨?_, List.forall_mem_nil _⟩
    intro c' hc'
    exact absurd (Option.mem_def.mp hc') (Option.some_ne_none c').symm
  | some s =>
    have hsize : 1 ≤ c.bufferSize.toNat := by
      rw [hbuffer]
      exact hfit.bufferSize.1
    obtain ⟨hsent, hrest⟩ := wakeUp_spec hsize s input
    rw [Child.receive, hsender]
    constructor
    · intro c' hc'
      cases hc'
      refine ⟨r, hr, hbuffer, fun next hnext => .inl ?_⟩
      cases hnext
      exact hrest
    · intro sent hmem
      simp only [hsent, List.map_cons, List.map_map] at hmem
      obtain ⟨event, hevent, hdatagram⟩ := List.mem_filterMap.mp hmem
      rcases List.mem_cons.mp hevent with rfl | hevent
      · cases hdatagram
      · obtain ⟨j, hj, rfl⟩ := List.mem_map.mp hevent
        cases hdatagram
        have hlt := List.mem_range.mp hj
        rw [hbuffer] at hlt
        rcases hserves s hsender with hnone | ⟨hopen, hseq, hslots⟩
        · rw [hnone, blockCount_nil _ hfit.bufferSize.1] at hlt
          cases hlt
        · rw [hbuffer]
          obtain ⟨packet, hnumber, hblock, hbytes⟩ :=
            exists_blockPacket hfit hopen hseq hlt (hslots j hlt)
          exact ⟨r, s.file, packet, hr, hopen, hnumber ▸ hlt, hnumber ▸ hblock, hbytes.symm⟩

private theorem orderly_serverStep {s : Session} {action : Action} {events : List Event}
    {server : Server} (h : serverStep fopen s.server action = some (events, server))
    (haction : ∀ d, action ≠ .send d) (hfits : ∀ r ∈ requests, r.Fits fopen)
    (hs : Orderly fopen requests s) :
    (∀ d ∈ server.inFlight, FromClient requests d) ∧
      (∀ c ∈ server.children, c.Serves fopen requests) ∧
      ∀ sent ∈ events.filterMap Event.datagram, sent.IsResponse ∨ IsBlock fopen requests sent := by
  cases action with
  | send d => exact absurd rfl (haction d)
  | parentReceive index forked windowOverrun bufferOverrun heap =>
    rw [serverStep] at h
    split at h
    · rename_i loop d _ hd
      have hfrom := hs.inFlight d (List.mem_of_getElem? hd)
      refine ⟨?_, parentReceive_orderly h hfrom hfits hs.children, fun sent hsent =>
        .inl ((parentReceive_response h).2 sent hsent)⟩
      rw [(parentReceive_cases h).1]
      exact fun d hmem => hs.inFlight d (List.mem_of_mem_eraseIdx hmem)
    · cases h
  | childReceive child index flag =>
    rw [serverStep] at h
    split at h
    · rename_i c d hc hd
      obtain ⟨hnext, hblocks⟩ :=
        childReceive_orderly (hs.children c (List.mem_of_getElem? hc)) hfits ⟨flag, d.bytes⟩
      obtain ⟨hevents, hserver⟩ := Prod.mk.inj (Option.some.inj h)
      have hinFlight : server.inFlight = s.server.inFlight.eraseIdx index := by
        rw [← hserver]
        dsimp only
        split <;> rfl
      refine ⟨?_, ?_, ?_⟩
      · rw [hinFlight]
        exact fun d hmem => hs.inFlight d (List.mem_of_mem_eraseIdx hmem)
      · rw [← hserver]
        dsimp only
        split
        · rename_i c' hc'
          intro c'' hmem
          rcases List.mem_or_eq_of_mem_set hmem with hmem | rfl
          · exact hs.children c'' hmem
          · exact hnext c'' hc'
        · exact fun c' hmem => hs.children c' (List.mem_of_mem_eraseIdx hmem)
      · rw [← hevents, List.filterMap_cons_none rfl]
        exact fun sent hsent => .inr (hblocks sent hsent)
    · cases h
  | childExit child =>
    rw [serverStep] at h
    split at h
    · cases h
      exact ⟨hs.inFlight, fun c hmem => hs.children c (List.mem_of_mem_eraseIdx hmem),
        List.forall_mem_nil _⟩
    · cases h

end Server

section Client

variable {fopen : List UInt8 → Option (List UInt8)} {requests : List Request}

private theorem isRR_replies (client : Nat) (loop : RcopyLoop) (datagram : List UInt8) :
    ∀ d ∈ replies client (talkToServer loop datagram).1, d.client = client ∧ d.IsRR := by
  intro d hd
  obtain ⟨packet, hpacket, rfl⟩ := List.mem_map.mp hd
  refine ⟨rfl, ?_⟩
  obtain ⟨event, hevent, hsent⟩ := List.mem_filterMap.mp hpacket
  rw [talkToServer_output] at hevent
  rcases List.mem_append.mp hevent with hmem | hmem
  · split at hmem
    · cases hmem
    · rw [List.mem_singleton.mp hmem] at hsent
      cases hsent
  · split at hmem
    · rw [List.mem_singleton.mp hmem] at hsent
      cases hsent
      have hfour := length_toLE 4 (htonl
        (ofLE (slice (hostSequence (landed rcopyMaxBuf loop.buf datagram)) 0 4)))
      have hlength := length_sendData _ 0 5 (Nat.le_trans (Nat.le_of_eq hfour) (by decide))
      have hflag := flag_sendData _ 0 5 (Nat.le_trans (Nat.le_of_eq hfour) (by decide))
      rw [hfour] at hlength hflag
      exact ⟨by dsimp only; exact hlength ▸ (by decide), hflag⟩
    · cases hmem

private theorem arrivals_server (client : Nat) (bufferSize : UInt16) (s s' : Session)
    (action : SessionAction) (events : List Event) :
    arrivals client bufferSize ⟨s, action, events.map .server, s'⟩ = [] := by
  have hnone : (events.map SessionEvent.server).filterMap (SessionEvent.rr client) = [] := by
    rw [List.filterMap_map]
    exact List.filterMap_eq_nil_iff.mpr fun _ _ => rfl
  rw [arrivals, hnone, List.map_nil]

private theorem arrivals_clientReceive {s : Session} {d : Datagram} {loop : RcopyLoop}
    (hloop : s.clients[d.client]? = some loop) (index client : Nat) (bufferSize : UInt16)
    (action : SessionAction) :
    arrivals client bufferSize
        ⟨s, action, (clientReceive s index d loop).1, (clientReceive s index d loop).2⟩ =
      if d.client = client then
        ((talkToServer loop d.bytes).1.filterMap RcopyEvent.rr).map fun number =>
          (number, slice (talkToServer loop d.bytes).2.buf 7 bufferSize.toNat)
      else [] := by
  have hlt := (List.getElem?_eq_some_iff.mp hloop).1
  simp only [arrivals, clientReceive, List.filterMap_map, Session.received]
  by_cases hclient : d.client = client
  · subst hclient
    rw [if_pos rfl, List.getElem?_set_self hlt]
    have hrr : (SessionEvent.rr d.client ∘ fun event => SessionEvent.client d.client event) =
        RcopyEvent.rr := by
      funext event
      exact if_pos rfl
    rw [hrr]
    rfl
  · have hnone : (SessionEvent.rr client ∘ fun event => SessionEvent.client d.client event) =
        fun _ => none := by
      funext event
      exact if_neg hclient
    rw [if_neg hclient, hnone, List.filterMap_none, List.map_nil]

private theorem arrivals_response {s : Session} {d : Datagram} {loop : RcopyLoop}
    (hloop : s.clients[d.client]? = some loop) (hd : d.IsResponse) (index client : Nat)
    (bufferSize : UInt16) (action : SessionAction) :
    arrivals client bufferSize
      ⟨s, action, (clientReceive s index d loop).1, (clientReceive s index d loop).2⟩ = [] := by
  have hnone : (talkToServer loop d.bytes).1.filterMap RcopyEvent.rr = [] := by
    rw [talkToServer_response loop hd]
    cases loop.headerSet <;> rfl
  rw [arrivals_clientReceive hloop, hnone, List.map_nil, ite_self]

private theorem acknowledges_clientReceive {s : Session} {index : Nat} {d : Datagram}
    {loop : RcopyLoop} (hloop : s.clients[d.client]? = some loop)
    (hfits : ∀ r ∈ requests, r.Fits fopen) (hd : d.IsResponse ∨ IsBlock fopen requests d)
    (action : SessionAction) :
    Acknowledges fopen requests
      ⟨s, action, (clientReceive s index d loop).1, (clientReceive s index d loop).2⟩ := by
  intro client r hr arrival harrival
  rcases hd with hresponse | ⟨r', file, packet, hr', hopen, hnumber, hblock, hbytes⟩
  · rw [arrivals_response hloop hresponse] at harrival
    cases harrival
  · rw [arrivals_clientReceive hloop] at harrival
    split at harrival
    · rename_i hclient
      rw [hclient, hr] at hr'
      cases hr'
      have hsize := (hfits r (List.mem_of_getElem? hr)).bufferSize.2
      have hlength := hblock.length
      rw [hbytes, talkToServer_rr, ← hlength, payload_received loop packet (by omega)] at harrival
      rw [List.mem_singleton.mp harrival]
      exact ⟨file, hopen, hnumber, hblock⟩
    · cases harrival

private theorem orderly_step {s s' : Session} {action : SessionAction} {output : List SessionEvent}
    (h : sessionStep fopen s action = some (output, s')) (hs : Orderly fopen requests s)
    (hfits : ∀ r ∈ requests, r.Fits fopen) (haction : ¬action.Flips) :
    Orderly fopen requests s' ∧ Acknowledges fopen requests ⟨s, action, output, s'⟩ := by
  cases action with
  | server action =>
    obtain ⟨hsend, events, server, hstep, rfl, rfl⟩ := sessionStep_server h
    obtain ⟨hinFlight, hchildren, hsent⟩ := orderly_serverStep hstep hsend hfits hs
    refine ⟨⟨hinFlight, hchildren, List.forall_mem_append.mpr ⟨hs.toClients, hsent⟩⟩, ?_⟩
    intro client r hr arrival harrival
    rw [arrivals_server] at harrival
    cases harrival
  | client index =>
    obtain ⟨d, loop, hd, hloop, heq⟩ := sessionStep_client h
    cases heq
    have hmem := hs.toClients d (List.mem_of_getElem? hd)
    refine ⟨⟨?_, hs.children, fun d hmem => hs.toClients d (List.mem_of_mem_eraseIdx hmem)⟩,
      acknowledges_clientReceive hloop hfits hmem _⟩
    refine List.forall_mem_append.mpr ⟨hs.inFlight, ?_⟩
    intro reply hreply
    obtain ⟨hclient, hrr⟩ := isRR_replies d.client loop d.bytes reply hreply
    rcases hmem with hresponse | ⟨r, -, -, hr, -⟩
    · rw [replies_response loop hresponse] at hreply
      cases hreply
    · exact ⟨r, hclient ▸ hr, .inr hrr⟩
  | toServer fault index =>
    obtain ⟨rfl, rfl⟩ := sessionStep_toServer h
    refine ⟨⟨fun d hmem => ?_, hs.children, hs.toClients⟩, ?_⟩
    · rcases mem_apply hmem with hmem | ⟨byteToFlip, rfl, -⟩
      · exact hs.inFlight d hmem
      · exact absurd trivial haction
    · intro client r hr arrival harrival
      cases harrival
  | toClient fault index =>
    obtain ⟨rfl, rfl⟩ := sessionStep_toClient h
    refine ⟨⟨hs.inFlight, hs.children, fun d hmem => ?_⟩, ?_⟩
    · rcases mem_apply hmem with hmem | ⟨byteToFlip, rfl, -⟩
      · exact hs.toClients d hmem
      · exact absurd trivial haction
    · intro client r hr arrival harrival
      cases harrival

end Client

/-! ## Runs -/

private theorem orderly_startSession (fopen : List UInt8 → Option (List UInt8)) (loop : ServerLoop)
    (starts : List Start) :
    Orderly fopen (starts.map Start.request) (startSession loop starts) := by
  refine ⟨?_, List.forall_mem_nil _, List.forall_mem_nil _⟩
  intro d hd
  obtain ⟨client, hclient⟩ := List.mem_iff_getElem?.mp hd
  simp only [startSession, initialSession, List.getElem?_mapIdx, List.getElem?_map,
    Option.map_map, Option.map_eq_some_iff] at hclient
  obtain ⟨start, hstart, rfl⟩ := hclient
  refine ⟨start.request, ?_, .inl rfl⟩
  rw [List.getElem?_map]
  exact congrArg (Option.map Start.request) hstart

private theorem length_le_blockCount {bufferSize : UInt16} (h : 1 ≤ bufferSize.toNat)
    (file : List UInt8) : file.length ≤ blockCount bufferSize file * bufferSize.toNat := by
  have hdivision := Nat.div_add_mod (file.length + (bufferSize.toNat - 1)) bufferSize.toNat
  have hrest := Nat.mod_lt (file.length + (bufferSize.toNat - 1)) h
  rw [Nat.mul_comm] at hdivision
  rw [blockCount]
  omega

/-- In every run over a network that loses, duplicates and reorders, a client has received the block
of its file with every number that it acknowledges. When all numbers were acknowledged, the file is
there, with the rest of a slot behind it if its last block is short. -/
theorem session_assembles_file (fopen : List UInt8 → Option (List UInt8)) (loop : ServerLoop)
    (starts : List Start)
    (hfits : ∀ start ∈ starts, start.request.Fits fopen) {actions : List SessionAction}
    {moments : List (Moment Session SessionAction (List SessionEvent))} {last : Session}
    (hrun : run (sessionStep fopen) (startSession loop starts) actions =
      some (moments, last))
    (hflips : ∀ action ∈ actions, ¬action.Flips) :
    ∀ client start, starts[client]? = some start →
      let r := start.request
      let parts := moments.flatMap (arrivals client r.bufferSize)
      (∀ part ∈ parts, ∃ file, fopen r.fromFileName = some file ∧
        part.1 < blockCount r.bufferSize file ∧ HoldsBlock r.bufferSize file part.1 part.2) ∧
      ∀ file, fopen r.fromFileName = some file →
        (∀ j < blockCount r.bufferSize file, j ∈ parts.map Prod.fst) →
        (assemble parts (blockCount r.bufferSize file)).length =
            blockCount r.bufferSize file * r.bufferSize.toNat ∧
          file <+: assemble parts (blockCount r.bufferSize file) := by
  have hrequests : ∀ r ∈ starts.map Start.request, r.Fits fopen :=
    List.forall_mem_map.mpr hfits
  obtain ⟨-, hmoments⟩ := run_invariant (Orderly fopen (starts.map Start.request))
    (fun _ action => ¬action.Flips) (Acknowledges fopen (starts.map Start.request))
    (fun _ _ _ _ hstep hs haction => orderly_step hstep hs hrequests haction)
    (orderly_startSession fopen loop starts) hrun
    (fun m hm => hflips _ (run_actions hrun ▸ List.mem_map_of_mem hm))
  intro client start hstart r parts
  have hr : (starts.map Start.request)[client]? = some r := by
    rw [List.getElem?_map, hstart]
    rfl
  have hblocks : ∀ part ∈ parts, ∃ file, fopen r.fromFileName = some file ∧
      part.1 < blockCount r.bufferSize file ∧ HoldsBlock r.bufferSize file part.1 part.2 := by
    intro part hpart
    obtain ⟨m, hm, harrival⟩ := List.mem_flatMap.mp hpart
    exact (hmoments m hm).2.2 client r hr part harrival
  refine ⟨hblocks, ?_⟩
  intro file hopen hall
  have hsize := (hfits start (List.mem_of_getElem? hstart)).bufferSize.1
  refine prefix_assemble ?_ hall (length_le_blockCount hsize file)
  intro part hpart
  obtain ⟨file', hopen', -, hblock⟩ := hblocks part hpart
  obtain rfl := Option.some.inj (hopen.symm.trans hopen')
  exact ⟨hblock.length, hblock.block⟩

/-- A request for the file `f` in blocks of two bytes. -/
def smallStart : Start where
  request := ⟨[102], 2, 2, by decide, by decide, by decide⟩
  loop := rcopyStart

private theorem smallStart_fits : smallStart.request.Fits oneFile := by
  refine ⟨by decide, ?_⟩
  intro file hopen
  obtain rfl : [120, 121, 122] = file := Option.some.inj hopen
  decide

/-- A request comes twice, and so does the second block, in front of the first. -/
def disorderly : List SessionAction :=
  [.toServer .duplicate 0, .server (.parentReceive 0 true 0 0 zeroHeap), .toClient .lose 0,
    .server (.childReceive 0 0 0), .toClient .duplicate 1, .client 1, .client 0, .client 0]

theorem session_assembles_file_disorderly :
    ∃ moments last, run (sessionStep oneFile) (startSession serverStart [smallStart])
        disorderly = some (moments, last) ∧
      [120, 121, 122] <+: assemble (moments.flatMap (arrivals 0 2)) 2 := by
  obtain ⟨moments, last, hrun, hall⟩ := exists_run_of (sessionStep oneFile)
    (startSession serverStart [smallStart]) disorderly
    (fun moments => ∀ j < blockCount 2 [120, 121, 122],
      j ∈ (moments.flatMap (arrivals 0 2)).map Prod.fst)
    (by decide +kernel)
  have hassembled := session_assembles_file oneFile serverStart [smallStart]
    (List.forall_mem_singleton.mpr smallStart_fits) hrun
    (by simp [disorderly, SessionAction.Flips]) 0 smallStart rfl
  exact ⟨moments, last, hrun, (hassembled.2 [120, 121, 122] rfl hall).2⟩

/-! ## A transfer -/

section Transfer

variable {fopen : List UInt8 → Option (List UInt8)}

variable (fopen) in
private theorem exists_run_client {client : Nat} {bufferSize : UInt16}
    (hsize : bufferSize.toNat ≤ 73) (packets : List DataPacket) (hpackets : ∀ packet ∈ packets,
      packet.payload.length = bufferSize.toNat) (s : Session) {loop : RcopyLoop}
    (hloop : s.clients[client]? = some loop)
    (hflight : s.toClients = packets.map fun packet => ⟨client, packet.datagram⟩) :
    ∃ moments last, run (sessionStep fopen) s
        (List.replicate packets.length (.client 0)) = some (moments, last) ∧
      moments.flatMap (arrivals client bufferSize) =
        packets.map fun packet => (packet.sequence.toNat, packet.payload) := by
  induction packets generalizing s loop with
  | nil => exact ⟨[], s, rfl, rfl⟩
  | cons packet packets ih =>
    obtain ⟨hpacket, hrest⟩ := List.forall_mem_cons.mp hpackets
    have hlt := (List.getElem?_eq_some_iff.mp hloop).1
    have hstep : sessionStep fopen s (.client 0) =
        some (clientReceive s 0 ⟨client, packet.datagram⟩ loop) := by
      simp only [sessionStep, hflight, List.map_cons, List.getElem?_cons_zero, hloop,
        Option.map_some]
    obtain ⟨moments, last, hrun, harrivals⟩ := ih hrest
      (clientReceive s 0 ⟨client, packet.datagram⟩ loop).2 (List.getElem?_set_self hlt)
      (by rw [clientReceive, hflight]; rfl)
    refine ⟨_, last, run_step hstep hrun, ?_⟩
    have hturn := arrivals_clientReceive (d := ⟨client, packet.datagram⟩) hloop 0 client bufferSize
      (.client 0)
    rw [if_pos rfl, talkToServer_rr, ← hpacket, payload_received loop packet (by omega)] at hturn
    exact congrArg₂ (· ++ ·) hturn harrivals

private theorem exists_dataPackets {r : Request} {s : Sender} (hfits : r.Fits fopen)
    (hopen : fopen r.fromFileName = some s.file) (hseq : s.seq = 0)
    (hslots : ∀ j < blockCount r.bufferSize s.file,
      (s.window.getD j []).length = r.bufferSize.toNat) :
    ∃ packets : List DataPacket,
      packets.map DataPacket.datagram =
        (List.range (blockCount r.bufferSize s.file)).map (blockPacket r.bufferSize s) ∧
      packets.map (fun packet => packet.sequence.toNat) =
        List.range (blockCount r.bufferSize s.file) ∧
      ∀ packet ∈ packets,
        HoldsBlock r.bufferSize s.file packet.sequence.toNat packet.payload := by
  have : Inhabited DataPacket := ⟨⟨0, [], Nat.zero_le _⟩⟩
  have hblocks (j : Nat) (hj : j < blockCount r.bufferSize s.file) :=
    exists_blockPacket hfits hopen hseq hj (hslots j hj)
  choose! packet hnumber hblock hbytes using hblocks
  refine ⟨(List.range (blockCount r.bufferSize s.file)).map packet, ?_, ?_, ?_⟩
  · rw [List.map_map]
    exact List.map_congr_left fun j hj => hbytes j (List.mem_range.mp hj)
  · rw [List.map_map]
    exact (List.map_congr_left fun j hj => hnumber j (List.mem_range.mp hj)).trans
      (List.map_id _)
  · intro p hp
    obtain ⟨j, hj, rfl⟩ := List.mem_map.mp hp
    have hlt := List.mem_range.mp hj
    rw [hnumber j hlt]
    exact hblock j hlt

/-- What a duplicated request sets off: the parent forks a child for the first copy, the client
receives the answer of the child, and the second copy wakes the child up. -/
def duplicatedRequest (heap : Nat → Nat → UInt8) : List SessionAction :=
  [.toServer .duplicate 0, .server (.parentReceive 0 true 0 0 heap), .client 0,
    .server (.childReceive 0 0 0)]

/-- The child of the request, in front of its first turn. -/
def startChild (heap : Nat → Nat → UInt8) (r : Request) (file buf : List UInt8) : Sender where
  file := file
  seq := 0
  rrBuf := 0
  buf := buf
  window := (List.range r.windowSize.toNat).map fun i =>
    (List.range r.bufferSize.toNat).map (heap i)

private theorem parentReceive_request (heap : Nat → Nat → UInt8) {r : Request} {file : List UInt8}
    (hopen : fopen r.fromFileName = some file) {loop : ServerLoop} (hcount : loop.pidCount ≤ 10)
    (inFlight : List Datagram) :
    ∃ loop' buf, parentReceive fopen ⟨⟨0, r.packet⟩ :: inFlight, some loop, []⟩ loop 0
        ⟨0, r.packet⟩ true 0 0 heap =
      some ([.received .parent ⟨0, r.packet⟩, .childSent 0 (.response (sendData goodFile 9 0 9))],
        ⟨inFlight, some loop', [⟨0, r.bufferSize, some (startChild heap r file buf)⟩]⟩) := by
  let arrival : Arrival := ⟨r.packet, 0, true, 0, 0⟩
  have harrival : arrival.datagram = r.packet := rfl
  obtain ⟨hwindow, hbuffer, hfile, hfork⟩ := request_arrives (s := loop) r.length_fromFileName
    harrival r.fromFileName_zero r.windowSize_lt
  have hforks : Forks loop arrival := ⟨flag_request r.length_fromFileName harrival, hcount, rfl⟩
  have hsize : ¬2 ^ 31 ≤ r.windowSize.toNat := by
    have hlt := r.windowSize_lt
    omega
  have hstart : startSend fopen heap (processClient loop arrival).2.setupInfo
      (processClient loop arrival).2.buf 0 =
        some (.response (sendData goodFile 9 0 9), ⟨0, r.bufferSize,
          some (startChild heap r file (processClient loop arrival).2.buf)⟩) := by
    simp only [startSend, hwindow, hbuffer, hfile, hopen, if_neg hsize]
    rfl
  refine ⟨(processClient loop arrival).2, (processClient loop arrival).2.buf, ?_⟩
  simp only [parentReceive]
  rw [if_pos hforks, hfork hforks]
  simp only [arrival] at hstart ⊢
  rw [hstart]
  rfl

/-- Behind a duplicated request the client has received nothing, and all blocks are on their way. -/
private theorem run_duplicatedRequest (heap : Nat → Nat → UInt8) {r : Request} {file : List UInt8}
    (hopen : fopen r.fromFileName = some file) (hsize : 1 ≤ r.bufferSize.toNat) {loop : ServerLoop}
    (hcount : loop.pidCount ≤ 10) (rcopy : RcopyLoop) :
    ∃ buf moments rcopy' s, run (sessionStep fopen) (startSession loop [⟨r, rcopy⟩])
        (duplicatedRequest heap) = some (moments, s) ∧
      moments.flatMap (arrivals 0 r.bufferSize) = [] ∧ s.clients = [rcopy'] ∧
      s.toClients = (List.range (blockCount r.bufferSize file)).map fun j =>
        ⟨0, blockPacket r.bufferSize (startChild heap r file buf) j⟩ := by
  obtain ⟨loop', buf, hreceive⟩ := parentReceive_request heap hopen hcount [⟨0, r.packet⟩]
  let answer : Datagram := ⟨0, sendData goodFile 9 0 9⟩
  have hanswer : answer.IsResponse := isResponse_sendData 0 goodFile (by decide)
  let rcopy' := (talkToServer rcopy answer.bytes).2
  let child : Child := ⟨0, r.bufferSize, some (startChild heap r file buf)⟩
  let asked : Session :=
    ⟨⟨[⟨0, r.packet⟩, ⟨0, r.packet⟩], some loop, []⟩, [rcopy], []⟩
  let forked : Session := ⟨⟨[⟨0, r.packet⟩], some loop', [child]⟩, [rcopy], [answer]⟩
  let waiting : Session := ⟨⟨[⟨0, r.packet⟩], some loop', [child]⟩, [rcopy'], []⟩
  have hparent : sessionStep fopen asked (.server (.parentReceive 0 true 0 0 heap)) =
      some (List.map .server [.received .parent ⟨0, r.packet⟩,
        .childSent 0 (.response (sendData goodFile 9 0 9))], forked) := by
    simp only [sessionStep, serverStep, asked, List.getElem?_cons_zero]
    rw [hreceive]
    rfl
  have hnext : (clientReceive forked 0 answer rcopy).2 = waiting := by
    simp only [clientReceive, replies_response rcopy hanswer]
    rfl
  have hclient : sessionStep fopen forked (.client 0) =
      some ((clientReceive forked 0 answer rcopy).1, waiting) := by
    rw [← hnext]
    rfl
  obtain ⟨hsent, -⟩ := wakeUp_spec hsize (startChild heap r file buf) ⟨0, r.packet⟩
  have hchild : ∃ events s, sessionStep fopen waiting (.server (.childReceive 0 0 0)) =
        some (List.map .server events, s) ∧ s.clients = [rcopy'] ∧
      s.toClients = (List.range (blockCount r.bufferSize file)).map fun j =>
        ⟨0, blockPacket r.bufferSize (startChild heap r file buf) j⟩ := by
    refine ⟨_, _, rfl, rfl, ?_⟩
    show List.filterMap Event.datagram (List.map (Event.childSent 0)
      (wakeUp r.bufferSize (startChild heap r file buf) ⟨0, r.packet⟩).1) = _
    rw [hsent, List.map_cons, List.filterMap_cons_none rfl, List.map_map, List.filterMap_map,
      ← List.filterMap_eq_map]
    rfl
  obtain ⟨events, s, hchild, hclients, hflight⟩ := hchild
  have hasked : sessionStep fopen (startSession loop [⟨r, rcopy⟩]) (.toServer .duplicate 0) =
      some ([], asked) := rfl
  refine ⟨buf, _, rcopy', s, run_step hasked (run_step hparent (run_step hclient
    (run_step hchild rfl))), ?_, hclients, hflight⟩
  have hrcopy : forked.clients[answer.client]? = some rcopy := rfl
  have hnone := arrivals_response hrcopy hanswer 0 0 r.bufferSize (.client 0)
  rw [hnext] at hnone
  simp only [List.flatMap_cons, List.flatMap_nil, arrivals_server, List.append_nil, hnone]
  rfl

/-- A request that comes twice is what it takes: the client then has the whole file, the blocks in
order. -/
theorem duplicated_request_transfers (heap : Nat → Nat → UInt8) (loop : ServerLoop) (start : Start)
    {file : List UInt8} (hopen : fopen start.request.fromFileName = some file)
    (hfits : start.request.Fits fopen) (hcount : loop.pidCount ≤ 10) :
    ∃ moments last, run (sessionStep fopen) (startSession loop [start])
        (duplicatedRequest heap ++
          List.replicate (blockCount start.request.bufferSize file) (.client 0)) =
        some (moments, last) ∧
      let parts := moments.flatMap (arrivals 0 start.request.bufferSize)
      parts.map Prod.fst = List.range (blockCount start.request.bufferSize file) ∧
        ∀ part ∈ parts, HoldsBlock start.request.bufferSize file part.1 part.2 := by
  obtain ⟨buf, before, rcopy, s, hbefore, hnone, hclients, hflight⟩ :=
    run_duplicatedRequest heap hopen hfits.bufferSize.1 hcount start.loop
  obtain ⟨packets, hpackets, hnumbers, hblocks⟩ :=
    exists_dataPackets (s := startChild heap start.request file buf) hfits hopen rfl
      fun j hj => length_slot heap start.request.bufferSize
        (Nat.lt_of_lt_of_le hj (hfits.windowSize file hopen))
  have hcountPackets : packets.length = blockCount start.request.bufferSize file := by
    have hlength := congrArg List.length hnumbers
    rwa [List.length_map, List.length_range] at hlength
  obtain ⟨moments, last, hrun, harrivals⟩ := exists_run_client fopen hfits.bufferSize.2 packets
    (fun packet hmem => (hblocks packet hmem).length) s
    (show s.clients[0]? = some rcopy by rw [hclients]; rfl) (by
      have hsent := congrArg (List.map (Datagram.mk 0)) hpackets
      rw [List.map_map, List.map_map] at hsent
      rw [hflight]
      exact hsent.symm)
  rw [hcountPackets] at hrun
  refine ⟨_, last, run_append hbefore hrun, ?_⟩
  intro parts
  have hparts : parts = packets.map fun packet => (packet.sequence.toNat, packet.payload) := by
    rw [show parts = _ from List.flatMap_append, hnone, harrivals, List.nil_append]
  rw [hparts]
  refine ⟨?_, List.forall_mem_map.mpr hblocks⟩
  rw [List.map_map]
  exact hnumbers

end Transfer

theorem duplicated_request_transfers_small :
    ∃ moments last, run (sessionStep oneFile) (startSession serverStart [smallStart])
        (duplicatedRequest zeroHeap ++ [.client 0, .client 0]) = some (moments, last) ∧
      (moments.flatMap (arrivals 0 2)).map Prod.fst = [0, 1] := by
  have hopen : oneFile smallStart.request.fromFileName = some [120, 121, 122] := rfl
  obtain ⟨moments, last, hrun, hnumbers, -⟩ := duplicated_request_transfers zeroHeap
    serverStart smallStart hopen smallStart_fits (by decide)
  exact ⟨moments, last, hrun, hnumbers⟩

end Cpe464.Transfer
