import Cpe464.Framework.Runs
import Cpe464.Transfer.ServerLoop

/-!
# Processes at one socket

The children of the server inherit the socket their parent goes on receiving from. A datagram goes
to whichever of them happens to take it: the parent passes acknowledgements over, and a child takes
any datagram, of any client, for a reason to send its file.
-/

namespace Cpe464.Transfer

open Runs

/-- A datagram in flight and the client that sent it. -/
structure Datagram where
  client : Nat
  bytes : List UInt8
  deriving DecidableEq

def Datagram.IsRR (d : Datagram) : Prop := 7 ≤ d.bytes.length ∧ byteAt d.bytes 6 = 5

instance (d : Datagram) : Decidable d.IsRR := inferInstanceAs (Decidable (_ ∧ _))

/-- A child in the outer loop of `handleSend`, for the client of its connect request. There is no
sender when the file did not open. -/
structure Child where
  client : Nat
  bufferSize : UInt16
  sender : Option Sender

/-- What `handleSend` does in front of its outer loop: the response, and the state of the loop. -/
def startSend (fopen : List UInt8 → Option (List UInt8)) (heap : Nat → Nat → UInt8)
    (setupInfo : SetupInfo) (buf : List UInt8) (client : Nat) : Option (SendEvent × Child) :=
  if 2 ^ 31 ≤ setupInfo.windowSize.toNat then none
  else
    match fopen (requestedFile buf) with
    | some file =>
      let window := (List.range setupInfo.windowSize.toNat).map fun i =>
        (List.range setupInfo.bufferSize.toNat).map (heap i)
      some (.response (sendData goodFile 9 0 9),
        ⟨client, setupInfo.bufferSize, some { file, seq := 0, rrBuf := 0, buf, window }⟩)
    | none => some (.response (sendData badFile 8 0 9), ⟨client, setupInfo.bufferSize, none⟩)

/-- A turn of the outer loop of a child. Without a file it crashes. -/
def Child.receive (c : Child) (input : WakeUp) : List SendEvent × Option Child :=
  match c.sender with
  | some s =>
      ((wakeUp c.bufferSize s input).1,
        some { c with sender := some (wakeUp c.bufferSize s input).2 })
  | none => ([.readUnsetHeader, .readNullFile], none)

/-- The turns of a child, until it crashes. -/
def Child.turns : Child → List WakeUp → List (List SendEvent)
  | _, [] => []
  | c, input :: inputs =>
      match c.receive input with
      | (events, some c') => events :: c'.turns inputs
      | (events, none) => [events]

private theorem Child.turns_sender (client : Nat) (bufferSize : UInt16) (s : Sender)
    (inputs : List WakeUp) :
    (⟨client, bufferSize, some s⟩ : Child).turns inputs = sendLoop bufferSize s inputs := by
  induction inputs generalizing s with
  | nil => rfl
  | cons input inputs ih =>
    rw [sendLoop, ← ih]
    rfl

/-- A child runs `handleSend`, one datagram after the other. -/
theorem handleSend_eq_startSend (fopen : List UInt8 → Option (List UInt8))
    (heap : Nat → Nat → UInt8) (setupInfo : SetupInfo) (buf : List UInt8) (client : Nat)
    (inputs : List WakeUp) :
    handleSend fopen heap setupInfo buf inputs =
      (startSend fopen heap setupInfo buf client).map fun started =>
        ⟨started.1, started.2.turns inputs⟩ := by
  unfold handleSend startSend
  split_ifs with hsize
  · rfl
  · cases fopen (requestedFile buf) with
    | some file => simp only [Option.map_some, Child.turns_sender]
    | none => cases inputs <;> rfl

/-- The server: the datagrams in flight to its socket, the loop of the parent while it runs, and the
children that run. -/
structure Server where
  inFlight : List Datagram
  parent : Option ServerLoop
  children : List Child

inductive Receiver
  | parent
  | child (client : Nat)
  deriving DecidableEq

inductive Event
  | received (receiver : Receiver) (datagram : Datagram)
  | parentSent (client : Nat) (packet : List UInt8)
  | childSent (client : Nat) (event : SendEvent)
  deriving DecidableEq

/-- One step of the clients or of a process of the server. The scheduler picks the process and the
datagram it receives; a child exits when its `pollCall` times out. `heap` is what the child of a
fork finds in the memory it allocates. -/
inductive Action
  | send (datagram : Datagram)
  | parentReceive (index : Nat) (forked : Bool) (windowOverrun bufferOverrun : Nat)
      (heap : Nat → Nat → UInt8)
  | childReceive (child index : Nat) (flag : UInt8)
  | childExit (child : Nat)

def Action.IsReceive : Action → Prop
  | .parentReceive _ _ _ _ _ => True
  | .childReceive _ _ _ => True
  | _ => False

/-- What the parent sends itself in a turn of its loop. -/
def parentSends (events : List ServerEvent) : List Event :=
  events.filterMap fun
    | .sendto client packet => some (.parentSent client packet)
    | .fork _ _ _ _ => none

section Steps

variable (fopen : List UInt8 → Option (List UInt8))

/-- The parent takes a datagram out of flight. If it forks, the child begins with what the parent
has in its buffer. -/
def parentReceive (s : Server) (loop : ServerLoop) (index : Nat) (d : Datagram) (forked : Bool)
    (windowOverrun bufferOverrun : Nat) (heap : Nat → Nat → UInt8) :
    Option (List Event × Server) :=
  let arrival : Arrival := ⟨d.bytes, d.client, forked, windowOverrun, bufferOverrun⟩
  let turn := processClient loop arrival
  let s : Server := { s with inFlight := s.inFlight.eraseIdx index, parent := some turn.2 }
  let output := .received .parent d :: parentSends turn.1
  if Forks loop arrival then
    match startSend fopen heap turn.2.setupInfo turn.2.buf d.client with
    | none => none
    | some (response, child) =>
        some (output ++ [.childSent d.client response],
          { s with children := s.children ++ [child] })
  else some (output, s)

/-- A child takes a datagram out of flight. When it crashes, the parent is told and exits. -/
def childReceive (s : Server) (child : Nat) (c : Child) (index : Nat) (d : Datagram)
    (flag : UInt8) : List Event × Server :=
  let turn := c.receive ⟨flag, d.bytes⟩
  let s : Server := { s with inFlight := s.inFlight.eraseIdx index }
  (.received (.child c.client) d :: turn.1.map (.childSent c.client),
    match turn.2 with
    | some c' => { s with children := s.children.set child c' }
    | none => { s with parent := none, children := s.children.eraseIdx child })

/-- The handler of SIGCHLD, `handleZombies`, ends the parent. There is no next state when the action
is not possible or when the window of a request overflows the counter of a child. -/
def serverStep (s : Server) : Action → Option (List Event × Server)
  | .send datagram => some ([], { s with inFlight := s.inFlight ++ [datagram] })
  | .parentReceive index forked windowOverrun bufferOverrun heap =>
      match s.parent, s.inFlight[index]? with
      | some loop, some d =>
          parentReceive fopen s loop index d forked windowOverrun bufferOverrun heap
      | _, _ => none
  | .childReceive child index flag =>
      match s.children[child]?, s.inFlight[index]? with
      | some c, some d => some (childReceive s child c index d flag)
      | _, _ => none
  | .childExit child =>
      if child < s.children.length then
        some ([], { s with parent := none, children := s.children.eraseIdx child })
      else none

end Steps

def zeroHeap : Nat → Nat → UInt8 := fun _ _ => 0

def initialServer (loop : ServerLoop) : Server := ⟨[], some loop, []⟩

/-! ## What drives a transfer -/

/-- An RR packet is received by a child that serves its sender, and a child sends data in reaction
to a datagram of the client it serves. -/
structure OwnDriven (output : List Event) : Prop where
  consumed : ∀ receiver d, .received receiver d ∈ output → d.IsRR → receiver = .child d.client
  triggered : ∀ client sequence slot packet,
    .childSent client (.data sequence slot packet) ∈ output →
    ∃ receiver d, .received receiver d ∈ output ∧ d.client = client

/-- The child sends data as soon as it receives anything. -/
def Child.WillSend (c : Child) : Prop := ∃ s ∈ c.sender, s.file ≠ [] ∧ c.bufferSize ≠ 0

/-- Whichever process takes a datagram in flight, it is the right one: the parent has exited and
every child serves the sender if it is an RR packet, and a child that is about to send data serves
the sender. -/
structure OwnReceivers (s : Server) : Prop where
  parent : ∀ d ∈ s.inFlight, d.IsRR → s.parent = none
  children : ∀ d ∈ s.inFlight, ∀ c ∈ s.children, d.IsRR ∨ c.WillSend → c.client = d.client

instance (c : Child) : Decidable c.WillSend :=
  match h : c.sender with
  | none => isFalse (by rintro ⟨s, hs, -⟩; rw [h] at hs; cases hs)
  | some s => decidable_of_iff (s.file ≠ [] ∧ c.bufferSize ≠ 0) (by simp [Child.WillSend, h])

instance (s : Server) : Decidable (OwnReceivers s) :=
  decidable_of_iff ((∀ d ∈ s.inFlight, d.IsRR → s.parent = none) ∧
    ∀ d ∈ s.inFlight, ∀ c ∈ s.children, d.IsRR ∨ c.WillSend → c.client = d.client)
    ⟨fun h => ⟨h.1, h.2⟩, fun h => ⟨h.parent, h.children⟩⟩

private theorem ownDriven_nil : OwnDriven [] := ⟨by simp, by simp⟩

private theorem exists_data_wakeUp_iff (bufferSize : UInt16) (s : Sender) (input : WakeUp) :
    (∃ sequence slot packet, .data sequence slot packet ∈ (wakeUp bufferSize s input).1) ↔
      s.file ≠ [] ∧ bufferSize ≠ 0 := by
  have hblock : s.file.take bufferSize.toNat = [] ↔ bufferSize = 0 ∨ s.file = [] := by
    rw [List.take_eq_nil_iff, ← UInt16.toNat_inj]
    rfl
  cases hfile : s.file with
  | nil => simp [wakeUp, sendBlocks, hfile]
  | cons b rest =>
    rw [hfile] at hblock
    by_cases hzero : bufferSize = 0
    · simp [wakeUp, sendBlocks, hfile, hzero]
    · have hne : ((b :: rest).take bufferSize.toNat).isEmpty = false := by
        rw [List.isEmpty_eq_false_iff]
        intro h
        rcases hblock.mp h with h | h
        · exact hzero h
        · cases h
      simp only [wakeUp, hfile, List.length_cons, sendBlocks, hne, Bool.false_eq_true, if_false]
      refine iff_of_true ?_ ⟨List.cons_ne_nil _ _, hzero⟩
      exact ⟨_, _, _, List.mem_cons_of_mem _ List.mem_cons_self⟩

private theorem exists_data_receive_iff (c : Child) (input : WakeUp) :
    (∃ sequence slot packet, .data sequence slot packet ∈ (c.receive input).1) ↔ c.WillSend := by
  cases hsender : c.sender with
  | none => simp [Child.receive, Child.WillSend, hsender]
  | some s =>
    simp only [Child.receive, hsender, exists_data_wakeUp_iff, Child.WillSend, Option.mem_def,
      Option.some.injEq, exists_eq_left']

section Driven

variable {fopen : List UInt8 → Option (List UInt8)} {s : Server}

private theorem response_startSend {heap : Nat → Nat → UInt8} {setupInfo : SetupInfo}
    {buf : List UInt8} {client : Nat} {response : SendEvent} {child : Child}
    (h : startSend fopen heap setupInfo buf client = some (response, child)) :
    ∃ packet, response = .response packet := by
  unfold startSend at h
  split_ifs at h
  split at h <;>
    · cases h
      exact ⟨_, rfl⟩

private theorem mem_parentReceive {loop : ServerLoop} {index : Nat} {d : Datagram} {forked : Bool}
    {windowOverrun bufferOverrun : Nat} {heap : Nat → Nat → UInt8} {output : List Event}
    {s' : Server}
    (h : parentReceive fopen s loop index d forked windowOverrun bufferOverrun heap =
      some (output, s')) {event : Event} (hevent : event ∈ output) :
    event = .received .parent d ∨ (∃ client packet, event = .parentSent client packet) ∨
      ∃ client packet, event = .childSent client (.response packet) := by
  have hown {events : List ServerEvent} (hmem : event ∈ parentSends events) :
      ∃ client packet, event = .parentSent client packet := by
    obtain ⟨sent, -, hsent⟩ := List.mem_filterMap.mp hmem
    cases sent with
    | sendto client packet =>
      cases hsent
      exact ⟨client, packet, rfl⟩
    | fork client fileName windowSize bufferSize => cases hsent
  simp only [parentReceive] at h
  by_cases hforks : Forks loop ⟨d.bytes, d.client, forked, windowOverrun, bufferOverrun⟩
  · rw [if_pos hforks] at h
    split at h
    · cases h
    · rename_i response child hstart
      cases h
      rw [List.cons_append, List.mem_cons, List.mem_append, List.mem_singleton] at hevent
      rcases hevent with hevent | hevent | hevent
      · exact .inl hevent
      · exact .inr (.inl (hown hevent))
      · obtain ⟨packet, rfl⟩ := response_startSend hstart
        exact .inr (.inr ⟨_, packet, hevent⟩)
  · rw [if_neg hforks] at h
    cases h
    rcases List.mem_cons.mp hevent with hevent | hevent
    · exact .inl hevent
    · exact .inr (.inl (hown hevent))

private theorem mem_childReceive {child index : Nat} {c : Child} {d : Datagram} {flag : UInt8}
    {event : Event} : event ∈ (childReceive s child c index d flag).1 ↔
      event = .received (.child c.client) d ∨
        ∃ sent ∈ (c.receive ⟨flag, d.bytes⟩).1, .childSent c.client sent = event := by
  rw [childReceive, List.mem_cons, List.mem_map]

private theorem ownDriven_step {action : Action} (hs : action.IsReceive → OwnReceivers s)
    {output : List Event} {s' : Server}
    (h : serverStep fopen s action = some (output, s')) : OwnDriven output := by
  cases action with
  | send datagram =>
    cases h
    exact ownDriven_nil
  | childExit child =>
    rw [serverStep] at h
    split_ifs at h
    cases h
    exact ownDriven_nil
  | parentReceive index forked windowOverrun bufferOverrun heap =>
    rw [serverStep] at h
    split at h
    · rename_i loop d hparent hd
      constructor
      · intro receiver d' hreceived hrr
        rcases mem_parentReceive h hreceived with heq | ⟨_, _, heq⟩ | ⟨_, _, heq⟩
        · cases heq
          have hexited := (hs trivial).parent d (List.mem_of_getElem? hd) hrr
          rw [hparent] at hexited
          cases hexited
        · cases heq
        · cases heq
      · intro client sequence slot packet hdata
        rcases mem_parentReceive h hdata with heq | ⟨_, _, heq⟩ | ⟨_, _, heq⟩ <;> cases heq
    · cases h
  | childReceive child index flag =>
    rw [serverStep] at h
    split at h
    · rename_i c d hc hd
      rw [Option.some.injEq] at h
      have houtput : output = (childReceive s child c index d flag).1 := by rw [h]
      have howner := (hs trivial).children d (List.mem_of_getElem? hd) c (List.mem_of_getElem? hc)
      rw [houtput]
      constructor
      · intro receiver d' hreceived hrr
        rcases mem_childReceive.mp hreceived with heq | ⟨_, _, heq⟩
        · cases heq
          rw [howner (.inl hrr)]
        · cases heq
      · intro client sequence slot packet hdata
        rcases mem_childReceive.mp hdata with heq | ⟨sent, hsent, heq⟩
        · cases heq
        · cases heq
          have hwill := (exists_data_receive_iff c _).mp ⟨sequence, slot, packet, hsent⟩
          exact ⟨_, d, mem_childReceive.mpr (.inl rfl), (howner (.inr hwill)).symm⟩
    · cases h

/-- The scheduler can pick any process and any datagram, so that a wrong receiver is enough. -/
private theorem ownReceivers_of_ownDriven (h : ∀ action output s',
    serverStep fopen s action = some (output, s') → OwnDriven output) : OwnReceivers s := by
  constructor
  · intro d hd hrr
    by_contra hrunning
    obtain ⟨loop, hparent⟩ := Option.ne_none_iff_exists'.mp hrunning
    obtain ⟨index, hindex⟩ := List.mem_iff_getElem?.mp hd
    have hidle : ¬Forks loop ⟨d.bytes, d.client, false, 0, 0⟩ := fun hforks => by
      cases hforks.2.2
    have hstep : ∃ output s', serverStep fopen s (.parentReceive index false 0 0 zeroHeap) =
        some (.received .parent d :: output, s') := by
      rw [serverStep, hparent, hindex]
      simp only [parentReceive, if_neg hidle]
      exact ⟨_, _, rfl⟩
    obtain ⟨output, s', hstep⟩ := hstep
    cases (h _ _ _ hstep).consumed .parent d List.mem_cons_self hrr
  · intro d hd c hc hreason
    obtain ⟨child, hchild⟩ := List.mem_iff_getElem?.mp hc
    obtain ⟨index, hindex⟩ := List.mem_iff_getElem?.mp hd
    have hstep := h (.childReceive child index 0) _ _ (by rw [serverStep, hchild, hindex])
    rcases hreason with hrr | hwill
    · exact Receiver.child.inj (hstep.consumed _ d (mem_childReceive.mpr (.inl rfl)) hrr)
    · obtain ⟨sequence, slot, packet, hdata⟩ := (exists_data_receive_iff c ⟨0, d.bytes⟩).mpr hwill
      obtain ⟨receiver, d', hreceived, hclient⟩ := hstep.triggered c.client sequence slot packet
        (mem_childReceive.mpr (.inr ⟨_, hdata, rfl⟩))
      rcases mem_childReceive.mp hreceived with heq | ⟨_, _, heq⟩
      · cases heq
        exact hclient.symm
      · cases heq

end Driven

/-- In every run in which each datagram is received in a state where every receiver is the right
one, every transfer is driven by its own client. In any other state some receiver is the wrong
one. -/
theorem transfers_ownDriven (fopen : List UInt8 → Option (List UInt8)) :
    (∀ (loop : ServerLoop) (actions : List Action)
        (moments : List (Moment Server Action (List Event))) (last : Server),
      run (serverStep fopen) (initialServer loop) actions = some (moments, last) →
      (∀ m ∈ moments, m.action.IsReceive → OwnReceivers m.before) →
      ∀ m ∈ moments, OwnDriven m.output) ∧
    ∀ s, OwnReceivers s ↔ ∀ action output s',
      serverStep fopen s action = some (output, s') → OwnDriven output := by
  constructor
  · intro loop actions moments last hrun hreceivers
    obtain ⟨-, hmoments⟩ := run_invariant (fun _ => True)
      (fun s action => action.IsReceive → OwnReceivers s) (fun m => OwnDriven m.output)
      (fun _ _ _ _ h _ hs => ⟨trivial, ownDriven_step hs h⟩) trivial hrun hreceivers
    intro m hm
    exact (hmoments m hm).2.2
  · intro s
    constructor
    · intro hs action output s' h
      exact ownDriven_step (fun _ => hs) h
    · exact ownReceivers_of_ownDriven

/-- A request for the file `f` in blocks of two bytes. -/
def connectRequest : List UInt8 := sendData [102, 0, 0, 0, 1, 0, 2] 7 0 8

def acknowledgement : List UInt8 := sendData [0, 0, 0, 0] 4 0 5

/-- There is one file, `f`. -/
def oneFile (name : List UInt8) : Option (List UInt8) :=
  if name = [102] then some [120, 121, 122] else none

instance : (action : Action) → Decidable action.IsReceive
  | .send _ => inferInstanceAs (Decidable False)
  | .parentReceive _ _ _ _ _ => inferInstanceAs (Decidable True)
  | .childReceive _ _ _ => inferInstanceAs (Decidable True)
  | .childExit _ => inferInstanceAs (Decidable False)

/-- A client connects twice; its first child exits, and with it the parent. Only the second child is
left to take the acknowledgement. -/
def lonelyChild : List Action :=
  [.send ⟨1, connectRequest⟩, .parentReceive 0 true 0 0 zeroHeap, .send ⟨1, connectRequest⟩,
    .parentReceive 0 true 0 0 zeroHeap, .childExit 0, .send ⟨1, acknowledgement⟩,
    .childReceive 0 0 0]

theorem transfers_ownDriven_lonelyChild :
    ∃ moments last, run (serverStep oneFile) (initialServer serverStart) lonelyChild =
      some (moments, last) ∧ ∀ m ∈ moments, OwnDriven m.output := by
  obtain ⟨moments, last, hrun, hreceivers⟩ := exists_run_of (serverStep oneFile)
    (initialServer serverStart) lonelyChild
    (fun moments => ∀ m ∈ moments, m.action.IsReceive → OwnReceivers m.before) (by decide +kernel)
  exact ⟨moments, last, hrun, (transfers_ownDriven oneFile).1 serverStart lonelyChild
    moments last hrun hreceivers⟩

/-- The child of the first client takes the request of the second and sends its file; the parent
takes the acknowledgement. -/
def strayDatagrams : List Action :=
  [.send ⟨1, connectRequest⟩, .parentReceive 0 true 0 0 zeroHeap, .send ⟨2, connectRequest⟩,
    .childReceive 0 0 0, .send ⟨1, acknowledgement⟩, .parentReceive 0 true 0 0 zeroHeap]

theorem transfers_not_ownDriven :
    ∃ moments last, run (serverStep oneFile) (initialServer serverStart)
        strayDatagrams = some (moments, last) ∧
      (∃ m ∈ moments, .received (.child 1) ⟨2, connectRequest⟩ ∈ m.output ∧
        .childSent 1 (.data 0 0 (sendData [120, 121] 2 0 16)) ∈ m.output) ∧
      ¬∀ m ∈ moments, OwnDriven m.output := by
  obtain ⟨moments, last, hrun, hsent, m, hm, hreceived, hrr⟩ := exists_run_of
    (serverStep oneFile) (initialServer serverStart) strayDatagrams
    (fun moments =>
      (∃ m ∈ moments, Event.received (.child 1) ⟨2, connectRequest⟩ ∈ m.output ∧
        Event.childSent 1 (.data 0 0 (sendData [120, 121] 2 0 16)) ∈ m.output) ∧
      ∃ m ∈ moments, Event.received .parent ⟨1, acknowledgement⟩ ∈ m.output ∧
        Datagram.IsRR ⟨1, acknowledgement⟩)
    (by decide +kernel)
  refine ⟨moments, last, hrun, hsent, ?_⟩
  intro hdriven
  cases (hdriven m hm).consumed _ _ hreceived hrr

end Cpe464.Transfer
