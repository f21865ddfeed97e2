import Cpe464.Transfer.ReceiveHook

/-!
# The send hook

`sendtoErr` hands a copy of every packet to the events of the packet manager before it goes out. An
event leaves the copy alone, changes it or drops it. The constant events see every packet that none
before them drops; of the others one is drawn when the error rate says so. What `drand48` decides is
given to the model with each packet.
-/

namespace Cpe464.Transfer

/-- The result of an event: 0, 1 and 2 in the source. -/
inductive Outcome
  | unchanged
  | changed
  | dropped
  deriving DecidableEq

/-- The classes behind `IMsgEvent`, with their members. -/
inductive MsgEvent
  | errorDrop (dropAll : Bool) (dropList : List UInt32)
  | errorFlipBits
  | infoSeqNo (history : List UInt32) (count : List (UInt32 × UInt32))
  deriving DecidableEq

/-- `new errorDrop()`, which drops everything until it is given a list. -/
def newErrorDrop : MsgEvent := .errorDrop true []

def newInfoSeqNo : MsgEvent := .infoSeqNo [] []

/-- `++m_Count[seqNo]`: a number that is not in the map yet comes in with zero. -/
def increment (seqNo : UInt32) : List (UInt32 × UInt32) → List (UInt32 × UInt32)
  | [] => [(seqNo, 1)]
  | (key, count) :: rest =>
      if key = seqNo then (key, count + 1) :: rest else (key, count) :: increment seqNo rest

/-- `ntohl` of the first four bytes. -/
def seqNo (buf : List UInt8) : UInt32 := UInt32.ofNat (ntohl (ofLE (slice buf 0 4)))

/-- A byte is complemented. -/
def flipByte (buf : List UInt8) (byteToFlip : Nat) : List UInt8 :=
  buf.set byteToFlip (byteAt buf byteToFlip ^^^ 255)

theorem byteAt_flipByte (buf : List UInt8) (byteToFlip : Nat) {i : Nat} (hi : i < buf.length) :
    byteAt (flipByte buf byteToFlip) i =
      if byteToFlip = i then byteAt buf i ^^^ 255 else byteAt buf i := by
  by_cases hsame : byteToFlip = i
  · subst hsame
    rw [if_pos rfl, flipByte, byteAt_set_self _ _ _ hi]
  · rw [if_neg hsame, flipByte, byteAt, List.getD_eq_getElem?_getD, List.getElem?_set_ne hsame]
    rfl

/-- `run` of an event: its result, the buffer and the event afterwards. -/
structure Ran where
  outcome : Outcome
  buf : List UInt8
  event : MsgEvent
  deriving DecidableEq

def MsgEvent.run (event : MsgEvent) (buf : List UInt8) (msgNo : UInt32) (byteToFlip : Nat) : Ran :=
  match event with
  | .errorDrop dropAll dropList =>
      { outcome := if dropAll = true ∨ msgNo ∈ dropList then .dropped else .unchanged
        buf
        event }
  | .errorFlipBits => { outcome := .changed, buf := flipByte buf byteToFlip, event }
  | .infoSeqNo history count =>
      { outcome := .unchanged
        buf
        event := .infoSeqNo (history ++ [seqNo buf]) (increment (seqNo buf) count) }

structure RanAll where
  outcome : Outcome
  buf : List UInt8
  events : List MsgEvent
  deriving DecidableEq

/-- `runMsgEvents`; the event at an index draws its own byte. -/
def runMsgEvents (msgNo : UInt32) (draw : Nat → Nat) :
    List MsgEvent → Nat → List UInt8 → Bool → RanAll
  | [], _, buf, hasChanged => ⟨if hasChanged then .changed else .unchanged, buf, []⟩
  | event :: events, i, buf, hasChanged =>
      let ran := event.run buf msgNo (draw i)
      if ran.outcome = .dropped then ⟨.dropped, ran.buf, ran.event :: events⟩
      else
        let rest := runMsgEvents msgNo draw events (i + 1) ran.buf
          (hasChanged || ran.outcome = .changed)
        { rest with events := ran.event :: rest.events }

/-- What `drand48` decides about a packet: the byte for every constant event, whether the draw is at
most the error rate, and which random event runs on which byte. -/
structure Draws where
  constant : Nat → Nat
  fires : Bool
  randCase : Nat
  byteToFlip : Nat

structure PacketManager where
  errorCaseConstant : List MsgEvent
  errorCaseChance : List MsgEvent
  msgNo : UInt32
  deriving DecidableEq

def newPacketManager : PacketManager := ⟨[], [], 0⟩

/-- The draws are fractions below one of the length and of the number of random events. -/
structure Draws.Within (draws : Draws) (manager : PacketManager) (len : Nat) : Prop where
  constant : ∀ i < manager.errorCaseConstant.length, draws.constant i < len
  randCase : manager.errorCaseChance ≠ [] → draws.randCase < manager.errorCaseChance.length
  byteToFlip : draws.byteToFlip < len

instance (draws : Draws) (manager : PacketManager) (len : Nat) :
    Decidable (draws.Within manager len) :=
  decidable_of_iff ((∀ i < manager.errorCaseConstant.length, draws.constant i < len) ∧
      (manager.errorCaseChance ≠ [] → draws.randCase < manager.errorCaseChance.length) ∧
      draws.byteToFlip < len)
    ⟨fun ⟨hconstant, hrandCase, hbyte⟩ => ⟨hconstant, hrandCase, hbyte⟩,
      fun ⟨hconstant, hrandCase, hbyte⟩ => ⟨hconstant, hrandCase, hbyte⟩⟩

structure Handled where
  outcome : Outcome
  buf : List UInt8
  manager : PacketManager
  deriving DecidableEq

/-- `processEvents`; nothing if the index of the random event is outside of the list. -/
def processEvents (manager : PacketManager) (buf : List UInt8) (draws : Draws) : Option Handled :=
  let constant := runMsgEvents manager.msgNo draws.constant manager.errorCaseConstant 0 buf false
  let manager := { manager with errorCaseConstant := constant.events }
  if manager.errorCaseChance ≠ [] ∧ draws.fires = true then
    manager.errorCaseChance[draws.randCase]?.map fun event =>
      let ran := event.run constant.buf manager.msgNo draws.byteToFlip
      { outcome := if constant.outcome = .dropped then .dropped else ran.outcome
        buf := ran.buf
        manager := { manager with
          errorCaseChance := manager.errorCaseChance.set draws.randCase ran.event } }
  else some ⟨constant.outcome, constant.buf, manager⟩

/-- What a call of `sendto_Err` does: the datagram that `sendto` is given, and the result. -/
structure Sent where
  datagram : Option (List UInt8)
  ret : Nat
  manager : PacketManager
  deriving DecidableEq

/-- `sendto_Err`, when `sendto` takes the whole packet. It exits on a packet without bytes. -/
def sendtoErr (manager : PacketManager) (buf : List UInt8) (draws : Draws) : Option Sent :=
  if buf = [] then none
  else
    (processEvents { manager with msgNo := manager.msgNo + 1 } buf draws).map fun handled =>
      { datagram := if handled.outcome = .dropped then none else some handled.buf
        ret := buf.length
        manager := handled.manager }

/-! ## Settings -/

/-- The lists of the two environment variables, if they are set. -/
structure Settings where
  errDrop : Option (List Int)
  errFlip : Option (List Int)
  deriving DecidableEq

/-- `parserLong2Uint32`: negative numbers are left out. -/
def parserLong2Uint32 (lLong : List Int) : List UInt32 :=
  (lLong.filter (0 ≤ ·)).map fun v => UInt32.ofNat v.toNat

def addMsgEventStandard (manager : PacketManager) (event : MsgEvent) : PacketManager :=
  { manager with errorCaseConstant := manager.errorCaseConstant ++ [event] }

def addMsgEventRandom (manager : PacketManager) (event : MsgEvent) : PacketManager :=
  { manager with errorCaseChance := manager.errorCaseChance ++ [event] }

def loadEnvDataErrDrop (settings : Settings) (manager : PacketManager) : PacketManager :=
  match settings.errDrop with
  | none => manager
  | some lLong =>
      let lUint32 := parserLong2Uint32 lLong
      if lUint32 = [] then addMsgEventRandom manager newErrorDrop
      else addMsgEventStandard manager (.errorDrop false lUint32)

/-- A list of messages to flip is not implemented. -/
def loadEnvDataErrFlip (settings : Settings) (manager : PacketManager) : PacketManager :=
  match settings.errFlip with
  | none => manager
  | some lLong =>
      if parserLong2Uint32 lLong = [] then addMsgEventRandom manager .errorFlipBits else manager

/-- The manager behind the constructor of `SettingsManager`. -/
def loadEnvData (settings : Settings) : PacketManager :=
  loadEnvDataErrFlip settings (loadEnvDataErrDrop settings newPacketManager)

def setUserModeErrDrop (settings : Settings) (manager : PacketManager) (isEnabled : Bool) :
    PacketManager :=
  if settings.errDrop.isSome then manager
  else if isEnabled then addMsgEventRandom manager newErrorDrop else manager

def setUserModeErrFlip (settings : Settings) (manager : PacketManager) (isEnabled : Bool) :
    PacketManager :=
  if settings.errFlip.isSome then manager
  else if isEnabled then addMsgEventRandom manager .errorFlipBits else manager

/-- `sendErr_init`, as far as the events go: rate, seed and debug level only show in the draws and
the printouts. -/
def sendErrInit (settings : Settings) (manager : PacketManager) (dropFlag flipFlag : Bool) :
    PacketManager :=
  let manager := addMsgEventStandard manager newInfoSeqNo
  setUserModeErrFlip settings (setUserModeErrDrop settings manager dropFlag) flipFlag

/-- What a program does with the hook. -/
inductive HookAction
  | init (dropFlag flipFlag : Bool)
  | send (buf : List UInt8) (draws : Draws)

def hookStep (settings : Settings) (manager : PacketManager) :
    HookAction → Option (Option (List UInt8) × PacketManager)
  | .init dropFlag flipFlag => some (none, sendErrInit settings manager dropFlag flipFlag)
  | .send buf draws =>
      (sendtoErr manager buf draws).map fun sent => (sent.datagram, sent.manager)

/-- `report`: what an event prints when it is deleted, the number of messages and of different
sequence numbers. -/
def MsgEvent.report : MsgEvent → Option (Nat × Nat)
  | .infoSeqNo history count => some (history.length, count.length)
  | _ => none

/-- The printouts of `clearMsgEvents`, which deletes the last event first. -/
def clearMsgEvents (errVec : List MsgEvent) : List (Nat × Nat) :=
  errVec.reverse.filterMap MsgEvent.report

/-- The printouts of `~PacketManager`. -/
def PacketManager.printed (manager : PacketManager) : List (Nat × Nat) :=
  clearMsgEvents manager.errorCaseConstant ++ clearMsgEvents manager.errorCaseChance

/-! ## Events -/

/-- The event drops the message with this number. -/
def MsgEvent.Drops (msgNo : UInt32) : MsgEvent → Prop
  | .errorDrop dropAll dropList => dropAll = true ∨ msgNo ∈ dropList
  | _ => False

instance (msgNo : UInt32) : (event : MsgEvent) → Decidable (event.Drops msgNo)
  | .errorDrop _ _ => inferInstanceAs (Decidable (_ ∨ _))
  | .errorFlipBits => inferInstanceAs (Decidable False)
  | .infoSeqNo _ _ => inferInstanceAs (Decidable False)

private theorem run_dropped_iff (event : MsgEvent) (buf : List UInt8) (msgNo : UInt32)
    (byteToFlip : Nat) :
    (event.run buf msgNo byteToFlip).outcome = .dropped ↔ event.Drops msgNo := by
  cases event with
  | errorDrop dropAll dropList =>
    by_cases h : dropAll = true ∨ msgNo ∈ dropList <;> simp [MsgEvent.run, MsgEvent.Drops, h]
  | errorFlipBits => simp [MsgEvent.run, MsgEvent.Drops]
  | infoSeqNo history count => simp [MsgEvent.run, MsgEvent.Drops]

theorem run_buf (event : MsgEvent) (buf : List UInt8) (msgNo : UInt32) (byteToFlip : Nat) :
    (event.run buf msgNo byteToFlip).buf =
      if event = .errorFlipBits then flipByte buf byteToFlip else buf := by
  cases event <;> simp [MsgEvent.run]

private theorem run_event {event : MsgEvent} (h : event.report = none) (buf : List UInt8)
    (msgNo : UInt32) (byteToFlip : Nat) : (event.run buf msgNo byteToFlip).event = event := by
  cases event with
  | errorDrop dropAll dropList => rfl
  | errorFlipBits => rfl
  | infoSeqNo history count => cases h

theorem runMsgEvents_keeps (msgNo : UInt32) (draw : Nat → Nat) (events : List MsgEvent) (i : Nat)
    (buf : List UInt8) (hasChanged : Bool) (h : ∀ event ∈ events, event ≠ .errorFlipBits) :
    (runMsgEvents msgNo draw events i buf hasChanged).buf = buf ∧
      ((runMsgEvents msgNo draw events i buf hasChanged).outcome = .dropped ↔
        ∃ event ∈ events, event.Drops msgNo) := by
  induction events generalizing i hasChanged with
  | nil => cases hasChanged <;> simp [runMsgEvents]
  | cons event events ih =>
    have hbuf := run_buf event buf msgNo (draw i)
    rw [if_neg (h event List.mem_cons_self)] at hbuf
    rw [runMsgEvents]
    by_cases hdrop : (event.run buf msgNo (draw i)).outcome = .dropped
    · rw [if_pos hdrop]
      have hdrops := (run_dropped_iff event buf msgNo (draw i)).mp hdrop
      exact ⟨hbuf, iff_of_true rfl ⟨event, List.mem_cons_self, hdrops⟩⟩
    · rw [if_neg hdrop, hbuf]
      obtain ⟨hrest, hrestdrop⟩ := ih (i + 1)
        (hasChanged || (event.run buf msgNo (draw i)).outcome = .changed)
        (fun event hmem => h event (List.mem_cons_of_mem _ hmem))
      refine ⟨hrest, hrestdrop.trans ?_⟩
      rw [run_dropped_iff] at hdrop
      simp only [List.mem_cons, exists_eq_or_imp, hdrop, false_or]

/-! ## One packet -/

/-- The random event that runs on the packet, if one does. -/
def drawnEvent (manager : PacketManager) (draws : Draws) : Option MsgEvent :=
  if draws.fires = true then manager.errorCaseChance[draws.randCase]? else none

/-- What goes out of a packet when no constant event flips: a listed message is dropped, and any
other one is what the random event leaves of it. -/
def surviving (manager : PacketManager) (buf : List UInt8) (draws : Draws) :
    Option (List UInt8) :=
  if ∃ event ∈ manager.errorCaseConstant, event.Drops (manager.msgNo + 1) then none
  else match drawnEvent manager draws with
    | none => some buf
    | some event =>
        if event.Drops (manager.msgNo + 1) then none
        else some (event.run buf (manager.msgNo + 1) draws.byteToFlip).buf

/-- No constant event flips, and no random event has a report. -/
structure PacketManager.Keeps (manager : PacketManager) : Prop where
  constant : ∀ event ∈ manager.errorCaseConstant, event ≠ .errorFlipBits
  chance : ∀ event ∈ manager.errorCaseChance, event.report = none

theorem sendtoErr_eq {manager : PacketManager} (hkeeps : manager.Keeps) {buf : List UInt8}
    (hbuf : buf ≠ []) {draws : Draws} (hdraws : draws.Within manager buf.length) :
    ∃ sent, sendtoErr manager buf draws = some sent ∧ sent.ret = buf.length ∧
      sent.datagram = surviving manager buf draws ∧
      sent.manager = ⟨(runMsgEvents (manager.msgNo + 1) draws.constant manager.errorCaseConstant 0
        buf false).events, manager.errorCaseChance, manager.msgNo + 1⟩ := by
  obtain ⟨hkept, hdropped⟩ := runMsgEvents_keeps (manager.msgNo + 1) draws.constant
    manager.errorCaseConstant 0 buf false hkeeps.constant
  by_cases hfires : manager.errorCaseChance ≠ [] ∧ draws.fires = true
  · obtain ⟨event, hcase⟩ : ∃ event, manager.errorCaseChance[draws.randCase]? = some event :=
      ⟨_, List.getElem?_eq_getElem (hdraws.randCase hfires.1)⟩
    have hdrawn : drawnEvent manager draws = some event := by
      rw [drawnEvent, if_pos hfires.2, hcase]
    have hrandom := run_dropped_iff event buf (manager.msgNo + 1) draws.byteToFlip
    have hsame : manager.errorCaseChance.set draws.randCase
        (event.run buf (manager.msgNo + 1) draws.byteToFlip).event = manager.errorCaseChance := by
      rw [run_event (hkeeps.chance event (List.mem_of_getElem? hcase))]
      obtain ⟨hlt, rfl⟩ := List.getElem?_eq_some_iff.mp hcase
      exact List.set_getElem_self hlt
    refine ⟨_, by simp only [sendtoErr, if_neg hbuf, processEvents, if_pos hfires, hcase,
      Option.map_some, hkept, hsame]; rfl, rfl, ?_, rfl⟩
    simp only [surviving, hdrawn]
    by_cases hlisted : ∃ event ∈ manager.errorCaseConstant, event.Drops (manager.msgNo + 1)
    · rw [if_pos (hdropped.mpr hlisted), if_pos hlisted, if_pos rfl]
    · rw [if_neg (fun h => hlisted (hdropped.mp h)), if_neg hlisted]
      by_cases hdrops : event.Drops (manager.msgNo + 1)
      · rw [if_pos (hrandom.mpr hdrops), if_pos hdrops]
      · rw [if_neg (fun h => hdrops (hrandom.mp h)), if_neg hdrops]
  · have hdrawn : drawnEvent manager draws = none := by
      rw [drawnEvent]
      split
      · rename_i hrate
        have hnone : manager.errorCaseChance = [] := by
          by_contra hsome
          exact hfires ⟨hsome, hrate⟩
        rw [hnone, List.getElem?_nil]
      · rfl
    refine ⟨_, by simp only [sendtoErr, if_neg hbuf, processEvents, if_neg hfires,
      Option.map_some]; rfl, rfl, ?_, rfl⟩
    simp only [surviving, hdrawn, hkept]
    by_cases hlisted : ∃ event ∈ manager.errorCaseConstant, event.Drops (manager.msgNo + 1)
    · rw [if_pos (hdropped.mpr hlisted), if_pos hlisted]
    · rw [if_neg (fun h => hlisted (hdropped.mp h)), if_neg hlisted]

/-- At most one byte of a packet that goes out is complemented. -/
theorem surviving_cases (manager : PacketManager) (buf : List UInt8) (draws : Draws) :
    surviving manager buf draws = none ∨ surviving manager buf draws = some buf ∨
      surviving manager buf draws = some (flipByte buf draws.byteToFlip) := by
  unfold surviving
  split
  · exact .inl rfl
  · split
    · exact .inr (.inl rfl)
    · rename_i event _
      by_cases hdrops : event.Drops (manager.msgNo + 1)
      · rw [if_pos hdrops]
        exact .inl rfl
      · rw [if_neg hdrops, run_buf]
        by_cases hflip : event = .errorFlipBits
        · rw [if_pos hflip]
          exact .inr (.inr rfl)
        · rw [if_neg hflip]
          exact .inr (.inl rfl)

end Cpe464.Transfer
