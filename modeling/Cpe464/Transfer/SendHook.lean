import Cpe464.Framework.Simulation
import Cpe464.Transfer.PacketManager
import Mathlib.Data.List.Dedup
import Mathlib.Data.List.Induction

/-!
# Runs through the send hook

A program calls `sendErr_init` and sends packets, in any order. Whatever the environment says and
whatever is drawn, `verifyData` accepts of what goes out exactly the packets that went through
unchanged. The messages on the list of the environment never go out, and the report counts the
others.
-/

namespace Cpe464.Transfer

open Runs

/-- The numbers of the messages to drop. -/
def listedDrops (settings : Settings) : List UInt32 :=
  match settings.errDrop with
  | none => []
  | some lLong => parserLong2Uint32 lLong

def dropEvents (settings : Settings) : List MsgEvent :=
  if listedDrops settings = [] then [] else [.errorDrop false (listedDrops settings)]

/-- `m_Count` behind these sequence numbers. -/
def tally (history : List UInt32) : List (UInt32 × UInt32) :=
  history.foldl (fun count seqNo => increment seqNo count) []

def infoEvent (history : List UInt32) : MsgEvent := .infoSeqNo history (tally history)

private theorem tally_append (history : List UInt32) (seqNo : UInt32) :
    tally (history ++ [seqNo]) = increment seqNo (tally history) := by
  rw [tally, List.foldl_append]
  rfl

/-- The constant events are the list of the environment and one report for every call of
`sendErr_init`; the random ones drop or flip. -/
structure HookInv (settings : Settings) (manager : PacketManager)
    (histories : List (List UInt32)) : Prop where
  constant : manager.errorCaseConstant = dropEvents settings ++ histories.map infoEvent
  chance : ∀ event ∈ manager.errorCaseChance, event.report = none

private theorem silent_append {events : List MsgEvent} (h : ∀ event ∈ events, event.report = none)
    {added : MsgEvent} (hadded : added.report = none) :
    ∀ event ∈ events ++ [added], event.report = none :=
  List.forall_mem_append.mpr ⟨h, List.forall_mem_singleton.mpr hadded⟩

private theorem loadEnvData_eq (settings : Settings) :
    ∃ chance, loadEnvData settings = ⟨dropEvents settings, chance, 0⟩ ∧
      ∀ event ∈ chance, event.report = none := by
  obtain ⟨chance, hdrop, hsilent⟩ : ∃ chance, loadEnvDataErrDrop settings newPacketManager =
      ⟨dropEvents settings, chance, 0⟩ ∧ ∀ event ∈ chance, event.report = none := by
    unfold loadEnvDataErrDrop dropEvents listedDrops
    cases settings.errDrop with
    | none => exact ⟨[], rfl, List.forall_mem_nil _⟩
    | some lLong =>
      by_cases hempty : parserLong2Uint32 lLong = []
      · simp only [if_pos hempty]
        exact ⟨[newErrorDrop], rfl, List.forall_mem_singleton.mpr rfl⟩
      · simp only [if_neg hempty]
        exact ⟨[], rfl, List.forall_mem_nil _⟩
  rw [loadEnvData, hdrop, loadEnvDataErrFlip]
  cases settings.errFlip with
  | none => exact ⟨chance, rfl, hsilent⟩
  | some lLong =>
    by_cases hempty : parserLong2Uint32 lLong = []
    · simp only [if_pos hempty]
      exact ⟨chance ++ [.errorFlipBits], rfl, silent_append hsilent rfl⟩
    · simp only [if_neg hempty]
      exact ⟨chance, rfl, hsilent⟩

theorem loadEnvData_inv (settings : Settings) : HookInv settings (loadEnvData settings) [] := by
  obtain ⟨chance, hload, hsilent⟩ := loadEnvData_eq settings
  rw [hload]
  exact ⟨(List.append_nil _).symm, hsilent⟩

section Inv

variable {settings : Settings} {manager : PacketManager} {histories : List (List UInt32)}

theorem HookInv.keeps (h : HookInv settings manager histories) : manager.Keeps := by
  refine ⟨?_, h.chance⟩
  intro event hmem
  rw [h.constant] at hmem
  rcases List.mem_append.mp hmem with hmem | hmem
  · unfold dropEvents at hmem
    split at hmem
    · cases hmem
    · rw [List.mem_singleton.mp hmem]
      exact MsgEvent.noConfusion
  · obtain ⟨history, -, rfl⟩ := List.mem_map.mp hmem
    exact MsgEvent.noConfusion

private theorem HookInv.drops_iff (h : HookInv settings manager histories) (msgNo : UInt32) :
    (∃ event ∈ manager.errorCaseConstant, event.Drops msgNo) ↔ msgNo ∈ listedDrops settings := by
  rw [h.constant]
  constructor
  · rintro ⟨event, hmem, hdrops⟩
    rcases List.mem_append.mp hmem with hmem | hmem
    · unfold dropEvents at hmem
      split at hmem
      · cases hmem
      · rw [List.mem_singleton.mp hmem] at hdrops
        exact hdrops.resolve_left Bool.noConfusion
    · obtain ⟨history, -, rfl⟩ := List.mem_map.mp hmem
      exact hdrops.elim
  · intro hlisted
    refine ⟨.errorDrop false (listedDrops settings), List.mem_append_left _ ?_, .inr hlisted⟩
    rw [dropEvents, if_neg (List.ne_nil_of_mem hlisted)]
    exact List.mem_singleton_self _

private theorem runMsgEvents_infos (msgNo : UInt32) (draw : Nat → Nat)
    (histories : List (List UInt32)) (i : Nat) (buf : List UInt8) (hasChanged : Bool) :
    (runMsgEvents msgNo draw (histories.map infoEvent) i buf hasChanged).events =
      (histories.map (· ++ [seqNo buf])).map infoEvent := by
  induction histories generalizing i hasChanged with
  | nil => rfl
  | cons history histories ih =>
    have hnext : infoEvent (history ++ [seqNo buf]) =
        .infoSeqNo (history ++ [seqNo buf]) (increment (seqNo buf) (tally history)) := by
      rw [infoEvent, tally_append]
    rw [List.map_cons, runMsgEvents]
    simp only [infoEvent, MsgEvent.run, reduceCtorEq, if_false, List.map_cons]
    rw [← hnext]
    exact congrArg _ (ih _ _)

/-- The list comes first: a message that it drops is not reported. -/
private theorem runMsgEvents_inv (msgNo : UInt32) (draw : Nat → Nat) (buf : List UInt8) :
    (runMsgEvents msgNo draw (dropEvents settings ++ histories.map infoEvent) 0 buf false).events =
      dropEvents settings ++
        (if msgNo ∈ listedDrops settings then histories
          else histories.map (· ++ [seqNo buf])).map infoEvent := by
  unfold dropEvents
  by_cases hempty : listedDrops settings = []
  · rw [if_pos hempty, hempty, if_neg List.not_mem_nil]
    exact runMsgEvents_infos msgNo draw histories 0 buf false
  · rw [if_neg hempty, List.singleton_append, runMsgEvents]
    by_cases hlisted : msgNo ∈ listedDrops settings
    · simp [MsgEvent.run, hlisted]
    · simp only [MsgEvent.run, hlisted, reduceCtorEq, or_self, if_false, List.singleton_append]
      exact congrArg _ (runMsgEvents_infos msgNo draw histories 1 buf _)

private theorem sendErrInit_inv (h : HookInv settings manager histories)
    (dropFlag flipFlag : Bool) :
    HookInv settings (sendErrInit settings manager dropFlag flipFlag) (histories ++ [[]]) ∧
      (sendErrInit settings manager dropFlag flipFlag).msgNo = manager.msgNo := by
  obtain ⟨chance, hinit, hsilent⟩ : ∃ chance, sendErrInit settings manager dropFlag flipFlag =
      ⟨manager.errorCaseConstant ++ [newInfoSeqNo], manager.errorCaseChance ++ chance,
        manager.msgNo⟩ ∧ ∀ event ∈ chance, event.report = none := by
    unfold sendErrInit setUserModeErrFlip setUserModeErrDrop
    cases settings.errDrop <;> cases settings.errFlip <;> cases dropFlag <;> cases flipFlag <;>
      simp [addMsgEventStandard, addMsgEventRandom, newErrorDrop, MsgEvent.report]
  rw [hinit]
  refine ⟨⟨?_, List.forall_mem_append.mpr ⟨h.chance, hsilent⟩⟩, rfl⟩
  rw [h.constant, List.map_append, List.append_assoc]
  rfl

/-! ## One action -/

private theorem hookStep_send {next : PacketManager} {buf : List UInt8} {draws : Draws}
    {output : Option (List UInt8)}
    (h : hookStep settings manager (.send buf draws) = some (output, next))
    (hinv : HookInv settings manager histories) (hdraws : draws.Within manager buf.length) :
    output = surviving manager buf draws ∧ next.msgNo = manager.msgNo + 1 ∧
      HookInv settings next (if manager.msgNo + 1 ∈ listedDrops settings then histories
        else histories.map (· ++ [seqNo buf])) := by
  have hbuf : buf ≠ [] := by
    rintro rfl
    simp [hookStep, sendtoErr] at h
  obtain ⟨sent, hsent, -, hdatagram, hmanager⟩ := sendtoErr_eq hinv.keeps hbuf hdraws
  rw [hookStep, hsent] at h
  cases h
  rw [hmanager]
  refine ⟨hdatagram, rfl, ?_, hinv.chance⟩
  rw [hinv.constant, runMsgEvents_inv]

end Inv

/-- The packet that an action sends. -/
def HookAction.packet : HookAction → Option (List UInt8)
  | .init _ _ => none
  | .send buf _ => some buf

/-- The draws of an action are in range. -/
def HookAction.Drawn (manager : PacketManager) : HookAction → Prop
  | .init _ _ => True
  | .send buf draws => draws.Within manager buf.length

instance (manager : PacketManager) : (action : HookAction) → Decidable (action.Drawn manager)
  | .init _ _ => inferInstanceAs (Decidable True)
  | .send buf draws => inferInstanceAs (Decidable (draws.Within manager buf.length))

/-- No random event runs. -/
def HookAction.Spared : HookAction → Prop
  | .init _ _ => True
  | .send _ draws => draws.fires = false

def packetsSent (actions : List HookAction) : List (List UInt8) :=
  actions.filterMap HookAction.packet

/-- The packets that the list does not drop, when the first one has this number. -/
def unlisted (settings : Settings) (packets : List (List UInt8)) (first : Nat) :
    List (List UInt8) :=
  ((packets.zipIdx first).filter fun numbered =>
    UInt32.ofNat numbered.2 ∉ listedDrops settings).map Prod.fst

/-- What the reports have seen, one for every call of `sendErr_init`: the sequence numbers of the
packets after it that the list does not drop. -/
def seqNoReports (settings : Settings) : List HookAction → Nat → List (List UInt32)
  | [], _ => []
  | .init _ _ :: actions, first =>
      (unlisted settings (packetsSent actions) first).map seqNo ::
        seqNoReports settings actions first
  | .send _ _ :: actions, first => seqNoReports settings actions (first + 1)

/-! ## The list -/

/-- The datagram is the packet, or the packet with one byte complemented. -/
def Carries (datagram buf : List UInt8) : Prop :=
  datagram = buf ∨ ∃ i < buf.length, datagram = flipByte buf i

private theorem unlisted_cons (settings : Settings) (buf : List UInt8) (packets : List (List UInt8))
    (first : Nat) : unlisted settings (buf :: packets) first =
      if UInt32.ofNat first ∈ listedDrops settings then unlisted settings packets (first + 1)
      else buf :: unlisted settings packets (first + 1) := by
  rw [unlisted, List.zipIdx_cons, List.filter_cons]
  by_cases hlisted : UInt32.ofNat first ∈ listedDrops settings
  · simp only [hlisted, not_true, decide_false, if_true]
    rfl
  · simp only [hlisted, not_false_iff, decide_true, if_true, if_false]
    rfl

private theorem increment_keys (seqNo : UInt32) (count : List (UInt32 × UInt32)) :
    (increment seqNo count).map Prod.fst = if seqNo ∈ count.map Prod.fst then count.map Prod.fst
      else count.map Prod.fst ++ [seqNo] := by
  induction count with
  | nil => rfl
  | cons entry count ih =>
    obtain ⟨key, n⟩ := entry
    by_cases hkey : key = seqNo
    · simp [increment, hkey]
    · have hne : seqNo ≠ key := fun h => hkey h.symm
      by_cases hmem : seqNo ∈ count.map Prod.fst
      · simp only [increment, if_neg hkey, List.map_cons, ih, List.mem_cons, hmem,
          or_true, if_true]
      · simp only [increment, if_neg hkey, List.map_cons, ih, List.mem_cons, hmem,
          hne, or_self, if_false, List.cons_append]

private theorem tally_keys (history : List UInt32) :
    ((tally history).map Prod.fst).Nodup ∧
      ∀ seqNo, seqNo ∈ (tally history).map Prod.fst ↔ seqNo ∈ history := by
  induction history using List.reverseRecOn with
  | nil => exact ⟨List.nodup_nil, fun seqNo => Iff.rfl⟩
  | append_singleton history next ih =>
    obtain ⟨hnodup, hkeys⟩ := ih
    rw [tally_append, increment_keys]
    split
    · rename_i hseen
      refine ⟨hnodup, fun seqNo => ?_⟩
      rw [hkeys, List.mem_append, List.mem_singleton]
      refine ⟨.inl, fun h => h.elim id ?_⟩
      rintro rfl
      exact (hkeys seqNo).mp hseen
    · rename_i hnew
      refine ⟨List.nodup_append.mpr ⟨hnodup, List.nodup_singleton _, ?_⟩, fun seqNo => ?_⟩
      · rintro key hkey _ hnext rfl
        exact hnew (List.mem_singleton.mp hnext ▸ hkey)
      · rw [List.mem_append, List.mem_append, hkeys]

private theorem length_tally (history : List UInt32) :
    (tally history).length = history.dedup.length := by
  obtain ⟨hnodup, hkeys⟩ := tally_keys history
  rw [← List.length_map Prod.fst]
  refine List.Perm.length_eq ((List.perm_ext_iff_of_nodup hnodup history.nodup_dedup).mpr ?_)
  intro seqNo
  rw [hkeys, List.mem_dedup]

section Listed

variable {settings : Settings} {manager : PacketManager} {histories : List (List UInt32)}
  {buf : List UInt8} {draws : Draws}

private theorem surviving_listed (hinv : HookInv settings manager histories)
    (hlisted : manager.msgNo + 1 ∈ listedDrops settings) : surviving manager buf draws = none := by
  rw [surviving, if_pos ((hinv.drops_iff _).mpr hlisted)]

private theorem surviving_spared (hinv : HookInv settings manager histories)
    (hlisted : manager.msgNo + 1 ∉ listedDrops settings) (hspared : draws.fires = false) :
    surviving manager buf draws = some buf := by
  have hdrawn : drawnEvent manager draws = none := by
    rw [drawnEvent, hspared, if_neg Bool.noConfusion]
  rw [surviving, if_neg (fun h => hlisted ((hinv.drops_iff _).mp h)), hdrawn]

private theorem surviving_carries (hdraws : draws.Within manager buf.length) {datagram : List UInt8}
    (h : surviving manager buf draws = some datagram) : Carries datagram buf := by
  rcases surviving_cases manager buf draws with hnone | hsame | hflip
  · rw [hnone] at h
    cases h
  · exact .inl (Option.some.inj (h.symm.trans hsame))
  · exact .inr ⟨_, hdraws.byteToFlip, Option.some.inj (h.symm.trans hflip)⟩

end Listed

/-! ## What gets through -/

/-- A packet that `sendData` builds. -/
def IsPacket (buf : List UInt8) : Prop :=
  ∃ payload sequence flag, payload.length ≤ 65528 ∧
    buf = sendData payload (UInt16.ofNat payload.length) sequence flag

private theorem complement_ne (b : UInt8) : b ^^^ 255 ≠ b := by
  intro h
  have hzero : b ^^^ 255 = b ^^^ 0 := by rw [h, UInt8.xor_zero]
  exact absurd ((UInt8.xor_right_inj b).mp hzero) (by decide)

private theorem IsPacket.length_pos {buf : List UInt8} (h : IsPacket buf) : 0 < buf.length := by
  obtain ⟨payload, sequence, flag, hlen, rfl⟩ := h
  have hlength := length_sendData payload sequence flag (by omega)
  omega

private theorem verdict_flipByte {buf : List UInt8} (h : IsPacket buf) {i : Nat}
    (hi : i < buf.length) : verdict buf = 0 ∧ verdict (flipByte buf i) ≠ 0 := by
  obtain ⟨payload, sequence, flag, hlen, rfl⟩ := h
  have hlength := length_sendData payload sequence flag (by omega)
  have hzero := verdict_sendData payload sequence flag hlen
  exact ⟨hzero, verdict_set_ne_zero _ (by omega) (by omega) hzero i _ hi (complement_ne _)⟩

theorem Carries.verdict {datagram buf : List UInt8} (hbuf : IsPacket buf)
    (h : Carries datagram buf) :
    datagram.length = buf.length ∧ (verdict datagram = 0 ↔ datagram = buf) := by
  rcases h with rfl | ⟨i, hi, rfl⟩
  · have hlength := hbuf.length_pos
    exact ⟨rfl, iff_of_true (verdict_flipByte hbuf hlength).1 rfl⟩
  · obtain ⟨hzero, hflipped⟩ := verdict_flipByte hbuf hi
    refine ⟨List.length_set, iff_of_false hflipped ?_⟩
    intro hsame
    rw [hsame] at hflipped
    exact hflipped hzero

/-- What goes out of an action comes from its packet, and is accepted if it is the packet. -/
def Faithful (m : Moment PacketManager HookAction (Option (List UInt8))) : Prop :=
  ∀ datagram, m.output = some datagram → ∃ buf, m.action.packet = some buf ∧
    datagram.length = buf.length ∧ (verdict datagram = 0 ↔ datagram = buf)

private theorem accepted_sublist
    (moments : List (Moment PacketManager HookAction (Option (List UInt8))))
    (h : ∀ m ∈ moments, Faithful m) :
    ((moments.filterMap Moment.output).filter fun datagram => verdict datagram = 0).Sublist
      (packetsSent (moments.map Moment.action)) := by
  induction moments with
  | nil => exact .slnil
  | cons m moments ih =>
    have hrest := ih (fun m hm => h m (List.mem_cons_of_mem _ hm))
    have hsent : packetsSent ((m :: moments).map Moment.action) =
        m.action.packet.toList ++ packetsSent (moments.map Moment.action) := by
      rw [packetsSent, List.map_cons, List.filterMap_cons, packetsSent]
      cases m.action.packet <;> rfl
    rw [hsent]
    cases houtput : m.output with
    | none =>
      rw [List.filterMap_cons_none houtput]
      exact hrest.trans (List.sublist_append_right _ _)
    | some datagram =>
      obtain ⟨buf, hpacket, -, haccepted⟩ := h m List.mem_cons_self datagram houtput
      rw [List.filterMap_cons_some houtput, hpacket, Option.toList_some, List.singleton_append]
      by_cases hverdict : verdict datagram = 0
      · rw [List.filter_cons_of_pos (by simpa using hverdict), haccepted.mp hverdict]
        exact hrest.cons_cons _
      · rw [List.filter_cons_of_neg (by simpa using hverdict)]
        exact hrest.cons _

private theorem hookStep_faithful {settings : Settings} {manager next : PacketManager}
    {histories : List (List UInt32)} {action : HookAction} {output : Option (List UInt8)}
    (h : hookStep settings manager action = some (output, next))
    (hinv : HookInv settings manager histories) (hdrawn : action.Drawn manager)
    (hpacket : ∀ buf, action.packet = some buf → IsPacket buf) :
    (∃ histories, HookInv settings next histories) ∧ Faithful ⟨manager, action, output, next⟩ := by
  cases action with
  | init dropFlag flipFlag =>
    cases h
    refine ⟨⟨_, (sendErrInit_inv hinv dropFlag flipFlag).1⟩, ?_⟩
    intro datagram hnone
    cases hnone
  | send buf draws =>
    obtain ⟨houtput, -, hnext⟩ := hookStep_send h hinv hdrawn
    refine ⟨⟨_, hnext⟩, ?_⟩
    intro datagram hsome
    have hcarries := surviving_carries hdrawn (houtput.symm.trans hsome)
    exact ⟨buf, rfl, hcarries.verdict (hpacket buf rfl)⟩

/-! ## Runs -/

theorem loadEnvData_msgNo (settings : Settings) :
    (loadEnvData settings).msgNo + 1 = UInt32.ofNat 1 := by
  obtain ⟨chance, hload, -⟩ := loadEnvData_eq settings
  rw [hload]
  rfl

private theorem report_infoEvent (history : List UInt32) :
    (infoEvent history).report = some (history.length, history.dedup.length) := by
  rw [infoEvent, MsgEvent.report, length_tally]

theorem HookInv.printed {settings : Settings} {manager : PacketManager}
    {histories : List (List UInt32)} (h : HookInv settings manager histories) :
    manager.printed =
      (histories.map fun history => (history.length, history.dedup.length)).reverse := by
  have hchance : clearMsgEvents manager.errorCaseChance = [] :=
    List.filterMap_eq_nil_iff.mpr fun event hmem => h.chance event (List.mem_reverse.mp hmem)
  have hdrop : (dropEvents settings).filterMap MsgEvent.report = [] := by
    unfold dropEvents
    split <;> rfl
  have hreports : (histories.map infoEvent).filterMap MsgEvent.report =
      histories.map fun history => (history.length, history.dedup.length) := by
    rw [List.filterMap_map, ← List.filterMap_eq_map]
    exact congrArg (List.filterMap · histories) (funext report_infoEvent)
  rw [PacketManager.printed, hchance, List.append_nil, clearMsgEvents, List.filterMap_reverse,
    h.constant, List.filterMap_append, hdrop, List.nil_append, hreports]

theorem run_unlisted {settings : Settings} {manager last : PacketManager}
    {histories : List (List UInt32)} {actions : List HookAction} {first : Nat}
    {moments : List (Moment PacketManager HookAction (Option (List UInt8)))}
    (hinv : HookInv settings manager histories) (hfirst : manager.msgNo + 1 = UInt32.ofNat first)
    (hrun : run (hookStep settings) manager actions = some (moments, last))
    (hdrawn : ∀ m ∈ moments, m.action.Drawn m.before) :
    HookInv settings last
        (histories.map (· ++ (unlisted settings (packetsSent actions) first).map seqNo) ++
          seqNoReports settings actions first) ∧
      List.SublistForall₂ Carries (moments.filterMap Moment.output)
        (unlisted settings (packetsSent actions) first) ∧
      ((∀ action ∈ actions, action.Spared) →
        moments.filterMap Moment.output = unlisted settings (packetsSent actions) first) := by
  induction actions generalizing manager histories first moments with
  | nil =>
    simp only [run, Option.some.injEq, Prod.mk.injEq] at hrun
    obtain ⟨rfl, rfl⟩ := hrun
    refine ⟨?_, .nil, fun _ => rfl⟩
    simpa [packetsSent, unlisted, seqNoReports] using hinv
  | cons action actions ih =>
    obtain ⟨output, next, rest, hstep, hrest, rfl⟩ := run_cons hrun
    obtain ⟨hfirstDrawn, hrestDrawn⟩ := List.forall_mem_cons.mp hdrawn
    cases action with
    | init dropFlag flipFlag =>
      cases hstep
      obtain ⟨hnext, hmsgNo⟩ := sendErrInit_inv hinv dropFlag flipFlag
      obtain ⟨hlast, hout, hspared⟩ := ih hnext (hmsgNo ▸ hfirst) hrest hrestDrawn
      refine ⟨?_, hout, fun h => hspared (List.forall_mem_cons.mp h).2⟩
      rw [List.map_append, List.append_assoc] at hlast
      exact hlast
    | send buf draws =>
      obtain ⟨houtput, hmsgNo, hnext⟩ := hookStep_send hstep hinv hfirstDrawn
      have hsecond : next.msgNo + 1 = UInt32.ofNat (first + 1) := by
        rw [hmsgNo, hfirst]
        exact (UInt32.ofNat_add first 1).symm
      obtain ⟨hlast, hout, hspared⟩ := ih hnext hsecond hrest hrestDrawn
      have hpackets : packetsSent (.send buf draws :: actions) = buf :: packetsSent actions := rfl
      rw [hpackets, unlisted_cons, ← hfirst]
      by_cases hlisted : manager.msgNo + 1 ∈ listedDrops settings
      · rw [if_pos hlisted] at hlast ⊢
        rw [surviving_listed hinv hlisted] at houtput
        rw [List.filterMap_cons_none houtput]
        exact ⟨hlast, hout, fun h => hspared (List.forall_mem_cons.mp h).2⟩
      · rw [if_neg hlisted] at hlast ⊢
        refine ⟨?_, ?_, fun h => ?_⟩
        · simpa [List.map_map, Function.comp_def, seqNoReports] using hlast
        · cases output with
          | none => exact hout.cons_right
          | some datagram => exact .cons (surviving_carries hfirstDrawn houtput.symm) hout
        · obtain ⟨hthis, hothers⟩ := List.forall_mem_cons.mp h
          rw [surviving_spared hinv hlisted hthis] at houtput
          rw [List.filterMap_cons_some houtput, hspared hothers]

/-- Acknowledgements: the flag of the first one is flipped, and the second one is on the list. -/
def threeSends : List HookAction :=
  [.init true true, .send (sendData [] 0 7 5) ⟨fun _ => 0, true, 0, 6⟩,
    .send (sendData [] 0 8 5) ⟨fun _ => 0, true, 0, 0⟩,
    .send (sendData [] 0 9 5) ⟨fun _ => 0, false, 0, 0⟩]

theorem threeSends_run :
    ∃ moments last, run (hookStep ⟨some [2], none⟩) (loadEnvData ⟨some [2], none⟩) threeSends =
        some (moments, last) ∧
      (∀ m ∈ moments, m.action.Drawn m.before) ∧ (moments.filterMap Moment.output).length = 2 :=
  exists_run_of (hookStep ⟨some [2], none⟩) (loadEnvData ⟨some [2], none⟩) threeSends
    (fun moments => (∀ m ∈ moments, m.action.Drawn m.before) ∧
      (moments.filterMap Moment.output).length = 2) (by decide +kernel)

section Run

variable {settings : Settings} {last : PacketManager} {actions : List HookAction}
  {moments : List (Moment PacketManager HookAction (Option (List UInt8)))}

/-- In every run of a program, what goes out of a packet has its length and is accepted by
`verifyData` exactly when it is the packet, and what is accepted are some of the packets, in their
order. -/
theorem accepted_datagrams
    (hrun : run (hookStep settings) (loadEnvData settings) actions = some (moments, last))
    (hdrawn : ∀ m ∈ moments, m.action.Drawn m.before)
    (hpackets : ∀ buf ∈ packetsSent actions, IsPacket buf) :
    (∀ m ∈ moments, Faithful m) ∧
      ((moments.filterMap Moment.output).filter fun datagram => verdict datagram = 0).Sublist
        (packetsSent actions) := by
  have hactions := run_actions hrun
  have hpermitted : ∀ m ∈ moments, m.action.Drawn m.before ∧
      ∀ buf, m.action.packet = some buf → IsPacket buf := by
    intro m hm
    refine ⟨hdrawn m hm, fun buf hbuf => hpackets buf ?_⟩
    rw [← hactions]
    exact List.mem_filterMap.mpr ⟨m.action, List.mem_map_of_mem hm, hbuf⟩
  obtain ⟨-, hmoments⟩ := run_invariant (fun manager => ∃ histories, HookInv settings manager
      histories) (fun manager action => action.Drawn manager ∧
        ∀ buf, action.packet = some buf → IsPacket buf) Faithful
    (fun manager action output next hstep hinv hpermitted =>
      hookStep_faithful hstep hinv.choose_spec hpermitted.1 hpermitted.2)
    ⟨[], loadEnvData_inv settings⟩ hrun hpermitted
  have hfaithful : ∀ m ∈ moments, Faithful m := fun m hm => (hmoments m hm).2.2
  refine ⟨hfaithful, ?_⟩
  rw [← hactions]
  exact accepted_sublist moments hfaithful

theorem accepted_datagrams_three :
    ∃ moments last, run (hookStep ⟨some [2], none⟩) (loadEnvData ⟨some [2], none⟩) threeSends =
        some (moments, last) ∧
      (moments.filterMap Moment.output).length = 2 ∧
      ((moments.filterMap Moment.output).filter fun datagram => verdict datagram = 0).Sublist
        (packetsSent threeSends) := by
  obtain ⟨moments, last, hrun, hdrawn, hlength⟩ := threeSends_run
  refine ⟨moments, last, hrun, hlength, (accepted_datagrams hrun hdrawn ?_).2⟩
  intro buf hbuf
  simp only [threeSends, packetsSent, HookAction.packet, List.filterMap_cons,
    List.filterMap_nil, List.mem_cons, List.not_mem_nil, or_false] at hbuf
  rcases hbuf with rfl | rfl | rfl
  · exact ⟨[], 7, 5, by decide, rfl⟩
  · exact ⟨[], 8, 5, by decide, rfl⟩
  · exact ⟨[], 9, 5, by decide, rfl⟩

/-- At exit every report prints how many packets it has seen and how many different numbers. What
random events do with a packet does not show. -/
theorem seqNo_report
    (hrun : run (hookStep settings) (loadEnvData settings) actions = some (moments, last))
    (hdrawn : ∀ m ∈ moments, m.action.Drawn m.before) :
    last.printed = ((seqNoReports settings actions 1).map
      fun seqNos => (seqNos.length, seqNos.dedup.length)).reverse := by
  have hinv := (run_unlisted (loadEnvData_inv settings) (loadEnvData_msgNo settings) hrun hdrawn).1
  rw [List.map_nil, List.nil_append] at hinv
  exact hinv.printed

theorem seqNo_report_three :
    ∃ moments last, run (hookStep ⟨some [2], none⟩) (loadEnvData ⟨some [2], none⟩) threeSends =
        some (moments, last) ∧ last.printed = [(2, 2)] := by
  obtain ⟨moments, last, hrun, hdrawn, -⟩ := threeSends_run
  exact ⟨moments, last, hrun, (seqNo_report hrun hdrawn).trans (by decide +kernel)⟩

end Run

end Cpe464.Transfer
