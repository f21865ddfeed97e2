import Cpe464.Framework.Strtol
import Cpe464.Transfer.Connect
import Cpe464.Transfer.SendHook

/-!
# Arguments

The send hook reads two lists of numbers out of the environment, and rcopy reads the sizes of a
transfer out of its command line. Numbers in decimal get to where they are used: the hook drops the
messages of the list, and the server forks a child for the sizes that were typed.
-/

namespace Cpe464.Transfer

open Runs

/-! ## The environment -/

/-- The loop of `parser2ListLong`; it ends at a token without a number. -/
def readLongs : List (List UInt8) → List Int
  | [] => []
  | token :: tokens =>
      match strtol token with
      | none => []
      | some val => val :: readLongs tokens

/-- The list that `parser2ListLong` fills. It returns the length, so that a list without numbers
counts as set. -/
def parser2ListLong (str : List UInt8) : List Int := readLongs (strtokr 44 str)

/-- What the settings manager finds in the environment. -/
def environmentSettings (getenv : String → Option (List UInt8)) : Settings where
  errDrop := (getenv "CPE464_OVERRIDE_ERR_DROP").map parser2ListLong
  errFlip := (getenv "CPE464_OVERRIDE_ERR_FLIP").map parser2ListLong

private theorem readLongs_decimalInt {zs : List Int} (h : ∀ z ∈ zs, -2 ^ 63 ≤ z ∧ z < 2 ^ 63) :
    readLongs (zs.map decimalInt) = zs := by
  induction zs with
  | nil => rfl
  | cons z zs ih =>
    obtain ⟨⟨hlow, hhigh⟩, hrest⟩ := List.forall_mem_cons.mp h
    rw [List.map_cons, readLongs, strtol_decimalInt hlow hhigh]
    exact congrArg (z :: ·) (ih hrest)

private theorem parser2ListLong_decimalList {zs : List Int}
    (h : ∀ z ∈ zs, -2 ^ 63 ≤ z ∧ z < 2 ^ 63) : parser2ListLong (decimalList zs) = zs := by
  rw [parser2ListLong, strtokr_decimalList, readLongs_decimalInt h]

/-- Message numbers, as a user lists them. -/
def messageList (msgNos : List UInt32) : List UInt8 :=
  decimalList (msgNos.map fun msgNo => (msgNo.toNat : Int))

private theorem parserLong2Uint32_messages (msgNos : List UInt32) :
    parserLong2Uint32 (msgNos.map fun msgNo => (msgNo.toNat : Int)) = msgNos := by
  induction msgNos with
  | nil => rfl
  | cons msgNo msgNos ih =>
    rw [parserLong2Uint32] at ih ⊢
    rw [List.map_cons, List.filter_cons_of_pos (by simp), List.map_cons, ih, Int.toNat_natCast,
      UInt32.ofNat_toNat]

private theorem listedDrops_messageList {getenv : String → Option (List UInt8)}
    {msgNos : List UInt32} (h : getenv "CPE464_OVERRIDE_ERR_DROP" = some (messageList msgNos)) :
    listedDrops (environmentSettings getenv) = msgNos := by
  have hrange : ∀ z ∈ msgNos.map fun msgNo => (msgNo.toNat : Int), -2 ^ 63 ≤ z ∧ z < 2 ^ 63 := by
    intro z hz
    obtain ⟨msgNo, -, rfl⟩ := List.mem_map.mp hz
    have hlt := msgNo.toNat_lt
    constructor <;> omega
  rw [environmentSettings, listedDrops, h, Option.map_some]
  show parserLong2Uint32 (parser2ListLong _) = msgNos
  rw [messageList, parser2ListLong_decimalList hrange, parserLong2Uint32_messages]

/-- The messages that the environment lists, and no others without a random event, are missing from
what goes out in any run. -/
theorem environment_drops {getenv : String → Option (List UInt8)} {msgNos : List UInt32}
    {actions : List HookAction} {last : PacketManager}
    {moments : List (Moment PacketManager HookAction (Option (List UInt8)))}
    (henv : getenv "CPE464_OVERRIDE_ERR_DROP" = some (messageList msgNos))
    (hrun : run (hookStep (environmentSettings getenv)) (loadEnvData (environmentSettings getenv))
      actions = some (moments, last))
    (hdrawn : ∀ m ∈ moments, m.action.Drawn m.before) :
    let unlisted := (((packetsSent actions).zipIdx 1).filter fun numbered =>
      UInt32.ofNat numbered.2 ∉ msgNos).map Prod.fst
    List.SublistForall₂ Carries (moments.filterMap Moment.output) unlisted ∧
      ((∀ action ∈ actions, action.Spared) → moments.filterMap Moment.output = unlisted) := by
  have hlist := listedDrops_messageList henv
  have hsent := (run_unlisted (loadEnvData_inv _) (loadEnvData_msgNo _) hrun hdrawn).2
  rw [unlisted, hlist] at hsent
  exact hsent

/-- The variable is set to `2`. -/
def dropSecond (key : String) : Option (List UInt8) :=
  if key = "CPE464_OVERRIDE_ERR_DROP" then some [50] else none

theorem environment_drops_second :
    ∃ moments last, run (hookStep (environmentSettings dropSecond))
        (loadEnvData (environmentSettings dropSecond)) threeSends = some (moments, last) ∧
      List.SublistForall₂ Carries (moments.filterMap Moment.output)
        [sendData [] 0 7 5, sendData [] 0 9 5] := by
  have hset : dropSecond "CPE464_OVERRIDE_ERR_DROP" = some (messageList [2]) := by
    decide +kernel
  have hsettings : environmentSettings dropSecond = ⟨some [2], none⟩ := by decide +kernel
  obtain ⟨moments, last, hrun, hdrawn, -⟩ := threeSends_run
  rw [← hsettings] at hrun
  exact ⟨moments, last, hrun, (environment_drops hset hrun hdrawn).1⟩

/-! ## The command line -/

/-- `processArgs` of rcopy, on the whole command line. It exits unless there are eight arguments. -/
def processArgv : List (List UInt8) → Option SetupInfo
  | [_, fromFileName, _, windowSize, bufferSize, _, _, _] =>
      some (processArgs fromFileName (UInt32.ofInt (atoi windowSize))
        (UInt16.ofInt (atoi bufferSize)))
  | _ => none

/-- The sizes in decimal, in their places. -/
def commandLine (fromFileName toFileName errorRate remoteMachine remotePort : List UInt8)
    (windowSize : UInt32) (bufferSize : UInt16) : List (List UInt8) :=
  [[114, 99, 111, 112, 121], fromFileName, toFileName, decimal windowSize.toNat,
    decimal bufferSize.toNat, errorRate, remoteMachine, remotePort]

private theorem ofInt_atoi_decimal {windowSize : UInt32} (h : windowSize.toNat < 2 ^ 31)
    (bufferSize : UInt16) :
    UInt32.ofInt (atoi (decimal windowSize.toNat)) = windowSize ∧
      UInt16.ofInt (atoi (decimal bufferSize.toNat)) = bufferSize := by
  have hlt := bufferSize.toNat_lt
  rw [atoi_decimal h, atoi_decimal (by omega)]
  constructor
  · have hvalue : ((windowSize.toNat : Int) % 2 ^ 32).toNat = windowSize.toNat := by omega
    rw [UInt32.ofInt, hvalue, UInt32.ofNat_toNat]
  · have hvalue : ((bufferSize.toNat : Int) % 2 ^ 16).toNat = bufferSize.toNat := by omega
    rw [UInt16.ofInt, hvalue, UInt16.ofNat_toNat]

/-- A command line arrives as it was typed: wherever the server is in its loop, the child it forks
for the request has the file name and the sizes of the command line. -/
theorem commandLine_arrives {fromFileName : List UInt8} (hname : fromFileName.length ≤ 99)
    (hzero : 0 ∉ fromFileName) {windowSize : UInt32} (hwindow : windowSize.toNat < 2 ^ 24)
    (bufferSize : UInt16) (toFileName errorRate remoteMachine remotePort : List UInt8) :
    ∃ setupInfo packet,
      processArgv (commandLine fromFileName toFileName errorRate remoteMachine remotePort
        windowSize bufferSize) = some setupInfo ∧
      connectBuf setupInfo = some packet ∧
      ∀ (s : ServerLoop) (arrival : Arrival), arrival.datagram = packet →
        s.pidCount ≤ 10 → arrival.forked = true →
        (processClient s arrival).1 =
          [.fork arrival.client fromFileName windowSize bufferSize] := by
  obtain ⟨hwindows, hbuffers⟩ := ofInt_atoi_decimal (show windowSize.toNat < 2 ^ 31 by omega)
    bufferSize
  refine ⟨processArgs fromFileName windowSize bufferSize, _, ?_,
    connectBuf_eq hzero hname windowSize bufferSize, ?_⟩
  · rw [commandLine, processArgv, hwindows, hbuffers]
  · intro s arrival harrival hcount hforked
    obtain ⟨-, -, -, hfork⟩ := request_arrives (s := s) hname harrival hzero hwindow
    exact hfork ⟨flag_request (s := s) hname harrival, hcount, hforked⟩

theorem commandLine_arrives_f :
    ∃ setupInfo packet,
      processArgv (commandLine [102] [103] [48] [104] [53] 10 1000) = some setupInfo ∧
      connectBuf setupInfo = some packet ∧
      ∀ (s : ServerLoop) (arrival : Arrival), arrival.datagram = packet →
        s.pidCount ≤ 10 → arrival.forked = true →
        (processClient s arrival).1 = [.fork arrival.client [102] 10 1000] :=
  commandLine_arrives (by decide) (by decide) (by decide) 1000 [103] [48] [104] [53]

end Cpe464.Transfer
