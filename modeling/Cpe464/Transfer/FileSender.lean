import Cpe464.Framework.CString
import Cpe464.Transfer.Receive

/-!
# The file sender

`handleSend` runs in a child of the server. It allocates one slot for each place in the window,
answers the connect request, and then takes one datagram for each wake-up of `pollCall`; the inner
loop of a wake-up reads blocks of the file and sends them.
-/

namespace Cpe464.Transfer

/-- The fields of `setupInfo_t` that a connect request sets. -/
structure SetupInfo where
  fromFileName : List UInt8
  windowSize : UInt32
  bufferSize : UInt16
  deriving DecidableEq

/-- What `handleSend` does. A block is recorded with its sequence number and the slot it is read
into, which need not be inside the window. -/
inductive SendEvent where
  | response (packet : List UInt8)
  | readUnsetHeader
  | readNullFile
  | data (sequence slot : Nat) (packet : List UInt8)
  deriving DecidableEq

/-- A turn of the outer loop: `udpHeader` is never set, so the flag is whatever it points at. -/
structure WakeUp where
  flag : UInt8
  datagram : List UInt8

structure Sender where
  file : List UInt8
  seq : Nat
  rrBuf : Nat
  buf : List UInt8
  window : List (List UInt8)

/-- The `while (fread(...))` loop; `fread` returns zero at the end of the file. The window bounds
`lower` and `upper` that the loop computes are not read anywhere. -/
def sendBlocks (bufferSize : UInt16) : Nat → Sender → List SendEvent × Sender
  | 0, s => ([], s)
  | fuel + 1, s =>
    let block := s.file.take bufferSize.toNat
    if block.isEmpty then ([], s)
    else
      let slot := overlay (s.window.getD s.seq []) 0 block
      let packet := sendData slot bufferSize (UInt32.ofNat s.seq) 16
      let sent := sendBlocks bufferSize fuel
        { s with
          file := s.file.drop bufferSize.toNat
          seq := s.seq + 1
          window := s.window.set s.seq slot }
      (.data s.seq s.seq packet :: sent.1, sent.2)

/-- The body of the outer loop: the RR number is taken out of `buf` before the next datagram is
received into it. -/
def wakeUp (bufferSize : UInt16) (s : Sender) (input : WakeUp) : List SendEvent × Sender :=
  let rrBuf := if input.flag = 5 then ntohl (ofLE (slice s.buf 7 4)) else s.rrBuf
  let buf := safeRecvfrom s.buf serverMaxBuf input.datagram
  let sent := sendBlocks bufferSize s.file.length { s with rrBuf, buf }
  (.readUnsetHeader :: sent.1, sent.2)

/-- The outer loop, one list of events for each wake-up. It ends when `pollCall` times out. -/
def sendLoop (bufferSize : UInt16) : Sender → List WakeUp → List (List SendEvent)
  | _, [] => []
  | s, input :: inputs =>
    let sent := wakeUp bufferSize s input
    sent.1 :: sendLoop bufferSize sent.2 inputs

def goodFile : List UInt8 := [71, 79, 79, 68, 32, 70, 73, 76, 69]

def badFile : List UInt8 := [66, 65, 68, 32, 70, 73, 76, 69]

/-- The name `handleSend` opens: up to 100 bytes behind the header. -/
def requestedFile (buf : List UInt8) : List UInt8 := cString (slice buf 7 100)

/-- A whole run: the connect response and the events of each wake-up. -/
structure Sending where
  response : SendEvent
  wakeUps : List (List SendEvent)
  deriving DecidableEq

/-- `handleSend`, on a file system and on a heap that gives the initial bytes of every slot. The
`int` that counts the slots overflows on a window of 2^31 or more. Without a file the first wake-up
reads the null stream, and nothing is left to run. -/
def handleSend (fopen : List UInt8 → Option (List UInt8)) (heap : Nat → Nat → UInt8)
    (setupInfo : SetupInfo) (buf : List UInt8) (inputs : List WakeUp) : Option Sending :=
  if 2 ^ 31 ≤ setupInfo.windowSize.toNat then none
  else
    match fopen (requestedFile buf) with
    | some file =>
      let window := (List.range setupInfo.windowSize.toNat).map fun i =>
        (List.range setupInfo.bufferSize.toNat).map (heap i)
      some {
        response := .response (sendData goodFile 9 0 9)
        wakeUps := sendLoop setupInfo.bufferSize
          { file, seq := 0, rrBuf := 0, buf, window } inputs }
    | none =>
      some {
        response := .response (sendData badFile 8 0 9)
        wakeUps :=
          match inputs with
          | [] => []
          | _ :: _ => [[.readUnsetHeader, .readNullFile]] }

theorem handleSend_overflow (fopen : List UInt8 → Option (List UInt8)) (heap : Nat → Nat → UInt8)
    (setupInfo : SetupInfo) (buf : List UInt8) (inputs : List WakeUp)
    (hsize : 2 ^ 31 ≤ setupInfo.windowSize.toNat) :
    handleSend fopen heap setupInfo buf inputs = none := by
  unfold handleSend
  rw [if_pos hsize]

theorem handleSend_file (fopen : List UInt8 → Option (List UInt8)) (heap : Nat → Nat → UInt8)
    (setupInfo : SetupInfo) (buf file : List UInt8) (inputs : List WakeUp)
    (hsize : setupInfo.windowSize.toNat < 2 ^ 31) (hopen : fopen (requestedFile buf) = some file) :
    handleSend fopen heap setupInfo buf inputs = some {
      response := .response (sendData goodFile 9 0 9)
      wakeUps := sendLoop setupInfo.bufferSize
        { file, seq := 0, rrBuf := 0, buf
          window := (List.range setupInfo.windowSize.toNat).map fun i =>
            (List.range setupInfo.bufferSize.toNat).map (heap i) } inputs } := by
  unfold handleSend
  rw [if_neg (by omega), hopen]

theorem length_slot (heap : Nat → Nat → UInt8) (bufferSize : UInt16) {windowSize j : Nat}
    (hj : j < windowSize) :
    (((List.range windowSize).map fun i =>
      (List.range bufferSize.toNat).map (heap i)).getD j []).length = bufferSize.toNat := by
  rw [List.getD_eq_getElem?_getD, List.getElem?_map, List.getElem?_range hj, Option.map_some,
    Option.getD_some, List.length_map, List.length_range]

/-! ## The inner loop -/

def blockCount (bufferSize : UInt16) (file : List UInt8) : Nat :=
  (file.length + (bufferSize.toNat - 1)) / bufferSize.toNat

/-- The `j`th block that the inner loop sends from a state. -/
def blockSent (bufferSize : UInt16) (s : Sender) (j : Nat) : SendEvent :=
  let block := slice s.file (j * bufferSize.toNat) bufferSize.toNat
  .data (s.seq + j) (s.seq + j)
    (sendData (overlay (s.window.getD (s.seq + j) []) 0 block) bufferSize
      (UInt32.ofNat (s.seq + j)) 16)

@[simp] theorem blockCount_nil (bufferSize : UInt16) (h : 1 ≤ bufferSize.toNat) :
    blockCount bufferSize [] = 0 := by
  rw [blockCount, List.length_nil]
  exact Nat.div_eq_of_lt (by omega)

private theorem blockCount_drop {bufferSize : UInt16} {file : List UInt8} (h : 1 ≤ bufferSize.toNat)
    (hfile : 1 ≤ file.length) :
    blockCount bufferSize file = blockCount bufferSize (file.drop bufferSize.toNat) + 1 := by
  rw [blockCount, blockCount, List.length_drop]
  by_cases hlast : file.length ≤ bufferSize.toNat
  · have hnone : (file.length - bufferSize.toNat + (bufferSize.toNat - 1)) / bufferSize.toNat = 0 :=
      Nat.div_eq_of_lt (by omega)
    rw [hnone, Nat.div_eq_iff h]
    omega
  · rw [show file.length + (bufferSize.toNat - 1) =
        file.length - bufferSize.toNat + (bufferSize.toNat - 1) + bufferSize.toNat by omega,
      Nat.add_div_right _ h]

private theorem blockSent_succ (bufferSize : UInt16) (s : Sender) (slot : List UInt8) (j : Nat) :
    blockSent bufferSize
      { s with
        file := s.file.drop bufferSize.toNat
        seq := s.seq + 1
        window := s.window.set s.seq slot } j = blockSent bufferSize s (j + 1) := by
  have hslot : (s.window.set s.seq slot).getD (s.seq + (j + 1)) [] =
      s.window.getD (s.seq + (j + 1)) [] := by
    rw [List.getD_eq_getElem?_getD, List.getD_eq_getElem?_getD,
      List.getElem?_set_ne (by omega)]
  have hblock : slice (s.file.drop bufferSize.toNat) (j * bufferSize.toNat) bufferSize.toNat =
      slice s.file ((j + 1) * bufferSize.toNat) bufferSize.toNat := by
    rw [slice, slice, List.drop_drop, Nat.succ_mul, Nat.add_comm]
  simp only [blockSent, show s.seq + 1 + j = s.seq + (j + 1) by omega, hslot, hblock]

/-- With fuel for every byte the inner loop sends the whole rest of the file, block by block. -/
private theorem sendBlocks_spec {bufferSize : UInt16} (h : 1 ≤ bufferSize.toNat) (fuel : Nat)
    (s : Sender) (hfuel : s.file.length ≤ fuel) :
    (sendBlocks bufferSize fuel s).1 =
        (List.range (blockCount bufferSize s.file)).map (blockSent bufferSize s) ∧
      (sendBlocks bufferSize fuel s).2.file = [] := by
  induction fuel generalizing s with
  | zero =>
    have hfile : s.file = [] := List.length_eq_zero_iff.mp (by omega)
    simp [sendBlocks, hfile, h]
  | succ fuel ih =>
    by_cases hempty : s.file = []
    · simp [sendBlocks, hempty, h]
    · have hfile : 1 ≤ s.file.length := List.length_pos_iff.mpr hempty
      have hblock : (s.file.take bufferSize.toNat).isEmpty = false := by
        rw [List.isEmpty_eq_false_iff, ← List.length_pos_iff, List.length_take]
        omega
      let slot := overlay (s.window.getD s.seq []) 0 (s.file.take bufferSize.toNat)
      obtain ⟨hsent, hrest⟩ := ih
        { s with
          file := s.file.drop bufferSize.toNat
          seq := s.seq + 1
          window := s.window.set s.seq slot }
        (by rw [List.length_drop]; omega)
      simp only [sendBlocks, hblock, Bool.false_eq_true, if_false]
      refine ⟨?_, hrest⟩
      rw [hsent, blockCount_drop h hfile, List.range_succ_eq_map, List.map_cons, List.map_map]
      congr 1
      · simp [blockSent, slice]
      · apply List.map_congr_left
        intro j _
        exact blockSent_succ bufferSize s slot j

/-! ## The outer loop -/

theorem wakeUp_spec {bufferSize : UInt16} (h : 1 ≤ bufferSize.toNat) (s : Sender)
    (input : WakeUp) :
    (wakeUp bufferSize s input).1 = .readUnsetHeader ::
        (List.range (blockCount bufferSize s.file)).map (blockSent bufferSize s) ∧
      (wakeUp bufferSize s input).2.file = [] := by
  obtain ⟨hsent, hrest⟩ := sendBlocks_spec h s.file.length
    { s with
      rrBuf := if input.flag = 5 then ntohl (ofLE (slice s.buf 7 4)) else s.rrBuf
      buf := safeRecvfrom s.buf serverMaxBuf input.datagram } (Nat.le_refl _)
  exact ⟨congrArg (SendEvent.readUnsetHeader :: ·) hsent, hrest⟩

private theorem sendLoop_exhausted {bufferSize : UInt16} (h : 1 ≤ bufferSize.toNat) (s : Sender)
    (hfile : s.file = []) (inputs : List WakeUp) :
    sendLoop bufferSize s inputs = inputs.map fun _ => [.readUnsetHeader] := by
  induction inputs generalizing s with
  | nil => rfl
  | cons input inputs ih =>
    obtain ⟨hsent, hrest⟩ := wakeUp_spec h s input
    rw [hfile, blockCount_nil _ h, List.range_zero, List.map_nil] at hsent
    rw [sendLoop, List.map_cons, hsent, ih _ hrest]

/-- The first wake-up sends the whole file, the others nothing. -/
theorem sendLoop_cons {bufferSize : UInt16} (h : 1 ≤ bufferSize.toNat) (s : Sender)
    (input : WakeUp) (inputs : List WakeUp) :
    sendLoop bufferSize s (input :: inputs) =
      (.readUnsetHeader ::
        (List.range (blockCount bufferSize s.file)).map (blockSent bufferSize s)) ::
        inputs.map fun _ => [.readUnsetHeader] := by
  obtain ⟨hsent, hrest⟩ := wakeUp_spec h s input
  rw [sendLoop, hsent, sendLoop_exhausted h _ hrest]

/-! ## What a run depends on -/

private theorem sendBlocks_frame (bufferSize : UInt16) (fuel : Nat) (s : Sender) (rrBuf : Nat)
    (buf : List UInt8) :
    sendBlocks bufferSize fuel { s with rrBuf, buf } =
      ((sendBlocks bufferSize fuel s).1, { (sendBlocks bufferSize fuel s).2 with rrBuf, buf }) := by
  induction fuel generalizing s with
  | zero => rfl
  | succ fuel ih =>
    by_cases hblock : (s.file.take bufferSize.toNat).isEmpty = true
    · simp only [sendBlocks, hblock, if_true]
    · simp only [sendBlocks, hblock, Bool.false_eq_true, if_false]
      rw [ih { s with
        file := s.file.drop bufferSize.toNat
        seq := s.seq + 1
        window := s.window.set s.seq
          (overlay (s.window.getD s.seq []) 0 (s.file.take bufferSize.toNat)) }]

private theorem sendLoop_frame (bufferSize : UInt16) (s : Sender) (rrBuf : Nat) (buf : List UInt8)
    (inputs : List WakeUp) :
    sendLoop bufferSize { s with rrBuf, buf } inputs = sendLoop bufferSize s inputs := by
  induction inputs generalizing s rrBuf buf with
  | nil => rfl
  | cons input inputs ih =>
    have hframe (rrBuf : Nat) (buf : List UInt8) :=
      sendBlocks_frame bufferSize s.file.length s
        (if input.flag = 5 then ntohl (ofLE (slice buf 7 4)) else rrBuf)
        (safeRecvfrom buf serverMaxBuf input.datagram)
    simp only [sendLoop, wakeUp]
    rw [hframe rrBuf buf, hframe s.rrBuf s.buf]
    exact congrArg _ ((ih _ _ _).trans (ih _ _ _).symm)

/-- The file name and the two sizes of the request are all that a run of `handleSend` takes from
its arguments. -/
theorem handleSend_congr (fopen : List UInt8 → Option (List UInt8)) (heap : Nat → Nat → UInt8)
    {setupInfo setupInfo' : SetupInfo} {buf buf' : List UInt8} (inputs : List WakeUp)
    (hfile : requestedFile buf = requestedFile buf')
    (hwindow : setupInfo.windowSize = setupInfo'.windowSize)
    (hbuffer : setupInfo.bufferSize = setupInfo'.bufferSize) :
    handleSend fopen heap setupInfo buf inputs = handleSend fopen heap setupInfo' buf' inputs := by
  unfold handleSend
  rw [hfile, hwindow, hbuffer]
  cases fopen (requestedFile buf') with
  | none => rfl
  | some file =>
    have hbuf (window : List (List UInt8)) :
        sendLoop setupInfo'.bufferSize ⟨file, 0, 0, buf, window⟩ inputs =
          sendLoop setupInfo'.bufferSize ⟨file, 0, 0, buf', window⟩ inputs :=
      sendLoop_frame setupInfo'.bufferSize ⟨file, 0, 0, buf', window⟩ 0 buf inputs
    simp only [hbuf]

end Cpe464.Transfer
