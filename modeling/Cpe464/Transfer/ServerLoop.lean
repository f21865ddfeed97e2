import Cpe464.Framework.Observation
import Cpe464.Transfer.FileSender

/-!
# The receive loop of the server

`processClient` takes one datagram after another. A connect request makes it fork a child that
runs `handleSend`, at most eleven times; a data packet is answered; any other flag is passed over.
What it observes of a request is the file name, the window size and the buffer size.
-/

namespace Cpe464.Transfer

open Observation

/-- A datagram and its sender, with what the environment contributes to processing it: whether
`fork` makes a child, and what the two calls of `strlen` find behind a `fromFileName` that has no
terminator. -/
structure Arrival where
  datagram : List UInt8
  client : Nat
  forked : Bool
  windowOverrun : Nat
  bufferOverrun : Nat

/-- A packet sent, or a child started on a file. -/
inductive ServerEvent where
  | sendto (client : Nat) (packet : List UInt8)
  | fork (client : Nat) (fileName : List UInt8) (windowSize : UInt32) (bufferSize : UInt16)
  deriving DecidableEq

/-- The locals of `processClient` that live across the turns of its loop. -/
structure ServerLoop where
  buf : List UInt8
  length_buf : buf.length = serverMaxBuf + 1
  setupInfo : SetupInfo
  pidCount : UInt8

/-- The server before its first datagram, on a stack of zero bytes. -/
def serverStart : ServerLoop where
  buf := List.replicate (serverMaxBuf + 1) 0
  length_buf := List.length_replicate
  setupInfo := ⟨List.replicate 100 0, 0, 0⟩
  pidCount := 0

def nameLength (fromFileName : List UInt8) (overrun : Nat) : Nat :=
  (strlen fromFileName).getD overrun

/-- What a connect request sets in `setupInfo`. -/
def connect (buf : List UInt8) (arrival : Arrival) : SetupInfo :=
  let fromFileName := slice buf 7 100
  { fromFileName
    windowSize := UInt32.ofNat
      (ntohl (ofLE (slice buf (7 + nameLength fromFileName arrival.windowOverrun) 4)))
    bufferSize := UInt16.ofNat
      (ntohs (ofLE (slice buf (11 + nameLength fromFileName arrival.bufferOverrun) 2))) }

def msgWasReceived : List UInt8 :=
  [77, 83, 71, 32, 87, 65, 83, 32, 82, 69, 67, 69, 73, 86, 69, 68, 0]

/-- One turn of the loop of `processClient`. -/
def processClient (s : ServerLoop) (arrival : Arrival) : List ServerEvent × ServerLoop :=
  let buf := landed serverMaxBuf s.buf arrival.datagram
  let s : ServerLoop := { s with
    buf, length_buf := length_landed s.length_buf (by decide) arrival.datagram }
  let flag := (header buf).flag
  if flag = 8 then
    let s := { s with setupInfo := connect buf arrival }
    if s.pidCount ≤ 10 ∧ arrival.forked = true then
      ([.fork arrival.client (requestedFile buf) s.setupInfo.windowSize s.setupInfo.bufferSize],
        { s with pidCount := s.pidCount + 1 })
    else ([], s)
  else if flag = 16 then ([.sendto arrival.client (sendData msgWasReceived 17 0 9)], s)
  else ([], s)

/-! ## One turn -/

def Forks (s : ServerLoop) (arrival : Arrival) : Prop :=
  byteAt (landed serverMaxBuf s.buf arrival.datagram) 6 = 8 ∧ s.pidCount ≤ 10 ∧
    arrival.forked = true

instance (s : ServerLoop) (arrival : Arrival) : Decidable (Forks s arrival) :=
  inferInstanceAs (Decidable (_ ∧ _ ∧ _))

theorem processClient_buf (s : ServerLoop) (arrival : Arrival) :
    (processClient s arrival).2.buf = landed serverMaxBuf s.buf arrival.datagram := by
  simp only [processClient]
  split_ifs <;> rfl

theorem processClient_pidCount (s : ServerLoop) (arrival : Arrival) :
    (processClient s arrival).2.pidCount =
      if Forks s arrival then s.pidCount + 1 else s.pidCount := by
  simp only [processClient, Forks, header]
  split_ifs <;> simp_all

/-- The three things a turn can do. -/
theorem processClient_output (s : ServerLoop) (arrival : Arrival) :
    (processClient s arrival).1 =
      let buf := landed serverMaxBuf s.buf arrival.datagram
      if Forks s arrival then
        [.fork arrival.client (requestedFile buf) (connect buf arrival).windowSize
          (connect buf arrival).bufferSize]
      else if byteAt buf 6 = 16 then [.sendto arrival.client (sendData msgWasReceived 17 0 9)]
      else [] := by
  simp only [processClient, Forks, header]
  split_ifs <;> simp_all

end Cpe464.Transfer
