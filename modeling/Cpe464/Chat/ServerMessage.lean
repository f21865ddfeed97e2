import Cpe464.Chat.Client
import Cpe464.Chat.Reception
import Cpe464.Framework.CString

/-!
# Messages from the server

`processMsgFromServer` receives a PDU and prints what its flag says. The result of `recvPDU` becomes
a `uint16_t`, so that the only test on it sees neither that it was negative nor that it was cut.
-/

namespace Cpe464.Chat.Client

/-- What a call of `processMsgFromServer` prints. -/
inductive Shown
  | serverTerminated
  | handleReceived
  | handleDenied
  | broadcast (handle message : List UInt8)
  | message (handle message : List UInt8)
  | userNotFound
  | listStart (handleNum : Int)
  | listed (handle : List UInt8)
  | listEnd
  deriving DecidableEq

/-- What the arrays of the display routines hold before they are written. -/
structure DisplayStack where
  tmpHandle : List UInt8
  senderHandle : List UInt8

/-- `%s` of an array: nothing is defined without a terminator inside it. -/
def printString (memory : List UInt8) : Option (List UInt8) :=
  if 0 ∈ memory then some (cString memory) else none

/-- The copy of a handle that `printBcast` and `printHandle` make. -/
def copyTmpHandle (stack : DisplayStack) (buf : List UInt8) : Option (List UInt8) := do
  let handleLen := (byteAt buf 3).toNat
  let tmpHandle ← store stack.tmpHandle 0 (slice buf 4 handleLen)
  store tmpHandle handleLen [0]

def printBcast (stack : DisplayStack) (buf : List UInt8) : Option Shown := do
  let tmpHandle ← copyTmpHandle stack buf
  let handle ← printString tmpHandle
  let message ← printString (buf.drop (4 + (byteAt buf 3).toNat))
  return .broadcast handle message

def printHandle (stack : DisplayStack) (buf : List UInt8) : Option Shown := do
  let tmpHandle ← copyTmpHandle stack buf
  let handle ← printString tmpHandle
  return .listed handle

/-- `%d` of the number in network order behind the flag. -/
def printHandleNumber (buf : List UInt8) : Shown :=
  .listStart (Int.bmod (ntohl (ofLE (slice buf 3 4))) (2 ^ 32))

/-- What `multicast` prints: the array with the sender's handle and the 200 bytes of the message. -/
def printMulticast (stack : DisplayStack) (buf : List UInt8) : Option Shown := do
  let read := multicast buf
  let senderHandle ← store stack.senderHandle 0 read.senderHandle
  let senderHandle ← store senderHandle read.terminator [0]
  let handle ← printString senderHandle
  let message ← printString read.senderMessage
  return .message handle message

/-- The switch of `processMsgFromServer`: what is printed, and whether the client exits. -/
def dispatch (stack : DisplayStack) (buf : List UInt8) : Option (List Shown) × Bool :=
  match (byteAt buf 2).toNat with
  | 2 => (some [.handleReceived], false)
  | 3 => (some [.handleDenied], true)
  | 4 => ((printBcast stack buf).map ([·]), false)
  | 5 => ((printMulticast stack buf).map ([·]), false)
  | 6 => ((printMulticast stack buf).map ([·]), false)
  | 7 => (some [.userNotFound], false)
  | 11 => (some [printHandleNumber buf], false)
  | 12 => ((printHandle stack buf).map ([·]), false)
  | 13 => (some [.listEnd], false)
  | _ => (some [], false)

/-- What a call of `processMsgFromServer` does: the flag it switches on, what it prints, whether the
client exits and the stream it leaves. -/
structure ServerMessage where
  flag : Option UInt8
  shown : Option (List Shown)
  exits : Bool
  rest : List UInt8

/-- `processMsgFromServer`, with what its buffer holds before and the local of `recvPDU`. -/
def processMsgFromServer (stream buf : List UInt8) (uninit : Nat) (stack : DisplayStack) :
    ServerMessage :=
  let call := recvPDU stream buf 1024 uninit
  let len := (call.ret % 65536).toNat
  if len = 0 then
    { flag := none, shown := some [.serverTerminated], exits := true, rest := call.rest }
  else
    { flag := some (byteAt call.dataBuffer 2)
      shown := (dispatch stack call.dataBuffer).1
      exits := (dispatch stack call.dataBuffer).2
      rest := call.rest }

/-! ## The flag byte -/

/-- The calls of `recv` that `recvPDU` makes stored this byte at this place of the buffer. -/
def StoredAt (calls : List RecvCall) (i : Nat) (b : UInt8) : Prop :=
  ∃ call ∈ calls, call.offset ≤ i ∧ i < call.offset + call.stored.length ∧
    byteAt call.stored (i - call.offset) = b

/-- The client switches on a flag only if `recvPDU` did not reject the stream and stored the
flag. -/
def ActsOnReceived (stream buf : List UInt8) (uninit : Nat) (stack : DisplayStack) : Prop :=
  ∀ flag, (processMsgFromServer stream buf uninit stack).flag = some flag →
    (recvPDU stream buf 1024 uninit).ret ≠ -1 ∧ StoredAt (recvCalls stream buf 1024 uninit) 2 flag

private theorem flag_eq_some {stream buf : List UInt8} {uninit : Nat} {stack : DisplayStack}
    {flag : UInt8} (h : (processMsgFromServer stream buf uninit stack).flag = some flag) :
    ((recvPDU stream buf 1024 uninit).ret % 65536).toNat ≠ 0 ∧
      flag = byteAt (recvPDU stream buf 1024 uninit).dataBuffer 2 := by
  by_cases hlen : ((recvPDU stream buf 1024 uninit).ret % 65536).toNat = 0
  · simp only [processMsgFromServer, if_pos hlen] at h
    cases h
  · simp only [processMsgFromServer, if_neg hlen] at h
    exact ⟨hlen, (Option.some.inj h).symm⟩

theorem recvCalls_payload {stream buf : List UInt8} (hne : stream ≠ []) (hbuffer : 2 ≤ buf.length)
    {bufferSize : Nat} (hfit : lengthSeen stream buf ≤ bufferSize) (uninit : Nat) :
    recvCalls stream buf bufferSize uninit =
      [recvCall stream 0 2, recvCall (stream.drop 2) 2 ((lengthSeen stream buf : Int) - 2)] := by
  have hvalue := ntohs_announced (overlay buf 0 (stream.take 2))
    (by rw [length_overlay_header stream buf hbuffer]; exact hbuffer) (uninit / 65536)
  change _ = lengthSeen stream buf at hvalue
  have htwo : toSize 2 = 2 := rfl
  have hsome : ((stream.take 2).length : Int) > 0 := by
    have := List.length_pos_iff.mpr hne
    rw [List.length_take]
    omega
  have hroom : ¬(bufferSize : Int) < (lengthSeen stream buf : Int) := by omega
  simp only [recvCalls, safeRecv, htwo, hvalue, if_pos hsome, if_neg hroom]

/-- The client acts on received flags exactly when the stream is empty or the length that `recvPDU`
sees fits the buffer. -/
theorem processMsgFromServer_actsOnReceived_iff (stream buf : List UInt8) (uninit : Nat)
    (stack : DisplayStack) (hbuffer : buf.length = 1024) :
    ActsOnReceived stream buf uninit stack ↔ stream = [] ∨ lengthSeen stream buf ≤ 1024 := by
  by_cases hempty : stream = []
  · refine iff_of_true ?_ (.inl hempty)
    intro flag hflag
    obtain ⟨hlen, -⟩ := flag_eq_some hflag
    rw [hempty, recvPDU_eq _ _ _ _ (by omega), if_pos rfl] at hlen
    exact absurd rfl hlen
  · have hret := recvPDU_ret hempty buf 1024 uninit (by omega)
    have heq := recvPDU_eq stream buf 1024 uninit (by omega)
    simp only [if_neg hempty] at heq
    by_cases hlarge : 1024 < lengthSeen stream buf
    · rw [if_pos (by omega)] at hret
      refine iff_of_false ?_ (not_or.mpr ⟨hempty, by omega⟩)
      intro h
      -- As a `uint16_t` the error is 65535 and passes the test.
      refine (h (byteAt (recvPDU stream buf 1024 uninit).dataBuffer 2) ?_).1 hret
      rw [processMsgFromServer, hret]
      rfl
    · rw [if_neg (by omega)] at hret heq
      refine iff_of_true ?_ (.inr (by omega))
      intro flag hflag
      obtain ⟨hlen, rfl⟩ := flag_eq_some hflag
      refine ⟨by omega, ?_⟩
      have hfit : lengthSeen stream buf ≤ 1024 := by omega
      have hcalls := recvCalls_payload hempty (by omega) hfit uninit
      have hheader := length_overlay_header stream buf (by omega)
      refine ⟨recvCall (stream.drop 2) 2 ((lengthSeen stream buf : Int) - 2), ?_, Nat.le_refl _,
        ?_, ?_⟩
      · change _ ∈ recvCalls stream buf (1024 : Nat) uninit
        rw [hcalls]
        simp
      · simp only [recvCall, List.length_take, List.length_drop]
        omega
      · have hstored := byteAt_overlay_inside (overlay buf 0 (stream.take 2))
          ((stream.drop 2).take (toSize ((lengthSeen stream buf : Int) - 2))) 2 0 (by omega)
          (by rw [List.length_take, List.length_drop]; omega)
        rw [heq]
        exact hstored.symm

/-- A message of two bytes, with the notice that a handle was not found. -/
theorem processMsgFromServer_actsOnReceived_notice :
    ActsOnReceived [0, 3, 7] (List.replicate 1024 3) 0 ⟨[], []⟩ :=
  (processMsgFromServer_actsOnReceived_iff [0, 3, 7] (List.replicate 1024 3) 0 ⟨[], []⟩
    List.length_replicate).mpr (.inr (by decide +kernel))

def staleMessage : ServerMessage :=
  processMsgFromServer [4, 1] (List.replicate 1024 3) 0 ⟨[], []⟩

/-- A length of 1025 is refused, and a flag from an earlier use of the stack ends the client. -/
theorem refused_length_dispatched :
    staleMessage.flag = some 3 ∧ staleMessage.exits = true ∧
      ¬ActsOnReceived [4, 1] (List.replicate 1024 3) 0 ⟨[], []⟩ := by
  have hflag : staleMessage.flag = some 3 := by decide +kernel
  have hret : (recvPDU [4, 1] (List.replicate 1024 3) 1024 0).ret = -1 := by decide +kernel
  refine ⟨hflag, by decide +kernel, ?_⟩
  intro h
  exact (h 3 hflag).1 hret

end Cpe464.Chat.Client
