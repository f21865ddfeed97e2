import Cpe464.Framework.Bytes
import Cpe464.Framework.Chunks

/-!
# The chat client

`messageSend` of the client turns a command line into PDUs: a header with the sender and the
recipients, and as much of the text as fits a buffer of 200 bytes. `multicast` reads such a PDU.
An access outside a buffer of the encoder ends it without a result. The input pointer of the
source is the list of the bytes of the line buffer from it on.
-/

namespace Cpe464.Chat.Client

/-- The inner loop of `messageSend`: copy a handle up to the space behind it. -/
def copyHandle : List UInt8 → List UInt8 → Nat → Nat →
    Option (List UInt8 × List UInt8 × Nat × Nat)
  | [], _, _, _ => none
  | c :: input, buf, bufPointer, handleLenCount =>
      if c = 32 then some (c :: input, buf, bufPointer, handleLenCount)
      else
        match store buf bufPointer [c] with
        | none => none
        | some buf => copyHandle input buf (bufPointer + 1) (handleLenCount + 1)

/-- The loop of `messageSend` over the next `n` handles: each is copied behind a free byte, which
takes its length afterwards. -/
def copyHandles : Nat → List UInt8 → List UInt8 → Nat → Option (List UInt8 × List UInt8 × Nat)
  | 0, input, buf, bufPointer => some (input, buf, bufPointer)
  | n + 1, input, buf, bufPointer =>
      match copyHandle input buf (bufPointer + 1) 0 with
      | none => none
      | some (input, buf, bufPointer, handleLenCount) =>
        match store buf (bufPointer - handleLenCount - 1) [UInt8.ofNat handleLenCount] with
        | none => none
        | some buf => copyHandles n (input.drop 1) buf bufPointer

/-- Clear the next `n` bytes behind `bufPointer`. -/
def clearText : Nat → List UInt8 → Nat → Option (List UInt8)
  | 0, buf, _ => some buf
  | n + 1, buf, bufPointer =>
      match store buf (bufPointer + 1) [0] with
      | none => none
      | some buf => clearText n buf (bufPointer + 1)

/-- The loop of `messageSend` over the next `n` bytes of the text, with the payloads it sends. A
buffer that is full is sent and its text cleared; what is left is sent in the end. -/
def sendText (headerEnd : Nat) : Nat → List UInt8 → List UInt8 → Nat → Option (List (List UInt8))
  | 0, _, buf, bufPointer => some [buf.take bufPointer]
  | _ + 1, [], _, _ => none
  | n + 1, c :: input, buf, bufPointer =>
      match store buf bufPointer [c] with
      | none => none
      | some buf =>
        if bufPointer + 1 ≥ 199 then
          match clearText (199 - headerEnd) buf headerEnd with
          | none => none
          | some cleared =>
            match sendText headerEnd n input cleared headerEnd with
            | none => none
            | some payloads => some (buf.take (bufPointer + 1) :: payloads)
        else sendText headerEnd n input buf (bufPointer + 1)

/-- The flag of the message: 5 for `%M`, 6 for `%C`. -/
def storeFlag (buf : List UInt8) (mode : UInt8) : Option (List UInt8) :=
  if mode = 1 then store buf 0 [5] else if mode = 2 then store buf 0 [6] else some buf

/-- `messageSend` of the client: the payloads of its `sendPDU` calls. `buf` is what its buffer of
200 bytes holds before. -/
def messageSend (myHandle : List UInt8) (bufferLength : UInt16) (inputBuffer : List UInt8)
    (mode : UInt8) (buf : List UInt8) : Option (List (List UInt8)) := do
  let handleNum : Int := if mode = 1 then 1 else ((byteAt inputBuffer 3).toNat : Int) - 48
  let buf ← store buf 1 [UInt8.ofNat myHandle.length]
  let buf ← store buf 2 myHandle
  let buf ← store buf (2 + myHandle.length) [UInt8.ofNat (handleNum % 256).toNat]
  let buf ← storeFlag buf mode
  let inputPointer := if mode = 1 then 3 else 5
  let (input, buf, headerEnd) ←
    copyHandles handleNum.toNat (inputBuffer.drop inputPointer) buf (2 + myHandle.length + 1)
  let inputPointer := inputBuffer.length - input.length
  sendText headerEnd (bufferLength.toNat - inputPointer) input buf headerEnd

/-- What `messageSend` has done in front of its text loop: the input from the text on, the buffer
and `headerEnd`. -/
def encodeHeader (myHandle inputBuffer : List UInt8) (mode : UInt8) (buf : List UInt8) :
    Option (List UInt8 × List UInt8 × Nat) := do
  let handleNum : Int := if mode = 1 then 1 else ((byteAt inputBuffer 3).toNat : Int) - 48
  let buf ← store buf 1 [UInt8.ofNat myHandle.length]
  let buf ← store buf 2 myHandle
  let buf ← store buf (2 + myHandle.length) [UInt8.ofNat (handleNum % 256).toNat]
  let buf ← storeFlag buf mode
  let inputPointer := if mode = 1 then 3 else 5
  copyHandles handleNum.toNat (inputBuffer.drop inputPointer) buf (2 + myHandle.length + 1)

/-- `sendBroadcast`: the payloads of its `sendPDU` calls. -/
def sendBroadcast (myHandle : List UInt8) (bufferLength : UInt16) (inputBuffer buf : List UInt8) :
    Option (List (List UInt8)) := do
  let buf ← store buf 0 [4]
  let buf ← store buf 1 [UInt8.ofNat myHandle.length]
  let buf ← store buf 2 myHandle
  let headerEnd := 2 + myHandle.length
  sendText headerEnd (bufferLength.toNat - 3) (inputBuffer.drop 3) buf headerEnd

/-- What `multicast` reads from a message. -/
structure Multicast where
  senderHandle : List UInt8
  terminator : Nat
  readerLocation : Nat
  senderMessage : List UInt8

/-- The loop of `multicast` over the next `n` handles; the reader is a `uint8_t`. -/
def skipHandles (buf : List UInt8) : Nat → Nat → Nat
  | 0, readerLocation => readerLocation
  | n + 1, readerLocation =>
      skipHandles buf n ((readerLocation + ((byteAt buf readerLocation).toNat + 1)) % 256)

/-- `multicast`. The terminator of the sender's handle is stored one byte too far. -/
def multicast (buf : List UInt8) : Multicast :=
  let senderHandleLen := (byteAt buf 3).toNat
  let handleListStart := (4 + senderHandleLen) % 256
  let readerLocation :=
    skipHandles buf (byteAt buf handleListStart).toNat ((handleListStart + 1) % 256)
  { senderHandle := slice buf 4 senderHandleLen
    terminator := senderHandleLen + 1
    readerLocation := readerLocation
    senderMessage := slice buf readerLocation 200 }

/-! ## The layout of a message -/

/-- A handle behind its length. -/
def prefixed (handle : List UInt8) : List UInt8 := UInt8.ofNat handle.length :: handle

/-- The recipients of a message one behind the other. -/
def encodeHandles (handles : List (List UInt8)) : List UInt8 := handles.flatMap prefixed

def messageHeader (flag : UInt8) (sender : List UInt8) (handles : List (List UInt8)) :
    List UInt8 :=
  flag :: UInt8.ofNat sender.length :: sender ++ UInt8.ofNat handles.length :: encodeHandles handles

theorem encodeHandles_cons (handle : List UInt8) (handles : List (List UInt8)) :
    encodeHandles (handle :: handles) = prefixed handle ++ encodeHandles handles := rfl

@[simp] theorem length_prefixed (handle : List UInt8) :
    (prefixed handle).length = handle.length + 1 := rfl

theorem length_messageHeader (flag : UInt8) (sender : List UInt8) (handles : List (List UInt8)) :
    (messageHeader flag sender handles).length =
      2 + sender.length + 1 + (encodeHandles handles).length := by
  simp only [messageHeader, List.length_cons, List.length_append]
  omega

theorem length_le_encodeHandles (handles : List (List UInt8)) :
    handles.length ≤ (encodeHandles handles).length := by
  induction handles with
  | nil => simp
  | cons handle handles ih =>
    rw [encodeHandles_cons, List.length_append, length_prefixed, List.length_cons]
    omega

/-- The handles of a line, each in front of its space. -/
def spaced (handles : List (List UInt8)) : List UInt8 := handles.flatMap fun h => h ++ [32]

/-- The commands that `messageSend` encodes: `%M h text` and `%C d h1 .. hd text`. -/
inductive Command
  | message (handle : List UInt8)
  | multicast (handles : List (List UInt8))

namespace Command

def handles : Command → List (List UInt8)
  | message handle => [handle]
  | multicast handles => handles

/-- The mode that `processStdin` passes for the command. -/
def mode : Command → UInt8
  | message _ => 1
  | multicast _ => 2

def flag : Command → UInt8
  | message _ => 5
  | multicast _ => 6

/-- What the line holds in front of the handles. -/
def start : Command → List UInt8
  | message _ => [37, 77, 32]
  | multicast handles => [37, 67, 32, UInt8.ofNat (48 + handles.length), 32]

def line (c : Command) (text : List UInt8) : List UInt8 := c.start ++ spaced c.handles ++ text

def header (c : Command) (sender : List UInt8) : List UInt8 :=
  messageHeader c.flag sender c.handles

/-- The number of handles is a digit, and each has 1 to 99 bytes and no space or zero byte. -/
structure WellFormed (c : Command) : Prop where
  digit : c.handles.length ≤ 9
  nonempty : ∀ h ∈ c.handles, 1 ≤ h.length
  short : ∀ h ∈ c.handles, h.length ≤ 99
  noSpace : ∀ h ∈ c.handles, 32 ∉ h
  noZero : ∀ h ∈ c.handles, 0 ∉ h

end Command

/-! ## The encoder -/

private theorem copyHandle_handle (handle input written free : List UInt8) (handleLenCount : Nat)
    (hspace : 32 ∉ handle) (hfit : handle.length ≤ free.length) :
    copyHandle (handle ++ 32 :: input) (written ++ free) written.length handleLenCount =
      some (32 :: input, written ++ handle ++ free.drop handle.length,
        written.length + handle.length, handleLenCount + handle.length) := by
  induction handle generalizing written free handleLenCount with
  | nil => simp [copyHandle]
  | cons c handle ih =>
    simp only [List.mem_cons, not_or] at hspace
    rw [List.length_cons] at hfit
    have hstore := store_append written free [c] (by rw [List.length_singleton]; omega)
    have hrest := ih (written ++ [c]) (free.drop 1) (handleLenCount + 1) hspace.2
      (by rw [List.length_drop]; omega)
    rw [List.length_append, List.length_singleton] at hrest
    rw [List.cons_append, copyHandle, if_neg (Ne.symm hspace.1), hstore]
    refine hrest.trans ?_
    simp only [Option.some.injEq, Prod.mk.injEq, List.length_cons]
    refine ⟨trivial, ?_, by omega, by omega⟩
    simp

theorem copyHandles_handles (handles : List (List UInt8)) (input written free : List UInt8)
    (hspace : ∀ h ∈ handles, 32 ∉ h) (hfit : (encodeHandles handles).length ≤ free.length) :
    copyHandles handles.length (spaced handles ++ input) (written ++ free) written.length =
      some (input, written ++ encodeHandles handles ++ free.drop (encodeHandles handles).length,
        written.length + (encodeHandles handles).length) := by
  induction handles generalizing written free with
  | nil => simp [copyHandles, spaced, encodeHandles]
  | cons handle handles ih =>
    rw [encodeHandles_cons, List.length_append, length_prefixed] at hfit
    cases free with
    | nil => simp at hfit
    | cons b free =>
      rw [List.length_cons] at hfit
      have hline : spaced (handle :: handles) ++ input =
          handle ++ 32 :: (spaced handles ++ input) := by
        simp [spaced]
      have hcopy := copyHandle_handle handle (spaced handles ++ input) (written ++ [b]) free 0
        (hspace handle (by simp)) (by omega)
      rw [List.append_assoc, List.singleton_append, List.length_append, List.length_singleton,
        Nat.zero_add] at hcopy
      have hstore : store (written ++ [b] ++ handle ++ free.drop handle.length) written.length
          [UInt8.ofNat handle.length] =
            some (written ++ prefixed handle ++ free.drop handle.length) := by
        have := store_append written (b :: (handle ++ free.drop handle.length))
          [UInt8.ofNat handle.length] (by simp)
        simpa [prefixed] using this
      have hrest := ih (written ++ prefixed handle) (free.drop handle.length)
        (fun h hh => hspace h (by simp [hh])) (by rw [List.length_drop]; omega)
      rw [List.length_append, length_prefixed, Nat.add_comm handle.length 1, ← Nat.add_assoc]
        at hrest
      have hpointer : written.length + 1 + handle.length - handle.length - 1 = written.length := by
        omega
      rw [List.length_cons, copyHandles, hline, hcopy]
      simp only [hpointer, hstore]
      refine hrest.trans ?_
      simp only [Option.some.injEq, Prod.mk.injEq, encodeHandles_cons, List.length_append,
        length_prefixed]
      refine ⟨trivial, ?_, by omega⟩
      rw [List.drop_drop, List.append_assoc written, ← Nat.add_right_comm, List.drop_succ_cons]

theorem clearText_isSome (n : Nat) (written free : List UInt8)
    (hfit : n < free.length) :
    ∃ cleared, clearText n (written ++ free) written.length = some (written ++ cleared) ∧
      cleared.length = free.length := by
  induction n generalizing written free with
  | zero => exact ⟨free, rfl, rfl⟩
  | succ n ih =>
    cases free with
    | nil => simp at hfit
    | cons b free =>
      rw [List.length_cons, Nat.add_lt_add_iff_right] at hfit
      have hstore := store_append (written ++ [b]) free [0] (by rw [List.length_singleton]; omega)
      rw [List.append_assoc, List.singleton_append, List.length_append, List.length_singleton]
        at hstore
      obtain ⟨cleared, hrest, hlength⟩ :=
        ih (written ++ [b]) ([0] ++ free.drop 1) (by simp; omega)
      refine ⟨b :: cleared, ?_, ?_⟩
      · simp only [clearText, hstore]
        simpa using hrest
      · simp only [List.length_cons, List.length_nil, hlength, List.length_append,
          List.length_drop]
        omega

/-- The payloads are the text cut into fragments, each behind the header. What is in the buffer of
a fragment that is not full is `fragment`. -/
theorem sendText_chunks (header text behind fragment free : List UInt8)
    (hsize : header.length + fragment.length + free.length = 200)
    (hroom : header.length + fragment.length < 199) :
    ∃ fragments : List (List UInt8), sendText header.length text.length (text ++ behind)
        (header ++ fragment ++ free) (header.length + fragment.length) =
          some (fragments.map (header ++ ·)) ∧
      Chunked (199 - header.length) (fragment ++ text) fragments := by
  induction text generalizing fragment free with
  | nil =>
    refine ⟨[fragment], ?_, ?_⟩
    · rw [List.length_nil, sendText, ← List.length_append, List.take_left]
      rfl
    · rw [List.append_nil]
      exact Chunked.last fragment (by omega)
  | cons c text ih =>
    have hstore := store_append (header ++ fragment) free [c]
      (by rw [List.length_singleton]; omega)
    rw [List.length_append, List.length_singleton] at hstore
    rw [List.length_cons, List.cons_append, sendText, hstore]
    simp only []
    rw [List.append_cons fragment c text]
    by_cases hfull : header.length + fragment.length + 1 ≥ 199
    · have hlength : (fragment ++ [c] ++ free.drop 1).length = 200 - header.length := by
        rw [List.length_append, List.length_append, List.length_drop, List.length_singleton]
        omega
      obtain ⟨cleared, hclear, hcleared⟩ := clearText_isSome (199 - header.length) header
        (fragment ++ [c] ++ free.drop 1) (by omega)
      obtain ⟨fragments, hsend, hchunks⟩ := ih [] cleared (by simp; omega) (by simp; omega)
      have hsent : (header ++ fragment ++ [c] ++ free.drop 1).take
          (header.length + fragment.length + 1) = header ++ (fragment ++ [c]) := by
        rw [List.take_left' (by simp; omega), List.append_assoc]
      rw [List.append_nil, List.length_nil, Nat.add_zero] at hsend
      have hclear' : clearText (199 - header.length) (header ++ fragment ++ [c] ++ free.drop 1)
          header.length = some (header ++ cleared) := by
        simpa using hclear
      refine ⟨(fragment ++ [c]) :: fragments, ?_, ?_⟩
      · rw [if_pos hfull, hclear', hsent]
        simp only [hsend, List.map_cons]
      · apply Chunked.full
        · rw [List.length_append, List.length_singleton]
          omega
        · exact hchunks
    · rw [if_neg hfull]
      obtain ⟨fragments, hsend, hchunks⟩ := ih (fragment ++ [c]) (free.drop 1)
        (by simp; omega) (by simp; omega)
      refine ⟨fragments, ?_, hchunks⟩
      rw [← hsend]
      simp [Nat.add_assoc]

theorem messageSend_stores (flag : UInt8) (sender : List UInt8) (count : UInt8)
    (buf : List UInt8) (hbuf : buf.length = 200) (hsender : sender.length ≤ 197) :
    ∃ buf₁ buf₂ buf₃, store buf 1 [UInt8.ofNat sender.length] = some buf₁ ∧
      store buf₁ 2 sender = some buf₂ ∧ store buf₂ (2 + sender.length) [count] = some buf₃ ∧
      store buf₃ 0 [flag] = some (flag :: UInt8.ofNat sender.length :: sender ++ [count] ++
        buf.drop (sender.length + 3)) := by
  match buf with
  | [] => simp at hbuf
  | [b] => simp at hbuf
  | b₀ :: b₁ :: rest =>
    have hrest : rest.length = 198 := by simpa using hbuf
    have hlen := store_append [b₀] (b₁ :: rest) [UInt8.ofNat sender.length] (by simp)
    have hcopy := store_append [b₀, UInt8.ofNat sender.length] rest sender (by omega)
    have hcount := store_append (b₀ :: UInt8.ofNat sender.length :: sender)
      (rest.drop sender.length) [count] (by simp; omega)
    have hflag := store_append [] (b₀ :: UInt8.ofNat sender.length :: sender ++ [count] ++
      (rest.drop sender.length).drop 1) [flag] (by simp)
    rw [show (b₀ :: UInt8.ofNat sender.length :: sender).length = 2 + sender.length by
      simp; omega] at hcount
    refine ⟨_, _, _, hlen, hcopy, hcount, ?_⟩
    rw [List.drop_succ_cons, List.drop_succ_cons, ← List.drop_drop]
    exact hflag

private theorem messageSend_line (mode flag : UInt8) (sender : List UInt8)
    (handles : List (List UInt8)) (before text behind buf : List UInt8) (bufferLength : UInt16)
    (hmode : (mode = 1 ∧ flag = 5 ∧ before.length = 3 ∧ handles.length = 1) ∨
      (mode = 2 ∧ flag = 6 ∧ before.length = 5 ∧ (byteAt before 3).toNat = 48 + handles.length))
    (hspace : ∀ h ∈ handles, 32 ∉ h)
    (hheader : (messageHeader flag sender handles).length ≤ 198)
    (hlength : bufferLength.toNat = (before ++ spaced handles ++ text).length)
    (hbuf : buf.length = 200) :
    ∃ fragments : List (List UInt8),
      messageSend sender bufferLength (before ++ spaced handles ++ text ++ behind) mode buf =
        some (fragments.map (messageHeader flag sender handles ++ ·)) ∧
      fragments.flatten = text ∧
      ∀ f ∈ fragments, (messageHeader flag sender handles ++ f).length ≤ 199 := by
  have hsize := length_messageHeader flag sender handles
  have hfew := length_le_encodeHandles handles
  have hnum : (if mode = 1 then (1 : Int) else
      ((byteAt (before ++ spaced handles ++ text ++ behind) 3).toNat : Int) - 48) =
        (handles.length : Int) := by
    rcases hmode with ⟨rfl, -, -, hone⟩ | ⟨rfl, -, hbefore, hdigit⟩
    · simp [hone]
    · rw [if_neg (by decide), List.append_assoc, List.append_assoc,
        byteAt_append_left _ _ _ (by omega), hdigit]
      omega
  have hpointer : (if mode = 1 then 3 else 5) = before.length := by
    rcases hmode with ⟨rfl, -, hbefore, -⟩ | ⟨rfl, -, hbefore, -⟩ <;> simp [hbefore]
  have hflag (b : List UInt8) : storeFlag b mode = store b 0 [flag] := by
    rcases hmode with ⟨rfl, rfl, -⟩ | ⟨rfl, rfl, -⟩ <;> rfl
  have hcount : UInt8.ofNat ((handles.length : Int) % 256).toNat = UInt8.ofNat handles.length := by
    congr 1
    omega
  obtain ⟨buf₁, buf₂, buf₃, hlen, hcopy, hnumber, hstore⟩ :=
    messageSend_stores flag sender (UInt8.ofNat handles.length) buf hbuf (by omega)
  have hfree : (buf.drop (sender.length + 3)).length = 197 - sender.length := by
    rw [List.length_drop]
    omega
  have hhandles := copyHandles_handles handles (text ++ behind)
    (flag :: UInt8.ofNat sender.length :: sender ++ [UInt8.ofNat handles.length])
    (buf.drop (sender.length + 3)) hspace (by omega)
  rw [show (flag :: UInt8.ofNat sender.length :: sender ++ [UInt8.ofNat handles.length]).length =
      2 + sender.length + 1 by simp; omega, ← hsize] at hhandles
  have hwritten : flag :: UInt8.ofNat sender.length :: sender ++ [UInt8.ofNat handles.length] ++
      encodeHandles handles = messageHeader flag sender handles := by
    simp [messageHeader]
  rw [hwritten] at hhandles
  obtain ⟨fragments, hsend, hchunks⟩ := sendText_chunks (messageHeader flag sender handles)
    text behind [] ((buf.drop (sender.length + 3)).drop (encodeHandles handles).length)
    (by rw [List.length_drop, List.length_nil]; omega) (by rw [List.length_nil]; omega)
  rw [List.append_nil, List.length_nil, Nat.add_zero (messageHeader flag sender handles).length]
    at hsend
  refine ⟨fragments, ?_, hchunks.flatten, ?_⟩
  · have hdrop : (before ++ spaced handles ++ text ++ behind).drop before.length =
        spaced handles ++ (text ++ behind) := by
      simp
    have hleft : bufferLength.toNat - ((before ++ spaced handles ++ text ++ behind).length -
        (text ++ behind).length) = text.length := by
      rw [hlength]
      simp only [List.length_append]
      omega
    simp only [messageSend, hnum, hpointer, hflag, hcount, Int.toNat_natCast, hlen, hcopy,
      hnumber, hstore, hdrop, hhandles, hleft, hsend, Option.bind_eq_bind, Option.bind_some]
  · intro f hf
    have hle := hchunks.length_le f hf
    rw [List.length_append]
    omega

/-- The client turns a command line into PDUs that carry its text in order, each behind the header
of the command, and none of them is longer than 199 bytes. -/
theorem messageSend_command (c : Command) (hc : c.WellFormed) (sender text behind buf : List UInt8)
    (hheader : (c.header sender).length ≤ 198) (hline : (c.line text).length ≤ 65535)
    (hbuf : buf.length = 200) :
    ∃ fragments : List (List UInt8),
      messageSend sender (UInt16.ofNat (c.line text).length) (c.line text ++ behind) c.mode buf =
        some (fragments.map (c.header sender ++ ·)) ∧
      fragments.flatten = text ∧ ∀ f ∈ fragments, (c.header sender ++ f).length ≤ 199 := by
  refine messageSend_line c.mode c.flag sender c.handles c.start text behind buf
    (UInt16.ofNat (c.line text).length) ?_ hc.noSpace hheader ?_ hbuf
  · cases c with
    | message handle => exact .inl ⟨rfl, rfl, rfl, rfl⟩
    | multicast handles =>
      refine .inr ⟨rfl, rfl, rfl, ?_⟩
      have := hc.digit
      simp only [Command.handles] at this ⊢
      exact UInt8.toNat_ofNat_of_lt' (show _ < 256 by omega)
  · exact UInt16.toNat_ofNat_of_lt' (show _ < 65536 by omega)

end Cpe464.Chat.Client
