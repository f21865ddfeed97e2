import Cpe464.Chat.CommandLine
import Cpe464.Chat.Routing
import Cpe464.Chat.ServerMessage

/-!
# Messages on the screen

The receiving client prints a message as two strings. `multicast` puts the terminator of the
sender's handle one byte too far, and no terminator is sent or stored behind a text that has none,
so that both strings may go on with what the client's memory held before.
-/

namespace Cpe464.Chat.Client

/-- The payload is a PDU that `messageSend` emits for a line, and `text` what its text loop put
behind the header. -/
def EmitsMessage (sender inputBuffer : List UInt8) (mode : UInt8) (payload text : List UInt8) :
    Prop :=
  ∃ bufferLength buf input header headerEnd payloads, buf.length = 200 ∧
    encodeHeader sender inputBuffer mode buf = some (input, header, headerEnd) ∧
    messageSend sender bufferLength inputBuffer mode buf = some payloads ∧
    payload ∈ payloads ∧ text = payload.drop headerEnd

/-- The payload is a PDU that `sendBroadcast` emits, with the text behind its header. -/
def EmitsBroadcast (sender payload text : List UInt8) : Prop :=
  ∃ bufferLength inputBuffer buf payloads, buf.length = 200 ∧
    sendBroadcast sender bufferLength inputBuffer buf = some payloads ∧
    payload ∈ payloads ∧ text = payload.drop (2 + sender.length)

/-- The array of `multicast` holds a zero where the handle it copies ends, and room behind it. -/
def NameEnds (stack : DisplayStack) (sender : List UInt8) : Prop :=
  sender.length ≤ 98 ∧ byteAt stack.senderHandle sender.length = 0

/-- There is a zero in the text, or directly behind the PDU in the receive buffer. -/
def TextEnds (payload text dataBuffer : List UInt8) : Prop :=
  0 ∈ text ∨ byteAt dataBuffer (payload.length + 2) = 0

/-- The text of a line with a negative number of handles, which the receiver takes for handles, is
found again behind as many of them as the count byte says. -/
def TextFound (sender inputBuffer payload text dataBuffer : List UInt8) (mode : UInt8) : Prop :=
  IsString (slice (received payload dataBuffer) (skipHandles (received payload dataBuffer)
    (256 + handleNum inputBuffer mode).toNat (5 + sender.length)) 200) (cString text)

/-! ## The strings -/

theorem printString_eq_some_iff (memory s : List UInt8) :
    printString memory = some s ↔ IsString memory s := by
  unfold printString
  by_cases hzero : 0 ∈ memory
  · rw [if_pos hzero, Option.some.injEq]
    exact ⟨fun h => ⟨hzero, h⟩, fun h => h.2⟩
  · rw [if_neg hzero]
    exact iff_of_false (by simp) (fun h => hzero h.1)

private theorem printed_senderHandle {stack : DisplayStack}
    (hstack : stack.senderHandle.length = 100) {sender : List UInt8} (hsender : sender.length ≤ 99)
    (hzero : 0 ∉ sender) :
    ((store stack.senderHandle 0 sender).bind fun copied =>
        (store copied (sender.length + 1) [0]).bind printString) = some sender ↔
      NameEnds stack sender := by
  have hdrop : (stack.senderHandle.drop sender.length).length = 100 - sender.length := by
    rw [List.length_drop, hstack]
  have hcopied : store stack.senderHandle 0 sender =
      some (sender ++ stack.senderHandle.drop sender.length) := by
    rw [store, if_pos (by omega), overlay_zero]
  have hbyte : byteAt stack.senderHandle sender.length =
      byteAt (stack.senderHandle.drop sender.length) 0 := by
    simp only [byteAt, List.getD_eq_getElem?_getD, List.getElem?_drop, Nat.add_zero]
  rw [hcopied, Option.bind_some, NameEnds, hbyte]
  cases htail : stack.senderHandle.drop sender.length with
  | nil =>
    rw [htail, List.length_nil] at hdrop
    omega
  | cons b behind =>
    rw [htail, List.length_cons] at hdrop
    rw [byteAt_cons_zero]
    cases behind with
    | nil =>
      rw [List.length_nil] at hdrop
      have hfull : store (sender ++ [b]) (sender.length + 1) [0] = none := by
        rw [store, if_neg (by simp)]
      rw [hfull]
      refine iff_of_false (by simp) ?_
      omega
    | cons c tail =>
      rw [List.length_cons] at hdrop
      have hended := store_append (sender ++ [b]) (c :: tail) [0] (by simp)
      rw [List.length_append, List.length_singleton, List.append_assoc, List.singleton_append]
        at hended
      rw [hended, Option.bind_some, printString_eq_some_iff]
      have hlast := isString_append_cons_iff sender b ([0] ++ (c :: tail).drop [(0 : UInt8)].length)
      rw [cString_of_notMem hzero] at hlast
      simp only [List.append_assoc, List.cons_append, List.nil_append] at hlast ⊢
      rw [hlast]
      constructor
      · rintro (h | h)
        · exact absurd h hzero
        · exact ⟨by omega, h⟩
      · intro h
        exact .inr h.2

/-! ## The display routines -/

section Buffer

variable {buf sender : List UInt8} (hlen : (byteAt buf 3).toNat = sender.length)
  (hname : slice buf 4 sender.length = sender) (hzero : 0 ∉ sender)

include hlen hname hzero

/-- What `multicast` prints is decided by the stale byte behind the handle and the string at the
reader's place. -/
theorem printMulticast_eq_some_iff {stack : DisplayStack}
    (hstack : stack.senderHandle.length = 100) (hsender : sender.length ≤ 99)
    (message : List UInt8) :
    printMulticast stack buf = some (.message sender message) ↔
      NameEnds stack sender ∧ IsString (slice buf (multicast buf).readerLocation 200) message := by
  rw [← printed_senderHandle hstack hsender hzero, ← printString_eq_some_iff]
  have hread : (multicast buf).senderHandle = sender ∧
      (multicast buf).terminator = sender.length + 1 ∧
      (multicast buf).senderMessage = slice buf (multicast buf).readerLocation 200 := by
    simp only [multicast, hlen, hname, and_self]
  obtain ⟨hhandle, hend, hmessage⟩ := hread
  simp only [printMulticast, hhandle, hend, hmessage, Option.bind_eq_bind, Option.pure_def,
    Option.bind_eq_some_iff]
  constructor
  · rintro ⟨copied, hcopied, ended, hended, handle, hprinted, text, htext, heq⟩
    cases heq
    exact ⟨⟨copied, hcopied, ended, hended, hprinted⟩, htext⟩
  · rintro ⟨⟨copied, hcopied, ended, hended, hprinted⟩, htext⟩
    exact ⟨copied, hcopied, ended, hended, sender, hprinted, message, htext, rfl⟩

private theorem printBcast_eq_some_iff {stack : DisplayStack}
    (hstack : stack.tmpHandle.length = 1024) (hsender : sender.length ≤ 99) (message : List UInt8) :
    printBcast stack buf = some (.broadcast sender message) ↔
      IsString (buf.drop (4 + sender.length)) message := by
  have hcopied : store stack.tmpHandle 0 sender =
      some (sender ++ stack.tmpHandle.drop sender.length) := by
    rw [store, if_pos (by omega), overlay_zero]
  have hended := store_append sender (stack.tmpHandle.drop sender.length) [0]
    (by rw [List.length_drop, List.length_singleton]; omega)
  have hprinted : printString (sender ++ [0] ++
      (stack.tmpHandle.drop sender.length).drop [(0 : UInt8)].length) = some sender := by
    rw [printString_eq_some_iff, List.append_assoc, List.singleton_append]
    exact isString_append_zero hzero _
  rw [← printString_eq_some_iff]
  simp only [printBcast, copyTmpHandle, hlen, hname, hcopied, hended, hprinted,
    Option.bind_eq_bind, Option.bind_some, Option.pure_def]
  simp only [Option.bind_eq_some_iff, Option.some.injEq, Shown.broadcast.injEq, true_and,
    exists_eq_right]

end Buffer

/-! ## Received PDUs -/

theorem processMsgFromServer_sendPDU (payload rest buf : List UInt8) (uninit : Nat)
    (stack : DisplayStack) (hne : 1 ≤ payload.length) (hfit : payload.length ≤ 1022) :
    processMsgFromServer (sendPDU payload payload.length ++ rest) buf uninit stack =
      { flag := some (byteAt (received payload buf) 2)
        shown := (dispatch stack (received payload buf)).1
        exits := (dispatch stack (received payload buf)).2
        rest := rest } := by
  have hcall := recvPDU_sendPDU payload rest buf 1024 uninit (by decide) (by omega)
  rw [show ((1024 : Nat) : Int) = 1024 from rfl] at hcall
  have hlen : ((payload.length : Int) % 65536).toNat ≠ 0 := by omega
  simp only [processMsgFromServer, hcall, if_neg hlen, received]

private theorem drop_received_header (header text dataBuffer : List UInt8) :
    (received (header ++ text) dataBuffer).drop (2 + header.length) =
      text ++ dataBuffer.drop ((header ++ text).length + 2) := by
  rw [received, ← List.append_assoc, List.append_assoc]
  apply List.drop_left'
  rw [List.length_append, length_pduHeader]

theorem received_sender (flag : UInt8) (sender behind dataBuffer : List UInt8)
    (hsender : sender.length ≤ 99) :
    let payload := flag :: UInt8.ofNat sender.length :: sender ++ behind
    byteAt (received payload dataBuffer) 2 = flag ∧
      (byteAt (received payload dataBuffer) 3).toNat = sender.length ∧
      slice (received payload dataBuffer) 4 sender.length = sender := by
  intro payload
  refine ⟨byteAt_received payload dataBuffer 0 (by simp [payload]), ?_, ?_⟩
  · rw [byteAt_received payload dataBuffer 1 (by simp [payload])]
    exact UInt8.toNat_ofNat_of_lt' (show _ < 256 by omega)
  · have hpayload : received payload dataBuffer =
        (pduHeader payload.length ++ [flag, UInt8.ofNat sender.length]) ++ sender ++
          (behind ++ dataBuffer.drop (payload.length + 2)) := by
      simp [received, payload]
    have hfront : (pduHeader payload.length ++ [flag, UInt8.ofNat sender.length]).length = 4 := by
      rw [List.length_append, length_pduHeader]
      rfl
    have hslice := slice_middle (pduHeader payload.length ++ [flag, UInt8.ofNat sender.length])
      sender (behind ++ dataBuffer.drop (payload.length + 2))
    rw [hpayload]
    rwa [hfront] at hslice

private theorem readerLocation_received (flag count : UInt8) (sender behind dataBuffer : List UInt8)
    (hsender : sender.length ≤ 99) :
    let payload := flag :: UInt8.ofNat sender.length :: sender ++ count :: behind
    (multicast (received payload dataBuffer)).readerLocation =
      skipHandles (received payload dataBuffer) count.toNat (5 + sender.length) := by
  intro payload
  obtain ⟨-, hlen, -⟩ := received_sender flag sender (count :: behind) dataBuffer hsender
  have hfront : (flag :: UInt8.ofNat sender.length :: sender).length = 2 + sender.length := by
    simp only [List.length_cons]
    omega
  have hcount : byteAt payload (2 + sender.length) = count := by
    have hbyte := byteAt_append_right (flag :: UInt8.ofNat sender.length :: sender)
      (count :: behind) 0
    rwa [hfront, byteAt_cons_zero] at hbyte
  have hbyte := byteAt_received payload dataBuffer (2 + sender.length)
    (by simp only [payload, List.length_append, hfront, List.length_cons]; omega)
  have hstart : (4 + sender.length) % 256 = 2 + (2 + sender.length) := by omega
  have hfirst : (2 + (2 + sender.length) + 1) % 256 = 5 + sender.length := by omega
  simp only [multicast, payload, hlen, hstart, hfirst]
  rw [hbyte, hcount]

private theorem drop_eq_byteAt_cons (memory : List UInt8) {i : Nat} (h : i < memory.length) :
    memory.drop i = byteAt memory i :: memory.drop (i + 1) := by
  rw [List.drop_eq_getElem_cons h, byteAt, List.getD_eq_getElem?_getD,
    List.getElem?_eq_getElem h, Option.getD_some]

theorem isString_received_iff (header text : List UInt8) {dataBuffer : List UInt8}
    (hbuffer : dataBuffer.length = 1024) (hfit : (header ++ text).length ≤ 200) :
    (IsString ((received (header ++ text) dataBuffer).drop (2 + header.length)) (cString text) ↔
      TextEnds (header ++ text) text dataBuffer) ∧
    (1 ≤ header.length →
      (IsString (slice (received (header ++ text) dataBuffer) (2 + header.length) 200)
        (cString text) ↔ TextEnds (header ++ text) text dataBuffer)) := by
  have hbehind := drop_eq_byteAt_cons dataBuffer (i := (header ++ text).length + 2) (by omega)
  constructor
  · rw [drop_received_header, hbehind]
    exact isString_append_cons_iff text _ _
  · intro hheader
    rw [List.length_append] at hfit
    obtain ⟨room, hroom⟩ : ∃ room, 200 - text.length = room + 1 := ⟨199 - text.length, by omega⟩
    rw [slice, drop_received_header, hbehind, List.take_append, hroom, List.take_succ_cons,
      List.take_of_length_le (by omega)]
    exact isString_append_cons_iff text _ _

theorem dispatch_message {stack : DisplayStack} {buf : List UInt8}
    (h : byteAt buf 2 = 5 ∨ byteAt buf 2 = 6) :
    (dispatch stack buf).1 = (printMulticast stack buf).map ([·]) := by
  unfold dispatch
  rcases h with h | h <;> rw [h] <;> rfl

private theorem dispatch_broadcast {stack : DisplayStack} {buf : List UInt8}
    (h : byteAt buf 2 = 4) : (dispatch stack buf).1 = (printBcast stack buf).map ([·]) := by
  unfold dispatch
  rw [h]
  rfl

private theorem map_singleton_eq_some_iff {α : Type} (o : Option α) (x : α) :
    o.map ([·]) = some [x] ↔ o = some x := by
  cases o <;> simp

/-! ## Sent PDUs -/

private theorem EmitsMessage.payload_eq {sender inputBuffer payload text : List UInt8}
    {mode : UInt8} (h : EmitsMessage sender inputBuffer mode payload text)
    (hmode : mode = 1 ∨ mode = 2) (hsender : sender.length ≤ 99) :
    ∃ handles : List (List UInt8), handles.length = (handleNum inputBuffer mode).toNat ∧
      payload = messageFlag mode :: UInt8.ofNat sender.length :: sender ++
        UInt8.ofNat (handleNum inputBuffer mode % 256).toNat :: encodeHandles handles ++ text ∧
      payload.length ≤ 200 := by
  obtain ⟨bufferLength, buf, input, header, headerEnd, payloads, hbuf, hencode, hsend, hpayload,
    rfl⟩ := h
  obtain ⟨handles, hnumber, -, -, hheader, hend, htake⟩ :=
    encodeHeader_some hmode hbuf (by omega) hencode
  rw [messageSend_eq, hencode, Option.bind_some] at hsend
  have hpointer : headerEnd ≤ header.length := by
    have hlength := congrArg List.length htake
    simp only [List.length_take, List.length_append, List.length_cons] at hlength
    omega
  obtain ⟨⟨rest, hrest⟩, hfit⟩ :=
    (sendText_payloads hsend (Nat.le_refl _) hpointer).2 payload hpayload
  have htext : payload.drop headerEnd = rest := by
    rw [← hrest]
    apply List.drop_left'
    rw [List.length_take]
    omega
  rw [hheader] at hfit
  refine ⟨handles, hnumber, ?_, hfit⟩
  rw [htext, ← htake, hrest]

private theorem EmitsBroadcast.payload_eq {sender payload text : List UInt8}
    (h : EmitsBroadcast sender payload text) (hsender : sender.length ≤ 99) :
    payload = 4 :: UInt8.ofNat sender.length :: sender ++ text ∧ payload.length ≤ 200 := by
  obtain ⟨bufferLength, inputBuffer, buf, payloads, hbuf, hsend, hpayload, rfl⟩ := h
  obtain ⟨buf₁, buf₂, free, hflag, hlen, hcopy, hfree⟩ :=
    sendBroadcast_stores sender buf hbuf (by omega)
  have hfront : (4 :: UInt8.ofNat sender.length :: sender).length = 2 + sender.length := by
    simp only [List.length_cons]
    omega
  have hlength : (4 :: UInt8.ofNat sender.length :: sender ++ free).length = 200 := by
    rw [List.length_append, hfront]
    omega
  simp only [sendBroadcast, hflag, hlen, hcopy, Option.bind_eq_bind, Option.bind_some] at hsend
  obtain ⟨⟨rest, hrest⟩, hfit⟩ :=
    (sendText_payloads hsend (Nat.le_refl _) (by omega)).2 payload hpayload
  rw [List.take_left' hfront] at hrest
  rw [hlength] at hfit
  refine ⟨?_, hfit⟩
  rw [← hrest, List.drop_left' hfront]

/-! ## Every PDU -/

section Receiver

variable {sender payload text dataBuffer : List UInt8} {stack : DisplayStack}
  (hsender : sender.length ≤ 99) (hzero : 0 ∉ sender) (hbuffer : dataBuffer.length = 1024)
  (htmp : stack.tmpHandle.length = 1024) (hstack : stack.senderHandle.length = 100)

include hsender hzero hbuffer hstack

private theorem emitsMessage_shown_iff {inputBuffer : List UInt8} {mode : UInt8}
    (hmode : mode = 1 ∨ mode = 2) (h : EmitsMessage sender inputBuffer mode payload text)
    (rest : List UInt8) (uninit : Nat) :
    (processMsgFromServer (sendPDU payload payload.length ++ rest) dataBuffer uninit stack).shown =
        some [.message sender (cString text)] ↔
      NameEnds stack sender ∧ if 0 ≤ handleNum inputBuffer mode
        then TextEnds payload text dataBuffer
        else TextFound sender inputBuffer payload text dataBuffer mode := by
  obtain ⟨handles, hnumber, hpayload, hfit⟩ := h.payload_eq hmode hsender
  have hne : 1 ≤ payload.length := by
    rw [hpayload]
    simp
  obtain ⟨hflag, hlen, hname⟩ := received_sender (messageFlag mode) sender
    (UInt8.ofNat (handleNum inputBuffer mode % 256).toNat :: encodeHandles handles ++ text)
    dataBuffer hsender
  rw [← List.append_assoc, ← hpayload] at hflag hlen hname
  have hmessage : byteAt (received payload dataBuffer) 2 = 5 ∨
      byteAt (received payload dataBuffer) 2 = 6 := by
    rw [hflag]
    rcases hmode with rfl | rfl
    · exact .inl rfl
    · exact .inr rfl
  rw [processMsgFromServer_sendPDU payload rest dataBuffer uninit stack hne (by omega),
    dispatch_message hmessage, map_singleton_eq_some_iff,
    printMulticast_eq_some_iff hlen hname hzero hstack hsender]
  refine and_congr_right fun _ => ?_
  have hlow : -48 ≤ handleNum inputBuffer mode := by
    unfold handleNum
    split <;> omega
  have hhigh : handleNum inputBuffer mode ≤ 207 := by
    have := (byteAt inputBuffer 3).toNat_lt
    unfold handleNum
    split <;> omega
  by_cases hnegative : handleNum inputBuffer mode < 0
  · have hcount : (UInt8.ofNat (handleNum inputBuffer mode % 256).toNat).toNat =
        (256 + handleNum inputBuffer mode).toNat := by
      rw [UInt8.toNat_ofNat_of_lt' (show _ < 256 by omega)]
      omega
    obtain rfl : handles = [] := List.eq_nil_of_length_eq_zero (by omega)
    have hreader := readerLocation_received (messageFlag mode)
      (UInt8.ofNat (handleNum inputBuffer mode % 256).toNat) sender text dataBuffer hsender
    have hplain : payload = messageFlag mode :: UInt8.ofNat sender.length :: sender ++
        UInt8.ofNat (handleNum inputBuffer mode % 256).toNat :: text := by
      rw [hpayload]
      simp [encodeHandles]
    rw [← hplain, hcount] at hreader
    rw [if_neg (by omega), TextFound, hreader]
  · rw [if_pos (by omega)]
    have hcount : (handleNum inputBuffer mode % 256).toNat = handles.length := by omega
    have hheader : payload = messageHeader (messageFlag mode) sender handles ++ text := by
      rw [hpayload, hcount, messageHeader]
    rw [hheader, List.length_append] at hfit
    rw [hheader, multicast_received _ _ _ _ _ (by omega)]
    exact (isString_received_iff _ text hbuffer (by rw [List.length_append]; exact hfit)).2
      (by simp [messageHeader])

omit hstack in
include htmp in
private theorem emitsBroadcast_shown_iff (h : EmitsBroadcast sender payload text)
    (rest : List UInt8) (uninit : Nat) :
    (processMsgFromServer (sendPDU payload payload.length ++ rest) dataBuffer uninit stack).shown =
        some [.broadcast sender (cString text)] ↔
      TextEnds payload text dataBuffer := by
  obtain ⟨hpayload, hfit⟩ := h.payload_eq hsender
  have hne : 1 ≤ payload.length := by
    rw [hpayload]
    simp
  obtain ⟨hflag, hlen, hname⟩ := received_sender 4 sender text dataBuffer hsender
  rw [← hpayload] at hflag hlen hname
  have htext := (isString_received_iff (4 :: UInt8.ofNat sender.length :: sender) text
    hbuffer (by rw [← hpayload]; exact hfit)).1
  have hfront : 2 + (4 :: UInt8.ofNat sender.length :: sender).length = 4 + sender.length := by
    simp only [List.length_cons]
    omega
  rw [hfront, ← hpayload] at htext
  rw [processMsgFromServer_sendPDU payload rest dataBuffer uninit stack hne (by omega),
    dispatch_broadcast hflag, map_singleton_eq_some_iff,
    printBcast_eq_some_iff hlen hname hzero htmp hsender, htext]

end Receiver

/-- Exactly what was sent is displayed when the array that takes the handle of a message holds a
zero behind it and, for every PDU, the text ends. -/
theorem processMsgFromServer_shown_iff (sender dataBuffer rest : List UInt8) (uninit : Nat)
    (stack : DisplayStack) (hsender : sender.length ≤ 99) (hzero : 0 ∉ sender)
    (hbuffer : dataBuffer.length = 1024) (htmp : stack.tmpHandle.length = 1024)
    (hstack : stack.senderHandle.length = 100) :
    (∀ mode inputBuffer payload text, mode = 1 ∨ mode = 2 →
      EmitsMessage sender inputBuffer mode payload text →
      ((processMsgFromServer (sendPDU payload payload.length ++ rest) dataBuffer uninit
          stack).shown = some [.message sender (cString text)] ↔
        NameEnds stack sender ∧ if 0 ≤ handleNum inputBuffer mode
          then TextEnds payload text dataBuffer
          else TextFound sender inputBuffer payload text dataBuffer mode)) ∧
    (∀ payload text, EmitsBroadcast sender payload text →
      ((processMsgFromServer (sendPDU payload payload.length ++ rest) dataBuffer uninit
          stack).shown = some [.broadcast sender (cString text)] ↔
        TextEnds payload text dataBuffer)) := by
  constructor
  · intro mode inputBuffer payload text hmode h
    exact emitsMessage_shown_iff hsender hzero hbuffer hstack hmode h rest uninit
  · intro payload text h
    exact emitsBroadcast_shown_iff hsender hzero hbuffer htmp h rest uninit

def hiPayload : List UInt8 := [5, 1, 97, 1, 1, 98, 104, 105, 0]

/-- `%M b hi` of the client `a`. -/
private theorem emitsMessage_hi :
    EmitsMessage [97] [37, 77, 32, 98, 32, 104, 105, 0] 1 hiPayload [104, 105, 0] :=
  ⟨8, List.replicate 200 7, [104, 105, 0], [5, 1, 97, 1, 1, 98] ++ List.replicate 194 7, 6,
    [hiPayload], List.length_replicate, by decide +kernel, by decide +kernel, by simp, rfl⟩

theorem processMsgFromServer_shown_hi :
    (processMsgFromServer (sendPDU hiPayload hiPayload.length ++ []) (List.replicate 1024 7) 0
      ⟨List.replicate 1024 7, List.replicate 100 0⟩).shown = some [.message [97] [104, 105]] :=
  ((processMsgFromServer_shown_iff [97] (List.replicate 1024 7) [] 0
    ⟨List.replicate 1024 7, List.replicate 100 0⟩ (by decide) (by decide)
    List.length_replicate List.length_replicate List.length_replicate).1 1
    [37, 77, 32, 98, 32, 104, 105, 0] hiPayload [104, 105, 0] (.inl rfl) emitsMessage_hi).mpr
    ⟨⟨by decide, by decide +kernel⟩, by rw [if_pos (by decide)]; exact .inl (by decide)⟩

/-- With another byte behind the handle the client `a` is shown as `ax`. -/
theorem stale_byte_shown :
    EmitsMessage [97] [37, 77, 32, 98, 32, 104, 105, 0] 1 hiPayload [104, 105, 0] ∧
    (processMsgFromServer (sendPDU hiPayload hiPayload.length ++ []) (List.replicate 1024 7) 0
      ⟨List.replicate 1024 120, List.replicate 100 120⟩).shown =
        some [.message [97, 120] [104, 105]] :=
  ⟨emitsMessage_hi, by decide +kernel⟩

end Cpe464.Chat.Client
