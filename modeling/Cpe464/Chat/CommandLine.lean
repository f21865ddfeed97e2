import Cpe464.Chat.Fragments
import Cpe464.Chat.Stdin

/-!
# Typed lines that break the encoder

`messageSend` of the client takes the number of handles from a character of the line and looks for
the space behind each handle, but not for the end of the line or of its buffer. A line that has
fewer spaces, a character below `0` for the number, or handles that fill the buffer breaks it.
-/

namespace Cpe464.Chat.Client

/-- The flag that `messageSend` stores for a mode. -/
def messageFlag (mode : UInt8) : UInt8 := if mode = 1 then 5 else 6

/-- `handleNum`: one for `%M`, and what the fourth character says for `%C`. -/
def handleNum (inputBuffer : List UInt8) (mode : UInt8) : Int :=
  if mode = 1 then 1 else ((byteAt inputBuffer 3).toNat : Int) - 48

/-- Where `messageSend` looks for the first handle. -/
def handlesStart (mode : UInt8) : Nat := if mode = 1 then 3 else 5

/-- Whatever lies behind the line, the same PDUs are sent, without an access outside the line or the
buffer; each has the number of its handles in front of them, and in front of each handle its
length. -/
def EncodesSafely (myHandle inputBuffer : List UInt8) (mode : UInt8) (buf : List UInt8) : Prop :=
  ∃ payloads, (∀ behind, messageSend myHandle (UInt16.ofNat inputBuffer.length)
      (inputBuffer ++ behind) mode buf = some payloads) ∧
    ∀ payload ∈ payloads, ∃ handles text,
      payload = messageHeader (messageFlag mode) myHandle handles ++ text ∧
        handles.length ≤ 255 ∧ ∀ h ∈ handles, h.length ≤ 255

/-- The line lists as many handles as it says, a space behind each, and the header they make ends
in front of the last byte of the buffer. -/
def HeaderFits (myHandle inputBuffer : List UInt8) (mode : UInt8) : Prop :=
  ∃ before handles text, inputBuffer = before ++ spaced handles ++ text ∧
    before.length = handlesStart mode ∧ (handles.length : Int) = handleNum inputBuffer mode ∧
    (∀ h ∈ handles, 32 ∉ h) ∧ (messageHeader (messageFlag mode) myHandle handles).length ≤ 199

/-! ## The handles of a line -/

private theorem copyHandle_some {input input' buf buf' : List UInt8}
    {bufPointer bufPointer' handleLenCount handleLenCount' : Nat}
    (h : copyHandle input buf bufPointer handleLenCount =
      some (input', buf', bufPointer', handleLenCount')) :
    ∃ handle rest, input = handle ++ input' ∧ input' = 32 :: rest ∧ 32 ∉ handle ∧
      bufPointer' = bufPointer + handle.length ∧ handleLenCount' = handleLenCount + handle.length ∧
      buf'.length = buf.length ∧ (handle = [] ∨ bufPointer' ≤ buf.length) ∧
      (bufPointer ≤ buf.length → buf'.take bufPointer' = buf.take bufPointer ++ handle) := by
  induction input generalizing buf bufPointer handleLenCount with
  | nil => cases h
  | cons c input ih =>
    rw [copyHandle] at h
    by_cases hspace : c = 32
    · rw [if_pos hspace] at h
      cases h
      exact ⟨[], input, rfl, by rw [hspace], by simp, rfl, rfl, rfl, .inl rfl, by simp⟩
    · rw [if_neg hspace] at h
      cases hstore : store buf bufPointer [c] with
      | none => simp [hstore] at h
      | some written =>
        simp only [hstore] at h
        obtain ⟨hfit, rfl⟩ := store_eq_some hstore
        rw [List.length_singleton] at hfit
        have hlength : (overlay buf bufPointer [c]).length = buf.length :=
          length_overlay buf [c] bufPointer hfit
        obtain ⟨handle, rest, rfl, hrest, hhandle, hend, hcount, hbuf, hroom, htake⟩ := ih h
        rw [hlength] at hbuf hroom htake
        refine ⟨c :: handle, rest, rfl, hrest, ?_, ?_, ?_, hbuf, ?_, ?_⟩
        · simp only [List.mem_cons, not_or]
          exact ⟨Ne.symm hspace, hhandle⟩
        · rw [hend, List.length_cons]
          omega
        · rw [hcount, List.length_cons]
          omega
        · right
          rcases hroom with rfl | hroom
          · rw [hend, List.length_nil]
            exact hfit
          · exact hroom
        · intro hpointer
          have hwritten := take_overlay_end buf [c] hpointer
          rw [List.length_singleton] at hwritten
          rw [htake hfit, hwritten, List.append_assoc, List.singleton_append]

private theorem copyHandles_some {n : Nat} {input input' buf buf' : List UInt8}
    {bufPointer headerEnd : Nat}
    (h : copyHandles n input buf bufPointer = some (input', buf', headerEnd))
    (hpointer : bufPointer ≤ buf.length) :
    ∃ handles : List (List UInt8), handles.length = n ∧ input = spaced handles ++ input' ∧
      (∀ h ∈ handles, 32 ∉ h) ∧ headerEnd = bufPointer + (encodeHandles handles).length ∧
      headerEnd ≤ buf.length ∧ buf'.length = buf.length ∧
      buf'.take headerEnd = buf.take bufPointer ++ encodeHandles handles := by
  induction n generalizing input buf bufPointer with
  | zero =>
    cases h
    exact ⟨[], rfl, rfl, List.forall_mem_nil _, rfl, hpointer, rfl, by simp [encodeHandles]⟩
  | succ n ih =>
    rw [copyHandles] at h
    cases hcopy : copyHandle input buf (bufPointer + 1) 0 with
    | none => simp [hcopy] at h
    | some out =>
      obtain ⟨rest, copied, bufPointer', handleLenCount⟩ := out
      simp only [hcopy] at h
      obtain ⟨handle, tail, rfl, rfl, hspace, rfl, rfl, hlength, hroom, htake⟩ :=
        copyHandle_some hcopy
      have hback : bufPointer + 1 + handle.length - handle.length - 1 = bufPointer := by omega
      rw [Nat.zero_add, hback] at h
      cases hstore : store copied bufPointer [UInt8.ofNat handle.length] with
      | none => simp [hstore] at h
      | some written =>
        simp only [hstore] at h
        obtain ⟨hfit, hwritten⟩ := store_eq_some hstore
        rw [List.length_singleton, hlength] at hfit
        have hbehind : bufPointer + 1 + handle.length ≤ buf.length := by
          rcases hroom with rfl | hroom
          · simpa using hfit
          · exact hroom
        have hwlength : written.length = buf.length := (length_of_store hstore).trans hlength
        -- The byte that was left free takes the length of the handle.
        have hrecord : written.take (bufPointer + 1 + handle.length) =
            buf.take bufPointer ++ prefixed handle := by
          have hcopied := htake hfit
          rw [List.take_succ_eq_append_getElem (by omega)] at hcopied
          have hsplit := List.take_append_drop (bufPointer + 1 + handle.length) copied
          have hfront : (buf.take bufPointer).length = bufPointer := by
            rw [List.length_take, Nat.min_eq_left hpointer]
          rw [hcopied, List.append_assoc, List.append_assoc, List.singleton_append] at hsplit
          rw [hwritten, ← hsplit]
          have hoverlay := overlay_append (buf.take bufPointer)
            (buf[bufPointer] :: (handle ++ copied.drop (bufPointer + 1 + handle.length)))
            [UInt8.ofNat handle.length]
          rw [hfront] at hoverlay
          rw [hoverlay]
          simp only [prefixed, List.length_singleton, List.drop_succ_cons, List.drop_zero]
          rw [← List.append_assoc, List.append_assoc _ [_] handle, List.singleton_append]
          apply List.take_left'
          rw [List.length_append, hfront, List.length_cons]
          omega
        obtain ⟨handles, hcount, hinput, hspaces, hend, hle, hlength', htake'⟩ :=
          ih h (by rw [hwlength]; exact hbehind)
        refine ⟨handle :: handles, by rw [List.length_cons, hcount], ?_, ?_, ?_, ?_, ?_, ?_⟩
        · rw [List.drop_succ_cons, List.drop_zero] at hinput
          simp [spaced, hinput]
        · rw [List.forall_mem_cons]
          exact ⟨hspace, hspaces⟩
        · rw [hend, encodeHandles_cons, List.length_append, length_prefixed]
          omega
        · rw [← hwlength]
          exact hle
        · rw [hlength', hwlength]
        · rw [htake', hrecord, encodeHandles_cons, List.append_assoc]

/-! ## The header -/

private theorem encodeHeader_eq (myHandle inputBuffer buf : List UInt8) {mode : UInt8}
    (hmode : mode = 1 ∨ mode = 2) (hbuf : buf.length = 200) (hmy : myHandle.length ≤ 100) :
    encodeHeader myHandle inputBuffer mode buf =
      copyHandles (handleNum inputBuffer mode).toNat (inputBuffer.drop (handlesStart mode))
        (messageFlag mode :: UInt8.ofNat myHandle.length :: myHandle ++
          [UInt8.ofNat (handleNum inputBuffer mode % 256).toNat] ++ buf.drop (myHandle.length + 3))
        (2 + myHandle.length + 1) := by
  obtain ⟨buf₁, buf₂, buf₃, hlen, hcopy, hcount, hflag⟩ :=
    messageSend_stores (messageFlag mode) myHandle
      (UInt8.ofNat (handleNum inputBuffer mode % 256).toNat) buf hbuf (by omega)
  have hstore : storeFlag buf₃ mode = store buf₃ 0 [messageFlag mode] := by
    rcases hmode with rfl | rfl <;> rfl
  simp only [handleNum] at hcount hflag ⊢
  simp only [encodeHeader, hlen, hcopy, hcount, hstore, hflag, handlesStart,
    Option.bind_eq_bind, Option.bind_some]

theorem encodeHeader_some {myHandle inputBuffer buf : List UInt8} {mode : UInt8}
    (hmode : mode = 1 ∨ mode = 2) (hbuf : buf.length = 200) (hmy : myHandle.length ≤ 100)
    {input header : List UInt8} {headerEnd : Nat}
    (h : encodeHeader myHandle inputBuffer mode buf = some (input, header, headerEnd)) :
    ∃ handles : List (List UInt8), handles.length = (handleNum inputBuffer mode).toNat ∧
      inputBuffer.drop (handlesStart mode) = spaced handles ++ input ∧ (∀ h ∈ handles, 32 ∉ h) ∧
      header.length = 200 ∧
      headerEnd = 2 + myHandle.length + 1 + (encodeHandles handles).length ∧
      header.take headerEnd = messageFlag mode :: UInt8.ofNat myHandle.length :: myHandle ++
        UInt8.ofNat (handleNum inputBuffer mode % 256).toNat :: encodeHandles handles := by
  rw [encodeHeader_eq myHandle inputBuffer buf hmode hbuf hmy] at h
  have hfront : (messageFlag mode :: UInt8.ofNat myHandle.length :: myHandle ++
      [UInt8.ofNat (handleNum inputBuffer mode % 256).toNat]).length =
        2 + myHandle.length + 1 := by
    simp only [List.length_append, List.length_cons, List.length_nil]
    omega
  obtain ⟨handles, hcount, hinput, hspace, hend, -, hlength, htake⟩ := copyHandles_some h
    (by rw [List.length_append, hfront]; omega)
  refine ⟨handles, hcount, hinput, hspace, ?_, hend, ?_⟩
  · rw [hlength, List.length_append, hfront, List.length_drop]
    omega
  · rw [htake, List.take_left' hfront, List.append_assoc, List.singleton_append]

/-! ## The text -/

private theorem sendText_append (headerEnd n : Nat) (input behind buf : List UInt8)
    (bufPointer : Nat) (hn : n ≤ input.length) :
    sendText headerEnd n (input ++ behind) buf bufPointer =
      sendText headerEnd n input buf bufPointer := by
  induction n generalizing input buf bufPointer with
  | zero => simp only [sendText]
  | succ n ih =>
    cases input with
    | nil => simp at hn
    | cons c input =>
      rw [List.length_cons] at hn
      simp only [List.cons_append, sendText, ih input _ _ (by omega)]

private theorem clearText_frame {n : Nat} {buf cleared : List UInt8} {bufPointer : Nat}
    (h : clearText n buf bufPointer = some cleared) (hpointer : bufPointer ≤ buf.length) :
    cleared.length = buf.length ∧ cleared.take bufPointer = buf.take bufPointer := by
  induction n generalizing buf bufPointer with
  | zero =>
    cases h
    exact ⟨rfl, rfl⟩
  | succ n ih =>
    rw [clearText] at h
    cases hstore : store buf (bufPointer + 1) [0] with
    | none => simp [hstore] at h
    | some written =>
      simp only [hstore] at h
      obtain ⟨hfit, hwritten⟩ := store_eq_some hstore
      rw [List.length_singleton] at hfit
      have hlength := length_of_store hstore
      obtain ⟨hcleared, htake⟩ := ih h (by omega)
      refine ⟨hcleared.trans hlength, ?_⟩
      have hfront := congrArg (List.take bufPointer) htake
      rw [List.take_take, List.take_take, Nat.min_eq_left (Nat.le_succ _)] at hfront
      rw [hfront, hwritten]
      exact take_overlay buf [0] (Nat.le_succ _) (by omega)

theorem sendText_payloads {headerEnd n : Nat} {input buf : List UInt8} {bufPointer : Nat}
    {payloads : List (List UInt8)} (h : sendText headerEnd n input buf bufPointer = some payloads)
    (hheader : headerEnd ≤ bufPointer) (hpointer : bufPointer ≤ buf.length) :
    payloads ≠ [] ∧
      ∀ payload ∈ payloads, buf.take headerEnd <+: payload ∧ payload.length ≤ buf.length := by
  induction n generalizing input buf bufPointer payloads with
  | zero =>
    rw [sendText] at h
    cases h
    rw [List.forall_mem_singleton, List.length_take]
    exact ⟨List.cons_ne_nil _ _, List.take_prefix_take_left hheader, Nat.min_le_right _ _⟩
  | succ n ih =>
    cases input with
    | nil => cases h
    | cons c input =>
      rw [sendText] at h
      cases hstore : store buf bufPointer [c] with
      | none => simp [hstore] at h
      | some written =>
        simp only [hstore] at h
        obtain ⟨hfit, hwritten⟩ := store_eq_some hstore
        rw [List.length_singleton] at hfit
        have hlength := length_of_store hstore
        have htake : written.take headerEnd = buf.take headerEnd := by
          rw [hwritten]
          exact take_overlay buf [c] hheader hpointer
        by_cases hfull : bufPointer + 1 ≥ 199
        · rw [if_pos hfull] at h
          cases hclear : clearText (199 - headerEnd) written headerEnd with
          | none => simp [hclear] at h
          | some cleared =>
            simp only [hclear] at h
            obtain ⟨hcleared, hfront⟩ := clearText_frame hclear (by omega)
            cases hsend : sendText headerEnd n input cleared headerEnd with
            | none => simp [hsend] at h
            | some later =>
              simp only [hsend] at h
              cases h
              obtain ⟨-, hlater⟩ := ih hsend (Nat.le_refl _) (by omega)
              rw [hfront, htake, hcleared, hlength] at hlater
              refine ⟨List.cons_ne_nil _ _, ?_⟩
              rw [List.forall_mem_cons, List.length_take, hlength, ← htake]
              refine ⟨⟨List.take_prefix_take_left (by omega), Nat.min_le_right _ _⟩, ?_⟩
              rw [htake]
              exact hlater
        · rw [if_neg hfull] at h
          have hrest := ih h (by omega) (by omega)
          rw [htake, hlength] at hrest
          exact hrest

private theorem sendText_isSome (headerEnd n : Nat) (input buf : List UInt8) (bufPointer : Nat)
    (hbuf : buf.length = 200) (hheader : headerEnd ≤ bufPointer) (hpointer : bufPointer ≤ 199)
    (hn : n ≤ input.length) :
    ∃ payloads, sendText headerEnd n input buf bufPointer = some payloads := by
  induction n generalizing input buf bufPointer with
  | zero => exact ⟨_, by rw [sendText]⟩
  | succ n ih =>
    cases input with
    | nil => simp at hn
    | cons c input =>
      rw [List.length_cons] at hn
      have hstore : store buf bufPointer [c] = some (overlay buf bufPointer [c]) := by
        rw [store, if_pos (by rw [List.length_singleton]; omega)]
      have hlength : (overlay buf bufPointer [c]).length = 200 := by
        rw [length_of_store hstore, hbuf]
      rw [sendText, hstore]
      simp only []
      by_cases hfull : bufPointer + 1 ≥ 199
      · rw [if_pos hfull]
        have hend : ((overlay buf bufPointer [c]).take headerEnd).length = headerEnd := by
          rw [List.length_take]
          omega
        obtain ⟨cleared, hclear, hcleared⟩ := clearText_isSome (199 - headerEnd)
          ((overlay buf bufPointer [c]).take headerEnd)
          ((overlay buf bufPointer [c]).drop headerEnd) (by rw [List.length_drop]; omega)
        rw [List.take_append_drop, hend] at hclear
        obtain ⟨payloads, hsend⟩ := ih input
          ((overlay buf bufPointer [c]).take headerEnd ++ cleared) headerEnd
          (by rw [List.length_append, hend, hcleared, List.length_drop]; omega) (Nat.le_refl _)
          (by omega) (by omega)
        exact ⟨(overlay buf bufPointer [c]).take (bufPointer + 1) :: payloads,
          by simp only [hclear, hsend]⟩
      · rw [if_neg hfull]
        exact ih input (overlay buf bufPointer [c]) (bufPointer + 1) hlength (by omega) (by omega)
          (by omega)

/-! ## Every line -/

private theorem mode_of_processStdin {inputBuffer : List UInt8} {mode : UInt8}
    (h : processStdin inputBuffer = .messageSend mode) : mode = 1 ∨ mode = 2 := by
  unfold processStdin at h
  split at h
  · cases h
  · split at h
    · cases h
      exact .inl rfl
    · cases h
      exact .inr rfl
    all_goals cases h

private theorem length_le_of_mem_handles {handle : List UInt8} {handles : List (List UInt8)}
    (h : handle ∈ handles) : handle.length ≤ (encodeHandles handles).length := by
  induction handles with
  | nil => cases h
  | cons first handles ih =>
    rw [encodeHandles_cons, List.length_append, length_prefixed]
    rcases List.mem_cons.mp h with rfl | h
    · omega
    · have := ih h
      omega

private theorem encodesSafely_of_fits {myHandle inputBuffer buf : List UInt8} {mode : UInt8}
    (hmode : mode = 1 ∨ mode = 2) (hmy : myHandle.length ≤ 100) (hbuf : buf.length = 200)
    (hline : inputBuffer.length ≤ 1023) (h : HeaderFits myHandle inputBuffer mode) :
    EncodesSafely myHandle inputBuffer mode buf := by
  obtain ⟨before, handles, text, rfl, hbefore, hnum, hspace, hheader⟩ := h
  have hsize := length_messageHeader (messageFlag mode) myHandle handles
  have hfew := length_le_encodeHandles handles
  -- The number of handles is read in front of the handles.
  have hnumber (behind : List UInt8) :
      handleNum (before ++ spaced handles ++ text ++ behind) mode = (handles.length : Int) := by
    rw [hnum]
    rcases hmode with rfl | rfl
    · rfl
    · have hbefore : before.length = 5 := hbefore
      simp only [handleNum, List.append_assoc]
      rw [byteAt_append_left before _ 3 (by omega), byteAt_append_left before _ 3 (by omega)]
  have hcount : UInt8.ofNat ((handles.length : Int) % 256).toNat = UInt8.ofNat handles.length := by
    congr 1
    omega
  have hfront : (messageFlag mode :: UInt8.ofNat myHandle.length :: myHandle ++
      [UInt8.ofNat handles.length]).length = 2 + myHandle.length + 1 := by
    simp only [List.length_append, List.length_cons, List.length_nil]
    omega
  have hfree : (buf.drop (myHandle.length + 3)).length = 197 - myHandle.length := by
    rw [List.length_drop]
    omega
  have hencode (behind : List UInt8) :
      encodeHeader myHandle (before ++ spaced handles ++ text ++ behind) mode buf =
        some (text ++ behind, messageHeader (messageFlag mode) myHandle handles ++
            (buf.drop (myHandle.length + 3)).drop (encodeHandles handles).length,
          (messageHeader (messageFlag mode) myHandle handles).length) := by
    have hhandles := copyHandles_handles handles (text ++ behind)
      (messageFlag mode :: UInt8.ofNat myHandle.length :: myHandle ++ [UInt8.ofNat handles.length])
      (buf.drop (myHandle.length + 3)) hspace (by omega)
    rw [hfront, ← hsize] at hhandles
    have hdrop : (before ++ spaced handles ++ text ++ behind).drop (handlesStart mode) =
        spaced handles ++ (text ++ behind) := by
      rw [← hbefore]
      simp
    rw [encodeHeader_eq myHandle _ buf hmode hbuf hmy, hnumber behind, Int.toNat_natCast, hcount,
      hdrop, hhandles]
    simp [messageHeader]
  obtain ⟨payloads, hsend⟩ := sendText_isSome
    (messageHeader (messageFlag mode) myHandle handles).length text.length text
    (messageHeader (messageFlag mode) myHandle handles ++
      (buf.drop (myHandle.length + 3)).drop (encodeHandles handles).length)
    (messageHeader (messageFlag mode) myHandle handles).length
    (by rw [List.length_append, List.length_drop]; omega) (Nat.le_refl _) hheader (Nat.le_refl _)
  obtain ⟨-, hpayloads⟩ := sendText_payloads hsend (Nat.le_refl _)
    (by rw [List.length_append]; omega)
  rw [List.take_left] at hpayloads
  refine ⟨payloads, ?_, ?_⟩
  · intro behind
    have hleft : (UInt16.ofNat (before ++ spaced handles ++ text).length).toNat -
        ((before ++ spaced handles ++ text ++ behind).length - (text ++ behind).length) =
          text.length := by
      rw [UInt16.toNat_ofNat_of_lt' (show _ < 65536 by omega)]
      simp only [List.length_append]
      omega
    rw [messageSend_eq, hencode behind, Option.bind_some]
    simp only [hleft]
    rw [sendText_append _ _ _ _ _ _ (Nat.le_refl _), hsend]
  · intro payload hpayload
    obtain ⟨⟨rest, hrest⟩, -⟩ := hpayloads payload hpayload
    refine ⟨handles, rest, hrest.symm, by omega, ?_⟩
    intro handle hhandle
    have := length_le_of_mem_handles hhandle
    omega

private theorem byteAt_terminated (line : List UInt8) {i : Nat} (h : line.length ≤ i) :
    byteAt (line ++ [0]) i = 0 := by
  obtain ⟨k, rfl⟩ := Nat.exists_eq_add_of_le h
  rw [byteAt_append_right]
  cases k <;> rfl

private theorem length_of_processStdin {line : List UInt8} {mode : UInt8}
    (h : processStdin (line ++ [0]) = .messageSend mode) : 2 ≤ line.length := by
  by_contra hshort
  unfold processStdin at h
  rw [byteAt_terminated line (i := 1) (by omega)] at h
  split at h <;> cases h

/-- A line whose number of handles is not negative reaches the place of the first handle. -/
private theorem handlesStart_le {line : List UInt8} {mode : UInt8}
    (h : processStdin (line ++ [0]) = .messageSend mode) (hnum : 0 ≤ handleNum (line ++ [0]) mode) :
    handlesStart mode ≤ (line ++ [0]).length := by
  have hcommand := length_of_processStdin h
  rw [List.length_append, List.length_singleton]
  rcases mode_of_processStdin h with rfl | rfl
  · change 3 ≤ line.length + 1
    omega
  · change 5 ≤ line.length + 1
    by_contra hshort
    have hdigit : 0 ≤ ((byteAt (line ++ [0]) 3).toNat : Int) - 48 := hnum
    rw [byteAt_terminated line (by omega)] at hdigit
    exact absurd hdigit (by decide)

private theorem spaced_ne_terminated {before line : List UInt8} {handles : List (List UInt8)}
    (hhandles : handles ≠ []) : before ++ spaced handles ≠ line ++ [0] := by
  intro h
  obtain ⟨front, last, rfl⟩ : ∃ front last, handles = front ++ [last] :=
    ⟨_, _, (List.dropLast_append_getLast hhandles).symm⟩
  have hspaced : before ++ spaced (front ++ [last]) = before ++ spaced front ++ last ++ [32] := by
    simp [spaced]
  rw [hspaced] at h
  have hlast := (List.append_inj' h rfl).2
  cases hlast

/-- A negative number makes a count byte that no list of handles in the buffer has. -/
private theorem not_negative {myHandle inputBuffer header : List UInt8} {mode : UInt8}
    {payloads : List (List UInt8)} {input : List UInt8}
    (hheader : header.length = 200) (hmy : myHandle.length ≤ 100)
    (hnegative : handleNum inputBuffer mode < 0)
    (htake : header.take (2 + myHandle.length + 1) =
      messageFlag mode :: UInt8.ofNat myHandle.length :: myHandle ++
        [UInt8.ofNat (handleNum inputBuffer mode % 256).toNat])
    (hsend : sendText (2 + myHandle.length + 1) input.length input header
      (2 + myHandle.length + 1) = some payloads) :
    ¬∀ payload ∈ payloads, ∃ handles text,
      payload = messageHeader (messageFlag mode) myHandle handles ++ text ∧
        handles.length ≤ 255 ∧ ∀ h ∈ handles, h.length ≤ 255 := by
  intro hpayloads
  obtain ⟨hne, hsent⟩ := sendText_payloads hsend (Nat.le_refl _) (by omega)
  rw [hheader] at hsent
  obtain ⟨payload, hpayload⟩ := List.exists_mem_of_ne_nil payloads hne
  obtain ⟨⟨rest, hrest⟩, hlength⟩ := hsent payload hpayload
  obtain ⟨handles, text, heq, hfew, -⟩ := hpayloads payload hpayload
  have hsize := length_messageHeader (messageFlag mode) myHandle handles
  have hrecords := length_le_encodeHandles handles
  rw [heq, List.length_append] at hlength
  have hmode : handleNum inputBuffer mode =
      ((byteAt inputBuffer 3).toNat : Int) - 48 := by
    unfold handleNum at hnegative ⊢
    split at hnegative
    · exact absurd hnegative (by decide)
    · rw [if_neg ‹_›]
  rw [heq, htake, messageHeader] at hrest
  simp only [List.cons_append, List.append_assoc, List.nil_append, List.cons.injEq, true_and,
    List.append_cancel_left_eq] at hrest
  have hcount := congrArg UInt8.toNat hrest.1
  rw [UInt8.toNat_ofNat', UInt8.toNat_ofNat', hmode] at hcount
  omega

/-- The encoder is safe for exactly the lines that list as many handles as they say and leave the
text a byte of the buffer. -/
theorem messageSend_encodesSafely_iff (myHandle line buf : List UInt8) (mode : UInt8)
    (hmy : 1 ≤ myHandle.length ∧ myHandle.length ≤ 100) (hline : line.length ≤ 1022)
    (hcommand : processStdin (line ++ [0]) = .messageSend mode) (hbuf : buf.length = 200) :
    EncodesSafely myHandle (line ++ [0]) mode buf ↔ HeaderFits myHandle (line ++ [0]) mode := by
  have hmode := mode_of_processStdin hcommand
  have hlength : (line ++ [0]).length ≤ 1023 := by
    rw [List.length_append, List.length_singleton]
    omega
  constructor
  · rintro ⟨payloads, hsend, hpayloads⟩
    have hsent := hsend []
    rw [List.append_nil, messageSend_eq, Option.bind_eq_some_iff] at hsent
    obtain ⟨⟨input, header, headerEnd⟩, hencode, htext⟩ := hsent
    have hsuffix := (encodeHeader_frame hencode).1.length_le
    obtain ⟨handles, hnumber, hinput, hspace, hheader, hend, htake⟩ :=
      encodeHeader_some hmode hbuf hmy.2 hencode
    have hleft : (UInt16.ofNat (line ++ [0]).length).toNat -
        ((line ++ [0]).length - input.length) = input.length := by
      rw [UInt16.toNat_ofNat_of_lt' (show _ < 65536 by omega)]
      omega
    simp only [hleft] at htext
    by_cases hnegative : handleNum (line ++ [0]) mode < 0
    · exfalso
      obtain rfl : handles = [] := List.eq_nil_of_length_eq_zero (by omega)
      have hend' : headerEnd = 2 + myHandle.length + 1 := hend
      rw [hend'] at htake htext
      exact not_negative hheader hmy.2 hnegative htake htext hpayloads
    · have hstart := handlesStart_le hcommand (by omega)
      have hsplit : line ++ [0] =
          (line ++ [0]).take (handlesStart mode) ++ spaced handles ++ input := by
        rw [List.append_assoc, ← hinput, List.take_append_drop]
      refine ⟨_, handles, input, hsplit, by rw [List.length_take]; omega, by omega, hspace, ?_⟩
      rw [length_messageHeader, ← hend]
      cases input with
      | nil =>
        -- Without a text the line would have to end at a space.
        have hnone : handles = [] := by
          by_contra hhandles
          rw [List.append_nil] at hsplit
          exact spaced_ne_terminated hhandles hsplit.symm
        rw [hend, hnone]
        simp only [encodeHandles, List.flatMap_nil, List.length_nil]
        omega
      | cons c input =>
        rw [List.length_cons, sendText] at htext
        cases hstore : store header headerEnd [c] with
        | none => simp [hstore] at htext
        | some written =>
          have hfit := (store_eq_some hstore).1
          rw [List.length_singleton] at hfit
          omega
  · exact encodesSafely_of_fits hmode hmy.2 hbuf hlength

theorem messageSend_encodesSafely_hi :
    EncodesSafely [97] ([37, 77, 32, 98, 32, 104, 105] ++ [0]) 1 (List.replicate 200 7) :=
  (messageSend_encodesSafely_iff [97] [37, 77, 32, 98, 32, 104, 105] (List.replicate 200 7) 1
    (by decide) (by decide) (by decide) List.length_replicate).mpr
      ⟨[37, 77, 32], [[98]], [104, 105, 0], rfl, rfl, rfl, by decide, by decide⟩

/-- `%M b` has no space behind the handle, and the encoder reads on behind the line. -/
theorem unspaced_handle_unsafe :
    ¬EncodesSafely [97] ([37, 77, 32, 98] ++ [0]) 1 (List.replicate 200 7) := by
  rintro ⟨payloads, hsend, -⟩
  have hline := hsend []
  have hnone : messageSend [97] 5 [37, 77, 32, 98, 0] 1 (List.replicate 200 7) = none := by
    decide +kernel
  rw [List.append_nil] at hline
  cases hnone.symm.trans hline

end Cpe464.Chat.Client
