import Cpe464.Chat.Client

/-!
# Long messages

A text that does not fit one PDU goes out in several, each of which repeats the header. Both
encoders of the client end in the same text loop, so that what holds of the loop holds of every
command line, well formed or not, whose header leaves room for a byte of text.
-/

namespace Cpe464.Chat.Client

/-- The PDUs are the header and a piece of the text each, and the pieces are the text. -/
structure Fragmented (header text : List UInt8) (payloads : List (List UInt8)) : Prop where
  count : payloads.length = text.length / (199 - header.length) + 1
  full : ∀ payload ∈ payloads.dropLast, payload.length = 199
  begins : ∀ payload ∈ payloads, header <+: payload
  text : payloads.flatMap (List.drop header.length) = text

/-! ## The text loop -/

private theorem fragmented_of_chunked {header text : List UInt8} {fragments : List (List UInt8)}
    (h : Chunked (199 - header.length) text fragments) (hheader : header.length ≤ 198) :
    Fragmented header text (fragments.map (header ++ ·)) where
  count := by rw [List.length_map, h.length_eq]
  full := by
    intro payload hpayload
    rw [← List.map_dropLast] at hpayload
    obtain ⟨fragment, hfragment, rfl⟩ := List.mem_map.mp hpayload
    have hfull := h.length_of_mem_dropLast fragment hfragment
    rw [List.length_append]
    omega
  begins := by
    intro payload hpayload
    obtain ⟨fragment, -, rfl⟩ := List.mem_map.mp hpayload
    exact List.prefix_append header fragment
  text := by
    have hdrop : List.drop header.length ∘ (header ++ ·) = id := by
      funext fragment
      exact List.drop_left
    rw [List.flatMap_def, List.map_map, hdrop, List.map_id, h.flatten]

private theorem sendText_fragmented (buf input : List UInt8) (headerEnd n : Nat)
    (hbuf : buf.length = 200) (hheader : headerEnd ≤ 198) (hn : n ≤ input.length) :
    ∃ payloads, sendText headerEnd n input buf headerEnd = some payloads ∧
      Fragmented (buf.take headerEnd) (input.take n) payloads := by
  have hend : (buf.take headerEnd).length = headerEnd := by
    rw [List.length_take, hbuf]
    omega
  have htext : (input.take n).length = n := by
    rw [List.length_take]
    omega
  obtain ⟨fragments, hsend, hchunks⟩ := sendText_chunks (buf.take headerEnd) (input.take n)
    (input.drop n) [] (buf.drop headerEnd)
    (by rw [hend, List.length_drop, List.length_nil, hbuf]; omega)
    (by rw [hend, List.length_nil]; omega)
  rw [hend, htext, List.append_nil, List.take_append_drop, List.take_append_drop, List.length_nil,
    Nat.add_zero] at hsend
  exact ⟨_, hsend, fragmented_of_chunked hchunks (by rw [hend]; exact hheader)⟩

/-! ## The headers -/

theorem length_of_store {memory memory' bytes : List UInt8} {offset : Nat}
    (h : store memory offset bytes = some memory') : memory'.length = memory.length := by
  obtain ⟨hfit, rfl⟩ := store_eq_some h
  exact length_overlay memory bytes offset hfit

private theorem copyHandle_frame {input input' buf buf' : List UInt8} {bufPointer bufPointer' : Nat}
    {handleLenCount handleLenCount' : Nat}
    (h : copyHandle input buf bufPointer handleLenCount =
      some (input', buf', bufPointer', handleLenCount')) :
    input' <:+ input ∧ buf'.length = buf.length := by
  induction input generalizing buf bufPointer handleLenCount with
  | nil => cases h
  | cons c input ih =>
    rw [copyHandle] at h
    by_cases hspace : c = 32
    · rw [if_pos hspace] at h
      cases h
      exact ⟨List.suffix_rfl, rfl⟩
    · rw [if_neg hspace] at h
      cases hstore : store buf bufPointer [c] with
      | none => simp [hstore] at h
      | some written =>
        simp only [hstore] at h
        obtain ⟨hsuffix, hlength⟩ := ih h
        exact ⟨hsuffix.trans (List.suffix_cons c input),
          hlength.trans (length_of_store hstore)⟩

private theorem copyHandles_frame {n : Nat} {input input' buf buf' : List UInt8}
    {bufPointer headerEnd : Nat}
    (h : copyHandles n input buf bufPointer = some (input', buf', headerEnd)) :
    input' <:+ input ∧ buf'.length = buf.length := by
  induction n generalizing input buf bufPointer with
  | zero =>
    cases h
    exact ⟨List.suffix_rfl, rfl⟩
  | succ n ih =>
    rw [copyHandles] at h
    cases hcopy : copyHandle input buf (bufPointer + 1) 0 with
    | none => simp [hcopy] at h
    | some out =>
      obtain ⟨rest, copied, bufPointer', handleLenCount⟩ := out
      simp only [hcopy] at h
      cases hstore : store copied (bufPointer' - handleLenCount - 1)
          [UInt8.ofNat handleLenCount] with
      | none => simp [hstore] at h
      | some written =>
        simp only [hstore] at h
        obtain ⟨hcopied, hlength⟩ := copyHandle_frame hcopy
        obtain ⟨hsuffix, hlength'⟩ := ih h
        refine ⟨(hsuffix.trans (List.drop_suffix 1 rest)).trans hcopied, ?_⟩
        rw [hlength', length_of_store hstore, hlength]

theorem encodeHeader_frame {myHandle inputBuffer input buf buf' : List UInt8} {mode : UInt8}
    {headerEnd : Nat}
    (h : encodeHeader myHandle inputBuffer mode buf = some (input, buf', headerEnd)) :
    input <:+ inputBuffer ∧ buf'.length = buf.length := by
  simp only [encodeHeader, Option.bind_eq_bind, Option.bind_eq_some_iff] at h
  obtain ⟨buf₁, hlen, buf₂, hcopy, buf₃, hcount, buf₄, hflag, hhandles⟩ := h
  obtain ⟨hsuffix, hlength⟩ := copyHandles_frame hhandles
  refine ⟨hsuffix.trans (List.drop_suffix _ inputBuffer), ?_⟩
  have hflagged : buf₄.length = buf₃.length := by
    unfold storeFlag at hflag
    split at hflag
    · exact length_of_store hflag
    · split at hflag
      · exact length_of_store hflag
      · rw [Option.some.inj hflag]
  rw [hlength, hflagged, length_of_store hcount, length_of_store hcopy, length_of_store hlen]

theorem messageSend_eq (myHandle : List UInt8) (bufferLength : UInt16) (inputBuffer : List UInt8)
    (mode : UInt8) (buf : List UInt8) :
    messageSend myHandle bufferLength inputBuffer mode buf =
      (encodeHeader myHandle inputBuffer mode buf).bind fun (input, buf, headerEnd) =>
        sendText headerEnd (bufferLength.toNat - (inputBuffer.length - input.length)) input buf
          headerEnd := by
  simp only [messageSend, encodeHeader, Option.bind_eq_bind, Option.bind_assoc]

theorem sendBroadcast_stores (sender buf : List UInt8) (hbuf : buf.length = 200)
    (hsender : sender.length ≤ 196) :
    ∃ buf₁ buf₂ free, store buf 0 [4] = some buf₁ ∧
      store buf₁ 1 [UInt8.ofNat sender.length] = some buf₂ ∧
      store buf₂ 2 sender = some (4 :: UInt8.ofNat sender.length :: sender ++ free) ∧
      free.length = 198 - sender.length := by
  match buf with
  | [] => simp at hbuf
  | [b] => simp at hbuf
  | b₀ :: b₁ :: rest =>
    have hrest : rest.length = 198 := by simpa using hbuf
    have hflag := store_append [] (b₀ :: b₁ :: rest) [4] (by simp)
    have hlen := store_append [4] (b₁ :: rest) [UInt8.ofNat sender.length] (by simp)
    have hcopy := store_append [4, UInt8.ofNat sender.length] rest sender (by omega)
    refine ⟨_, _, rest.drop sender.length, hflag, hlen, hcopy, ?_⟩
    rw [List.length_drop, hrest]

/-- A command line goes out in fragments whenever the header of its message ends at 198 or before
and the text begins inside the line: for `messageSend` with either command and for
`sendBroadcast`. -/
theorem messages_fragmented (myHandle inputBuffer buf : List UInt8) (bufferLength : UInt16)
    (hbuf : buf.length = 200) (hline : bufferLength.toNat ≤ inputBuffer.length) :
    (∀ mode input header headerEnd,
      encodeHeader myHandle inputBuffer mode buf = some (input, header, headerEnd) →
      let inputPointer := inputBuffer.length - input.length
      headerEnd ≤ 198 → inputPointer ≤ bufferLength.toNat →
      ∃ payloads, messageSend myHandle bufferLength inputBuffer mode buf = some payloads ∧
        Fragmented (header.take headerEnd)
          (slice inputBuffer inputPointer (bufferLength.toNat - inputPointer)) payloads) ∧
    (2 + myHandle.length ≤ 198 → 3 ≤ bufferLength.toNat →
      ∃ payloads, sendBroadcast myHandle bufferLength inputBuffer buf = some payloads ∧
        Fragmented (4 :: UInt8.ofNat myHandle.length :: myHandle)
          (slice inputBuffer 3 (bufferLength.toNat - 3)) payloads) := by
  constructor
  · intro mode input header headerEnd hencode inputPointer hheader htext
    obtain ⟨hsuffix, hlength⟩ := encodeHeader_frame hencode
    have hinput : inputBuffer.drop inputPointer = input :=
      (List.suffix_iff_eq_drop.mp hsuffix).symm
    have hleft : bufferLength.toNat - inputPointer ≤ input.length := by
      rw [← hinput, List.length_drop]
      omega
    rw [messageSend_eq, hencode, Option.bind_some, slice, hinput]
    exact sendText_fragmented _ _ _ _ (hlength.trans hbuf) hheader hleft
  · intro hheader htext
    obtain ⟨buf₁, buf₂, free, hflag, hlen, hcopy, hfree⟩ :=
      sendBroadcast_stores myHandle buf hbuf (by omega)
    have hend : (4 :: UInt8.ofNat myHandle.length :: myHandle).length = 2 + myHandle.length := by
      simp only [List.length_cons]
      omega
    obtain ⟨payloads, hsend, hfragmented⟩ := sendText_fragmented
      (4 :: UInt8.ofNat myHandle.length :: myHandle ++ free) (inputBuffer.drop 3)
      (2 + myHandle.length) (bufferLength.toNat - 3)
      (by rw [List.length_append, hend]; omega) hheader (by rw [List.length_drop]; omega)
    rw [← hend, List.take_left] at hfragmented
    refine ⟨payloads, ?_, hfragmented⟩
    simp only [sendBroadcast, hflag, hlen, hcopy, hsend, Option.bind_eq_bind, Option.bind_some]

theorem messages_fragmented_hi :
    (∃ payloads, messageSend [97] 8 [37, 77, 32, 98, 32, 104, 105, 0] 1 (List.replicate 200 7) =
        some payloads ∧ Fragmented [5, 1, 97, 1, 1, 98] [104, 105, 0] payloads) ∧
    (∃ payloads, sendBroadcast [97] 8 [37, 66, 32, 111, 110, 101, 33, 0] (List.replicate 200 7) =
        some payloads ∧ Fragmented [4, 1, 97] [111, 110, 101, 33, 0] payloads) := by
  constructor
  · have h := (messages_fragmented [97] [37, 77, 32, 98, 32, 104, 105, 0] (List.replicate 200 7) 8
      List.length_replicate (by decide)).1 1 [104, 105, 0]
      ([5, 1, 97, 1, 1, 98] ++ List.replicate 194 7) 6 (by decide +kernel) (by decide) (by decide)
    exact h
  · have h := (messages_fragmented [97] [37, 66, 32, 111, 110, 101, 33, 0] (List.replicate 200 7) 8
      List.length_replicate (by decide)).2 (by decide) (by decide)
    exact h

end Cpe464.Chat.Client
