import Cpe464.Transfer.ServerLoop

/-!
# The connect request

`connectBuf` puts the name of the file, without its length and without a terminator, directly in
front of the two sizes in network order, and the server looks for the end of the name with `strlen`.
The end it finds is the highest byte of the window size, as long as that byte is zero.
-/

namespace Cpe464.Transfer

/-- `strncpy` into an array of `n` bytes. -/
def strncpy (src : List UInt8) (n : Nat) : List UInt8 :=
  src.take n ++ List.replicate (n - src.length) 0

/-- What `processArgs` of rcopy stores of a request, with the results of its `atoi` calls. -/
def processArgs (fromFileName : List UInt8) (windowSize : UInt32) (bufferSize : UInt16) :
    SetupInfo where
  fromFileName := strncpy fromFileName 100
  windowSize := windowSize
  bufferSize := bufferSize

/-- `connectBuf`: the packet it sends. -/
def connectBuf (setupInfo : SetupInfo) : Option (List UInt8) := do
  let len ← strlen setupInfo.fromFileName
  let filenameLen := UInt8.ofNat len
  let bufferSize := UInt16.ofNat (filenameLen.toNat + 2 + 4)
  let buf := setupInfo.fromFileName.take filenameLen.toNat ++
    toLE 4 (htonl setupInfo.windowSize.toNat) ++ toLE 2 (htons setupInfo.bufferSize.toNat)
  return sendData buf bufferSize 0 8

/-- The request is sent, and every turn of the server that receives it sets both sizes to those of
the client, leaves the name for `handleSend` to open and forks, if it forks, for these. -/
def ConnectArrives (name : List UInt8) (windowSize : UInt32) (bufferSize : UInt16) : Prop :=
  ∃ packet, connectBuf (processArgs name windowSize bufferSize) = some packet ∧
    ∀ (s : ServerLoop) (arrival : Arrival), arrival.datagram = packet →
      let turn := processClient s arrival
      turn.2.setupInfo.windowSize = windowSize ∧ turn.2.setupInfo.bufferSize = bufferSize ∧
        requestedFile turn.2.buf = name ∧
        (Forks s arrival → turn.1 = [.fork arrival.client name windowSize bufferSize])

/-! ## The packet -/

/-- The payload of a request for a name with room for a terminator. -/
def connectPayload (name : List UInt8) (windowSize : UInt32) (bufferSize : UInt16) : List UInt8 :=
  name ++ (toLE 4 windowSize.toNat).reverse ++ (toLE 2 bufferSize.toNat).reverse

private theorem length_connectPayload (name : List UInt8) (windowSize : UInt32)
    (bufferSize : UInt16) :
    (connectPayload name windowSize bufferSize).length = name.length + 6 := by
  simp only [connectPayload, List.length_append, List.length_reverse, length_toLE]

section Name

variable {name : List UInt8} (hzero : 0 ∉ name)

include hzero

private theorem strlen_strncpy (hname : name.length ≤ 100) :
    strlen (strncpy name 100) = if name.length = 100 then none else some name.length := by
  rw [strncpy, List.take_of_length_le hname]
  exact strlen_padded hzero hname

theorem connectBuf_eq (hname : name.length ≤ 99) (windowSize : UInt32) (bufferSize : UInt16) :
    connectBuf (processArgs name windowSize bufferSize) =
      some (sendData (connectPayload name windowSize bufferSize)
        (UInt16.ofNat (connectPayload name windowSize bufferSize).length) 0 8) := by
  have hlen := strlen_strncpy hzero (by omega)
  rw [if_neg (by omega)] at hlen
  have hsize : (UInt8.ofNat name.length).toNat = name.length :=
    UInt8.toNat_ofNat_of_lt' (show _ < 256 by omega)
  have htake : (strncpy name 100).take name.length = name := by
    rw [strncpy, List.take_of_length_le (show name.length ≤ 100 by omega), List.take_left]
  simp only [connectBuf, processArgs, hlen, hsize, htake, htonl, htons, toLE_swapBytes,
    length_connectPayload, Option.bind_eq_bind, Option.bind_some, Option.pure_def]
  rfl

private theorem connectBuf_full (hname : name.length = 100) (windowSize : UInt32)
    (bufferSize : UInt16) : connectBuf (processArgs name windowSize bufferSize) = none := by
  have hlen := strlen_strncpy hzero (Nat.le_of_eq hname)
  rw [if_pos hname] at hlen
  simp only [connectBuf, processArgs, hlen, Option.bind_eq_bind, Option.bind_none]

end Name

/-! ## The receive buffer -/

private theorem slice_drop (memory : List UInt8) (i offset count : Nat) :
    slice (memory.drop i) offset count = slice memory (i + offset) count := by
  rw [slice, slice, List.drop_drop]

private theorem processClient_connect {s : ServerLoop} {arrival : Arrival}
    (hflag : byteAt (landed serverMaxBuf s.buf arrival.datagram) 6 = 8) :
    (processClient s arrival).2.setupInfo =
      connect (landed serverMaxBuf s.buf arrival.datagram) arrival := by
  simp only [processClient, header]
  split_ifs <;> simp_all

section Request

variable {name : List UInt8} (hname : name.length ≤ 99) {windowSize : UInt32}
  {bufferSize : UInt16} {s : ServerLoop} {arrival : Arrival}
  (harrival : arrival.datagram = sendData (connectPayload name windowSize bufferSize)
    (UInt16.ofNat (connectPayload name windowSize bufferSize).length) 0 8)

include hname harrival

theorem flag_request : byteAt (landed serverMaxBuf s.buf arrival.datagram) 6 = 8 := by
  have hsize := length_connectPayload name windowSize bufferSize
  rw [flag_landed s.length_buf (by decide), harrival]
  exact flagSeen_sendData s.buf _ 0 8 (by omega)

private theorem drop_request :
    (landed serverMaxBuf s.buf arrival.datagram).drop 7 =
      connectPayload name windowSize bufferSize ++ s.buf.drop (name.length + 13) := by
  have hsize := length_connectPayload name windowSize bufferSize
  have hmax : serverMaxBuf = 1407 := rfl
  rw [harrival, drop_landed_sendData _ _ _ _ (by omega) (by decide), hsize]

private theorem slice_request :
    ∃ rest, slice (landed serverMaxBuf s.buf arrival.datagram) 7 100 =
      name ++ UInt8.ofNat (windowSize.toNat / 256 / 256 / 256) :: rest := by
  obtain ⟨room, hroom⟩ : ∃ room, 100 - name.length = room + 1 := ⟨99 - name.length, by omega⟩
  have hhighest : (toLE 4 windowSize.toNat).reverse =
      UInt8.ofNat (windowSize.toNat / 256 / 256 / 256) :: (toLE 3 windowSize.toNat).reverse := rfl
  rw [slice, drop_request hname harrival, connectPayload, List.append_assoc, List.append_assoc,
    List.take_append, hroom, List.take_of_length_le (by omega), hhighest, List.cons_append,
    List.take_succ_cons]
  exact ⟨_, rfl⟩

private theorem sizes_request :
    slice (landed serverMaxBuf s.buf arrival.datagram) (7 + name.length) 4 =
      (toLE 4 windowSize.toNat).reverse ∧
    slice (landed serverMaxBuf s.buf arrival.datagram) (11 + name.length) 2 =
      (toLE 2 bufferSize.toNat).reverse := by
  have hbehind := drop_request (s := s) hname harrival
  constructor
  · have hslice := slice_middle name (toLE 4 windowSize.toNat).reverse
      ((toLE 2 bufferSize.toNat).reverse ++ s.buf.drop (name.length + 13))
    rw [List.length_reverse, length_toLE, ← List.append_assoc] at hslice
    rw [← slice_drop, hbehind]
    exact hslice
  · have hslice := slice_middle (name ++ (toLE 4 windowSize.toNat).reverse)
      (toLE 2 bufferSize.toNat).reverse (s.buf.drop (name.length + 13))
    rw [List.length_append, List.length_reverse, List.length_reverse, length_toLE, length_toLE]
      at hslice
    rw [show 11 + name.length = 7 + (name.length + 4) by omega, ← slice_drop, hbehind]
    exact hslice

/-- With a window size below 2^24 the name ends at its highest byte, and the request arrives. -/
theorem request_arrives (hzero : 0 ∉ name) (hwindow : windowSize.toNat < 2 ^ 24) :
    let turn := processClient s arrival
    turn.2.setupInfo.windowSize = windowSize ∧ turn.2.setupInfo.bufferSize = bufferSize ∧
      requestedFile turn.2.buf = name ∧
      (Forks s arrival → turn.1 = [.fork arrival.client name windowSize bufferSize]) := by
  intro turn
  obtain ⟨rest, hslice⟩ := slice_request (s := s) hname harrival
  obtain ⟨hwindows, hbuffers⟩ := sizes_request (s := s) hname harrival
  have hhighest : UInt8.ofNat (windowSize.toNat / 256 / 256 / 256) = 0 := by
    have hnone : windowSize.toNat / 256 / 256 / 256 = 0 := by omega
    rw [hnone]
    rfl
  rw [hhighest] at hslice
  have hfile : requestedFile (landed serverMaxBuf s.buf arrival.datagram) = name := by
    rw [requestedFile, hslice]
    exact cString_append_zero hzero rest
  have hlen (overrun : Nat) :
      nameLength (slice (landed serverMaxBuf s.buf arrival.datagram) 7 100) overrun =
        name.length := by
    rw [nameLength, hslice, strlen, if_pos (by simp), cString_append_zero hzero]
    rfl
  have hnetwork (width v : Nat) (h : v < 256 ^ width) :
      swapBytes width (ofLE (toLE width v).reverse) = v := by
    have hswap := swapBytes_swapBytes width v
    rw [Nat.mod_eq_of_lt h] at hswap
    exact hswap
  have hsizes : (connect (landed serverMaxBuf s.buf arrival.datagram) arrival).windowSize =
        windowSize ∧
      (connect (landed serverMaxBuf s.buf arrival.datagram) arrival).bufferSize =
        bufferSize := by
    simp only [connect, hlen, hwindows, hbuffers, ntohl, ntohs]
    rw [hnetwork 4 _ windowSize.toNat_lt, hnetwork 2 _ bufferSize.toNat_lt]
    exact ⟨UInt32.ofNat_toNat, UInt16.ofNat_toNat⟩
  have hsetup := processClient_connect (flag_request (s := s) hname harrival)
  refine ⟨?_, ?_, ?_, ?_⟩
  · rw [hsetup]
    exact hsizes.1
  · rw [hsetup]
    exact hsizes.2
  · rw [processClient_buf]
    exact hfile
  · intro hforks
    rw [processClient_output]
    simp only [if_pos hforks, hfile, hsizes.1, hsizes.2]

end Request

/-- A connect request arrives as it was sent exactly when the name leaves room for a terminator in
its field and the window size is below 2^24. -/
theorem connectBuf_arrives_iff (name : List UInt8) (windowSize : UInt32) (bufferSize : UInt16)
    (hname : 1 ≤ name.length ∧ name.length ≤ 100) (hzero : 0 ∉ name) :
    ConnectArrives name windowSize bufferSize ↔
      name.length ≤ 99 ∧ windowSize.toNat < 2 ^ 24 := by
  constructor
  · rintro ⟨packet, hpacket, harrives⟩
    have hshort : name.length ≤ 99 := by
      by_contra hlong
      rw [connectBuf_full hzero (by omega)] at hpacket
      cases hpacket
    refine ⟨hshort, ?_⟩
    rw [connectBuf_eq hzero hshort] at hpacket
    let arrival : Arrival := ⟨packet, 0, true, 0, 0⟩
    have harrival : arrival.datagram = sendData (connectPayload name windowSize bufferSize)
        (UInt16.ofNat (connectPayload name windowSize bufferSize).length) 0 8 :=
      (Option.some.inj hpacket).symm
    obtain ⟨-, -, hfile, -⟩ := harrives serverStart arrival rfl
    obtain ⟨rest, hslice⟩ := slice_request (s := serverStart) hshort harrival
    rw [processClient_buf, requestedFile, hslice, cString_append hzero] at hfile
    -- The name goes on with the highest byte of the window size unless that is zero.
    by_contra hwindow
    have hlt := windowSize.toNat_lt
    have hbyte : UInt8.ofNat (windowSize.toNat / 256 / 256 / 256) ≠ 0 := by
      intro h
      have hvalue := congrArg UInt8.toNat h
      rw [UInt8.toNat_ofNat'] at hvalue
      change _ = 0 at hvalue
      omega
    rw [cString_cons hbyte] at hfile
    exact absurd (List.append_right_eq_self.mp hfile) (List.cons_ne_nil _ _)
  · rintro ⟨hshort, hwindow⟩
    refine ⟨_, connectBuf_eq hzero hshort windowSize bufferSize, ?_⟩
    intro s arrival harrival
    exact request_arrives hshort harrival hzero hwindow

theorem connectBuf_arrives_f : ConnectArrives [102] 10 1000 :=
  (connectBuf_arrives_iff [102] 10 1000 (by decide) (by decide)).mpr (by decide)

def wideRequest : List UInt8 := sendData ([102] ++ [1, 0, 0, 0, 3, 232]) 7 0 8

/-- With a window size of 2^24 the name `f` goes on with a byte of the window size. -/
theorem wide_window_renames :
    connectBuf (processArgs [102] 16777216 1000) = some wideRequest ∧
      requestedFile (processClient serverStart ⟨wideRequest, 0, true, 0, 0⟩).2.buf = [102, 1] ∧
      ¬ConnectArrives [102] 16777216 1000 := by
  have hsent : connectBuf (processArgs [102] 16777216 1000) = some wideRequest := by
    decide +kernel
  have hfile : requestedFile (processClient serverStart ⟨wideRequest, 0, true, 0, 0⟩).2.buf =
      [102, 1] := by
    decide +kernel
  refine ⟨hsent, hfile, ?_⟩
  rintro ⟨packet, hpacket, harrives⟩
  obtain rfl : wideRequest = packet := Option.some.inj (hsent.symm.trans hpacket)
  have hname := (harrives serverStart ⟨wideRequest, 0, true, 0, 0⟩ rfl).2.2.1
  rw [hfile] at hname
  exact absurd hname (by decide)

end Cpe464.Transfer
