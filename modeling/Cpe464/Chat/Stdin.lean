import Cpe464.Framework.Bytes

/-!
# Typed lines

`readFromStdin` takes characters off standard input until it has seen the end of a line or stored
as many as its buffer holds, and `processStdin` runs what it got as a command. The rest of a longer
line stays in the input, where the next call finds it.
-/

namespace Cpe464.Chat.Client

/-- The loop of `readFromStdin` with room for `room` more characters: what it stores, and the input
behind what it takes. `getchar` waits when the input runs out. -/
def readChars : Nat → List UInt8 → Option (List UInt8 × List UInt8)
  | 0, input => some ([], input)
  | _ + 1, [] => none
  | room + 1, inputChar :: input =>
      if inputChar = 10 then some ([], input)
      else
        match readChars room input with
        | none => none
        | some (chars, rest) => some (inputChar :: chars, rest)

/-- What a call of `readFromStdin` returns, its buffer and the input it leaves. -/
structure StdinRead where
  bufferIndex : Nat
  buffer : List UInt8
  rest : List UInt8

/-- `MAXBUF` in cclient.c. -/
def maxBuf : Nat := 1024

def readFromStdin (buffer input : List UInt8) : Option StdinRead :=
  match readChars (maxBuf - 1) input with
  | none => none
  | some (chars, rest) =>
      some {
        bufferIndex := chars.length + 1
        buffer := overlay (overlay buffer 0 [0]) 0 (chars ++ [0])
        rest }

/-- What `processStdin` makes of a line. -/
inductive Typed
  | messageSend (mode : UInt8)
  | getList
  | sendBroadcast
  | notPercent
  | incorrect
  deriving DecidableEq

def tolower (c : UInt8) : UInt8 := if 65 ≤ c ∧ c ≤ 90 then c + 32 else c

/-- The switch of `processStdin`. -/
def processStdin (inputBuffer : List UInt8) : Typed :=
  if byteAt inputBuffer 0 ≠ 37 then .notPercent
  else
    match (tolower (byteAt inputBuffer 1)).toNat with
    | 109 => .messageSend 1
    | 99 => .messageSend 2
    | 108 => .getList
    | 98 => .sendBroadcast
    | _ => .incorrect

/-! ## One call -/

private theorem readChars_line {line : List UInt8} (hline : 10 ∉ line) (input : List UInt8)
    {room : Nat} (hroom : line.length < room) :
    readChars room (line ++ 10 :: input) = some (line, input) := by
  induction line generalizing room with
  | nil =>
    obtain ⟨room, rfl⟩ : ∃ k, room = k + 1 := ⟨room - 1, by omega⟩
    rfl
  | cons c line ih =>
    simp only [List.mem_cons, not_or] at hline
    rw [List.length_cons] at hroom
    obtain ⟨room, rfl⟩ : ∃ k, room = k + 1 := ⟨room - 1, by omega⟩
    rw [List.cons_append, readChars, if_neg (Ne.symm hline.1), ih hline.2 (by omega)]

private theorem readChars_full {line : List UInt8} (hline : 10 ∉ line) (input : List UInt8)
    {room : Nat} (hroom : room ≤ line.length) :
    readChars room (line ++ input) = some (line.take room, line.drop room ++ input) := by
  induction line generalizing room with
  | nil =>
    obtain rfl : room = 0 := Nat.le_zero.mp hroom
    rfl
  | cons c line ih =>
    cases room with
    | zero => rfl
    | succ room =>
      simp only [List.mem_cons, not_or] at hline
      rw [List.length_cons] at hroom
      rw [List.cons_append, readChars, if_neg (Ne.symm hline.1), ih hline.2 (by omega)]
      rfl

/-! ## Successive calls -/

/-- The input of some lines. -/
def typed (lines : List (List UInt8)) : List UInt8 := lines.flatMap fun line => line ++ [10]

private theorem typed_cons (line : List UInt8) (lines : List (List UInt8)) :
    typed (line :: lines) = line ++ 10 :: typed lines := by
  simp [typed]

/-- A call of `readFromStdin` and the input it begins at. -/
structure StdinCall where
  start : List UInt8
  read : StdinRead

/-- The calls until the input is used up, each into a buffer of its own. -/
def readCalls : List (List UInt8) → List UInt8 → List StdinCall
  | [], _ => []
  | _ :: _, [] => []
  | buffer :: buffers, c :: input =>
      match readFromStdin buffer (c :: input) with
      | none => []
      | some read => ⟨c :: input, read⟩ :: readCalls buffers read.rest

/-- There is one call for each line, which begins where the line does and yields its first
characters, at most 1023 of them, with a terminator. -/
def OneCommandPerLine : List (List UInt8) → List StdinCall → Prop
  | [], [] => True
  | line :: lines, call :: calls =>
      call.start = typed (line :: lines) ∧
      call.read.bufferIndex = min line.length 1023 + 1 ∧
      call.read.buffer.take call.read.bufferIndex = line.take 1023 ++ [0] ∧
      OneCommandPerLine lines calls
  | _, _ => False

theorem OneCommandPerLine.length_eq {lines : List (List UInt8)} {calls : List StdinCall}
    (h : OneCommandPerLine lines calls) : calls.length = lines.length := by
  induction lines generalizing calls with
  | nil =>
    cases calls with
    | nil => rfl
    | cons call calls => exact h.elim
  | cons line lines ih =>
    cases calls with
    | nil => exact h.elim
    | cons call calls => rw [List.length_cons, List.length_cons, ih h.2.2.2]

/-- What a call does at the beginning of a line: it stores the first characters, and only the end
of a line of at most 1022 is taken out of the input. -/
theorem readFromStdin_line (buffer : List UInt8) {line : List UInt8} (hline : 10 ∉ line)
    (input : List UInt8) :
    ∃ read, readFromStdin buffer (line ++ 10 :: input) = some read ∧
      read.bufferIndex = min line.length 1023 + 1 ∧
      read.buffer.take read.bufferIndex = line.take 1023 ++ [0] ∧
      read.rest = if line.length ≤ 1022 then input else line.drop 1023 ++ 10 :: input := by
  have hchars : readChars (maxBuf - 1) (line ++ 10 :: input) = some (line.take 1023,
      if line.length ≤ 1022 then input else line.drop 1023 ++ 10 :: input) := by
    by_cases hshort : line.length ≤ 1022
    · rw [if_pos hshort, readChars_line hline input (by rw [maxBuf]; omega),
        List.take_of_length_le (by omega)]
    · rw [if_neg hshort, readChars_full hline (10 :: input) (by rw [maxBuf]; omega)]
      rfl
  refine ⟨_, by rw [readFromStdin, hchars], ?_, ?_, rfl⟩
  · rw [List.length_take, Nat.min_comm]
  · rw [overlay_zero]
    apply List.take_left'
    rw [List.length_append, List.length_singleton]

private theorem readCalls_cons (buffer : List UInt8) (buffers : List (List UInt8))
    {input : List UInt8} (hinput : input ≠ []) {read : StdinRead}
    (hread : readFromStdin buffer input = some read) :
    readCalls (buffer :: buffers) input = ⟨input, read⟩ :: readCalls buffers read.rest := by
  cases input with
  | nil => exact absurd rfl hinput
  | cons c input => rw [readCalls, hread]

private theorem start_of_mem_head (buffers : List (List UInt8)) (hbuffers : buffers ≠ [])
    {line : List UInt8} (hline : 10 ∉ line) (input : List UInt8) :
    ∃ read calls,
      readCalls buffers (line ++ 10 :: input) = ⟨line ++ 10 :: input, read⟩ :: calls := by
  cases buffers with
  | nil => exact absurd rfl hbuffers
  | cons buffer buffers =>
    obtain ⟨read, hread, -⟩ := readFromStdin_line buffer hline input
    exact ⟨read, _, readCalls_cons buffer buffers (by simp) hread⟩

/-- Every typed line is one command exactly when no line has more than 1022 characters. -/
theorem readCalls_onePerLine_iff (lines buffers : List (List UInt8))
    (hlines : ∀ line ∈ lines, 10 ∉ line) (hbuffers : (typed lines).length ≤ buffers.length) :
    OneCommandPerLine lines (readCalls buffers (typed lines)) ↔
      ∀ line ∈ lines, line.length ≤ 1022 := by
  induction lines generalizing buffers with
  | nil => cases buffers <;> exact iff_of_true trivial (List.forall_mem_nil _)
  | cons line lines ih =>
    rw [List.forall_mem_cons] at hlines
    rw [typed_cons, List.length_append, List.length_cons] at hbuffers
    cases buffers with
    | nil => simp at hbuffers
    | cons buffer buffers =>
      rw [List.length_cons] at hbuffers
      obtain ⟨read, hread, hindex, hbuffer, hrest⟩ :=
        readFromStdin_line buffer hlines.1 (typed lines)
      rw [typed_cons, readCalls_cons buffer buffers (by simp) hread, List.forall_mem_cons,
        OneCommandPerLine, typed_cons]
      by_cases hshort : line.length ≤ 1022
      · rw [hrest, if_pos hshort, ih buffers hlines.2 (by omega)]
        constructor
        · intro h
          exact ⟨hshort, h.2.2.2⟩
        · intro h
          exact ⟨rfl, hindex, hbuffer, h.2⟩
      · refine iff_of_false ?_ (fun h => hshort h.1)
        intro h
        -- The rest of the line is still there, so that the next call does not begin at a line.
        have hleft : 10 ∉ line.drop 1023 := fun hmem => hlines.1 (List.mem_of_mem_drop hmem)
        obtain ⟨read', calls, hcalls⟩ := start_of_mem_head buffers
          (List.ne_nil_of_length_pos (by omega)) hleft (typed lines)
        rw [hrest, if_neg hshort, hcalls] at h
        cases lines with
        | nil => exact h.2.2.2
        | cons next lines =>
          have hstart := congrArg List.length h.2.2.2.1
          rw [List.length_append, List.length_cons] at hstart
          omega

theorem readCalls_onePerLine_two :
    OneCommandPerLine [[37, 76], []] (readCalls (List.replicate 4 [7, 7, 7, 7]) [37, 76, 10, 10]) :=
  (readCalls_onePerLine_iff [[37, 76], []] (List.replicate 4 [7, 7, 7, 7]) (by decide)
    (by decide)).mpr (by decide)

def longLine : List UInt8 := List.replicate 1023 97 ++ [37, 76]

def longLineCalls : List StdinCall := readCalls (List.replicate 1026 [7]) (typed [longLine])

/-- The last two of 1025 characters are run as a command of their own. -/
theorem long_line_split :
    (longLineCalls.map fun call => processStdin call.read.buffer) = [.notPercent, .getList] ∧
      ¬OneCommandPerLine [longLine] longLineCalls := by
  have hcommands : (longLineCalls.map fun call => processStdin call.read.buffer) =
      [.notPercent, .getList] := by
    decide +kernel
  have hlength := congrArg List.length hcommands
  rw [List.length_map] at hlength
  refine ⟨hcommands, mt OneCommandPerLine.length_eq ?_⟩
  rw [hlength]
  decide

end Cpe464.Chat.Client
