import Cpe464.Chat.ServerMessage
import Cpe464.Chat.Stdin
import Cpe464.Framework.Runs

/-!
# The loop of the client

`clientControl` blocks in `pollCall`, which looks at the kernel, and then reads one line through the
buffer of the C library, whose refills take all that is there up to its size. `poll` does not see
what a refill brought in behind the line.
-/

namespace Cpe464.Chat.Client

open Runs

/-- Where the client is: about to block in `pollCall`, in the loop of `readFromStdin` with what it
has stored, or gone. -/
inductive Control
  | polling
  | reading (stored : List UInt8)
  | exited
  deriving DecidableEq

/-- The input that the kernel holds and that `getchar` has taken from it, the PDUs of the server
that have arrived, and whether the server has closed the connection behind them. -/
structure ClientState where
  kernel : List UInt8
  stdio : List UInt8
  socket : List (List UInt8)
  closed : Bool
  control : Control
  deriving DecidableEq

def initialClient : ClientState where
  kernel := []
  stdio := []
  socket := []
  closed := false
  control := .polling

/-- What can happen: input, PDUs and the end of the connection arrive, `pollCall` reports one of its
two descriptors, and `getchar` refills its buffer or takes a character out of it. -/
inductive ClientAction
  | arrive (bytes : List UInt8)
  | message (payload : List UInt8)
  | close
  | wake
  | serve (buf : List UInt8) (uninit : Nat) (stack : DisplayStack)
  | refill
  | getchar

/-- The stream that `processMsgFromServer` finds, if the socket is readable. -/
def ClientState.readable (s : ClientState) : Option (List UInt8 × List (List UInt8)) :=
  match s.socket with
  | payload :: socket => some (sendPDU payload payload.length, socket)
  | [] => if s.closed then some ([], []) else none

/-- One action, with the command that it makes `processStdin` run. `pollCall` reports the lowest
descriptor, which is standard input. -/
def clientStep (bufsiz : Nat) (s : ClientState) : ClientAction → Option (Option Typed × ClientState)
  | .arrive bytes => some (none, { s with kernel := s.kernel ++ bytes })
  | .message payload => some (none, { s with socket := s.socket ++ [payload] })
  | .close => some (none, { s with closed := true })
  | .wake =>
      if s.control = .polling ∧ s.kernel ≠ [] then some (none, { s with control := .reading [] })
      else none
  | .serve buf uninit stack =>
      if s.control = .polling ∧ s.kernel = [] then
        s.readable.map fun (stream, socket) => (none, { s with
          socket
          control :=
            if (processMsgFromServer stream buf uninit stack).exits then .exited else .polling })
      else none
  | .refill =>
      match s.control with
      | .reading _ =>
          if s.stdio = [] ∧ s.kernel ≠ [] then
            some (none, { s with kernel := s.kernel.drop bufsiz, stdio := s.kernel.take bufsiz })
          else none
      | _ => none
  | .getchar =>
      match s.control, s.stdio with
      | .reading stored, inputChar :: stdio =>
          if inputChar = 10 then
            some (processStdin (stored ++ [0]), { s with stdio, control := .polling })
          else if stored.length + 1 < maxBuf - 1 then
            some (none, { s with stdio, control := .reading (stored ++ [inputChar]) })
          else
            some (processStdin (stored ++ [inputChar, 0]), { s with stdio, control := .polling })
      | _, _ => none

/-- A client that is about to block has run every complete line it has taken out of the kernel. -/
def NothingStranded (s : ClientState) : Prop := s.control = .polling → 10 ∉ s.stdio

/-- Bytes end with the line that a loop with this room is reading: there is at most one end of a
line, and none behind the room. -/
def OneLine (room : Nat) (bytes : List UInt8) : Prop :=
  bytes.count 10 ≤ 1 ∧ 10 ∉ bytes.drop room

instance (room : Nat) (bytes : List UInt8) : Decidable (OneLine room bytes) :=
  inferInstanceAs (Decidable (_ ∧ _))

/-- A refill brings in no more than the end of the line that is being read. -/
def RefillFits (bufsiz : Nat) (s : ClientState) (action : ClientAction) : Prop :=
  match action, s.control with
  | .refill, .reading stored => OneLine (maxBuf - 1 - stored.length) (s.kernel.take bufsiz)
  | _, _ => True

/-- What keeps the loop from leaving a line behind. -/
def LineInv (s : ClientState) : Prop :=
  match s.control with
  | .polling => 10 ∉ s.stdio
  | .reading stored => stored.length < maxBuf - 1 ∧ OneLine (maxBuf - 1 - stored.length) s.stdio
  | .exited => True

/-! ## A refill -/

private theorem oneLine_of_notMem {bytes : List UInt8} (h : 10 ∉ bytes) (room : Nat) :
    OneLine room bytes := by
  refine ⟨?_, fun hmem => h (List.mem_of_mem_drop hmem)⟩
  rw [List.count_eq_zero.mpr h]
  exact Nat.zero_le 1

private theorem OneLine.tail_of_end {room : Nat} {bytes : List UInt8}
    (h : OneLine room (10 :: bytes)) : 10 ∉ bytes := by
  have hcount := h.1
  rw [List.count_cons_self] at hcount
  exact List.count_eq_zero.mp (by omega)

theorem OneLine.tail {room : Nat} {c : UInt8} {bytes : List UInt8} (hc : c ≠ 10)
    (h : OneLine (room + 1) (c :: bytes)) : OneLine room bytes := by
  obtain ⟨hcount, hdrop⟩ := h
  rw [List.count_cons_of_ne hc] at hcount
  exact ⟨hcount, hdrop⟩

/-! ## Steps -/

private theorem initialClient_lineInv : LineInv initialClient := List.not_mem_nil

private theorem LineInv.nothingStranded {s : ClientState} (h : LineInv s) : NothingStranded s := by
  intro hpolling
  unfold LineInv at h
  rw [hpolling] at h
  exact h

private theorem LineInv.reading {s : ClientState} {stored : List UInt8} (h : LineInv s)
    (hreading : s.control = .reading stored) :
    stored.length < maxBuf - 1 ∧ OneLine (maxBuf - 1 - stored.length) s.stdio := by
  unfold LineInv at h
  rw [hreading] at h
  exact h

section Step

variable {bufsiz : Nat} {s s' : ClientState} {output : Option Typed}

private theorem lineInv_wake (h : clientStep bufsiz s .wake = some (output, s'))
    (hinv : LineInv s) : LineInv s' := by
  rw [clientStep] at h
  split at h
  · rename_i hguard
    cases h
    exact ⟨by decide, oneLine_of_notMem (hinv.nothingStranded hguard.1) _⟩
  · cases h

private theorem lineInv_serve {buf : List UInt8} {uninit : Nat} {stack : DisplayStack}
    (h : clientStep bufsiz s (.serve buf uninit stack) = some (output, s')) (hinv : LineInv s) :
    LineInv s' := by
  rw [clientStep] at h
  split at h
  · rename_i hguard
    obtain ⟨⟨stream, socket⟩, -, heq⟩ := Option.map_eq_some_iff.mp h
    cases heq
    unfold LineInv
    split
    · exact hinv.nothingStranded hguard.1
    · rename_i hcontrol
      split at hcontrol <;> cases hcontrol
    · trivial
  · cases h

private theorem lineInv_refill (h : clientStep bufsiz s .refill = some (output, s'))
    (hinv : LineInv s) (hfits : RefillFits bufsiz s .refill) : LineInv s' := by
  rw [clientStep] at h
  split at h
  · rename_i stored hreading
    split at h
    · cases h
      have hroom := (hinv.reading hreading).1
      simp only [RefillFits, hreading] at hfits
      simp only [LineInv, hreading]
      exact ⟨hroom, hfits⟩
    · cases h
  · cases h

private theorem lineInv_getchar (h : clientStep bufsiz s .getchar = some (output, s'))
    (hinv : LineInv s) : LineInv s' := by
  rw [clientStep] at h
  split at h
  · rename_i stored inputChar stdio hreading hstdio
    obtain ⟨hroom, hline⟩ := hinv.reading hreading
    rw [hstdio] at hline
    obtain ⟨room, hleft⟩ : ∃ room, maxBuf - 1 - stored.length = room + 1 :=
      ⟨maxBuf - 1 - stored.length - 1, by omega⟩
    rw [hleft] at hline
    split at h
    · rename_i hend
      cases h
      rw [hend] at hline
      exact hline.tail_of_end
    · rename_i hend
      have htail := hline.tail hend
      split at h
      · cases h
        have hleft' : maxBuf - 1 - (stored ++ [inputChar]).length = room := by
          rw [List.length_append, List.length_singleton]
          omega
        refine ⟨by rw [List.length_append, List.length_singleton]; assumption, ?_⟩
        rw [hleft']
        exact htail
      · cases h
        -- The buffer is full, so that there is no room behind this character.
        obtain rfl : room = 0 := by omega
        exact htail.2
  · cases h

private theorem lineInv_step {action : ClientAction}
    (h : clientStep bufsiz s action = some (output, s')) (hinv : LineInv s)
    (hfits : RefillFits bufsiz s action) : LineInv s' := by
  cases action with
  | arrive bytes =>
    cases h
    exact hinv
  | message payload =>
    cases h
    exact hinv
  | close =>
    cases h
    exact hinv
  | wake => exact lineInv_wake h hinv
  | serve buf uninit stack => exact lineInv_serve h hinv
  | refill => exact lineInv_refill h hinv hfits
  | getchar => exact lineInv_getchar h hinv

end Step

/-- In every run whose refills bring in no more than the end of the line that is being read, no
line is stranded in any state. -/
theorem nothing_stranded (bufsiz : Nat) (actions : List ClientAction)
    {moments : List (Moment ClientState ClientAction (Option Typed))} {last : ClientState}
    (hrun : run (clientStep bufsiz) initialClient actions = some (moments, last))
    (hfits : ∀ m ∈ moments, RefillFits bufsiz m.before m.action) :
    NothingStranded last ∧ ∀ m ∈ moments, NothingStranded m.before ∧ NothingStranded m.after := by
  obtain ⟨hlast, hmoments⟩ := run_invariant LineInv (RefillFits bufsiz) (fun _ => True)
    (fun s action output s' hstep hinv hpermitted =>
      ⟨lineInv_step hstep hinv hpermitted, trivial⟩) initialClient_lineInv hrun hfits
  refine ⟨hlast.nothingStranded, ?_⟩
  intro m hm
  obtain ⟨hbefore, hafter, -⟩ := hmoments m hm
  exact ⟨hbefore.nothingStranded, hafter.nothingStranded⟩

theorem nothing_stranded_list :
    ∃ moments last, run (clientStep 1024) initialClient
        [.arrive [37, 76, 10], .wake, .refill, .getchar, .getchar, .getchar] =
          some (moments, last) ∧ last.control = .polling ∧ NothingStranded last := by
  refine ⟨_, _, rfl, rfl, ?_⟩
  exact (nothing_stranded 1024 [.arrive [37, 76, 10], .wake, .refill, .getchar, .getchar, .getchar]
    rfl (by simp [RefillFits]; decide)).1

/-- Two commands that arrive together: the second one waits for input that need not come. -/
theorem second_line_stranded :
    ∃ moments last, run (clientStep 1024) initialClient
        [.arrive [37, 76, 10, 37, 76, 10], .wake, .refill, .getchar, .getchar, .getchar] =
          some (moments, last) ∧ last.kernel = [] ∧ ¬NothingStranded last := by
  refine ⟨_, _, rfl, rfl, ?_⟩
  intro h
  exact h rfl (by decide)

/-! ## A refill that does not fit -/

private theorem getchars_readChars (bufsiz : Nat) {s : ClientState} {stored chars rest : List UInt8}
    (hreading : s.control = .reading stored) (hroom : stored.length < maxBuf - 1)
    (hread : readChars (maxBuf - 1 - stored.length) s.stdio = some (chars, rest)) :
    ∃ n moments, run (clientStep bufsiz) s (List.replicate n .getchar) =
        some (moments, { s with stdio := rest, control := .polling }) ∧
      moments.getLast?.map Moment.output = some (some (processStdin (stored ++ chars ++ [0]))) := by
  induction hstdio : s.stdio generalizing s stored chars with
  | nil =>
    obtain ⟨room, hleft⟩ : ∃ room, maxBuf - 1 - stored.length = room + 1 :=
      ⟨maxBuf - 1 - stored.length - 1, by omega⟩
    rw [hstdio, hleft] at hread
    cases hread
  | cons inputChar stdio ih =>
    obtain ⟨room, hleft⟩ : ∃ room, maxBuf - 1 - stored.length = room + 1 :=
      ⟨maxBuf - 1 - stored.length - 1, by omega⟩
    rw [hstdio, hleft, readChars] at hread
    by_cases hend : inputChar = 10
    · rw [if_pos hend] at hread
      cases hread
      have hstep : clientStep bufsiz s .getchar = some (some (processStdin (stored ++ [0])),
          { s with stdio := rest, control := .polling }) := by
        simp only [clientStep, hreading, hstdio, if_pos hend]
      refine ⟨1, _, run_step hstep rfl, ?_⟩
      rw [List.append_nil]
      rfl
    · rw [if_neg hend] at hread
      cases hrest : readChars room stdio with
      | none => simp [hrest] at hread
      | some out =>
        obtain ⟨chars', rest'⟩ := out
        simp only [hrest] at hread
        cases hread
        by_cases hfull : stored.length + 1 < maxBuf - 1
        · have hleft' : maxBuf - 1 - (stored ++ [inputChar]).length = room := by
            rw [List.length_append, List.length_singleton]
            omega
          obtain ⟨n, moments, hrun, hlast⟩ := ih
            (s := { s with stdio := stdio, control := .reading (stored ++ [inputChar]) }) rfl
            (by rw [List.length_append, List.length_singleton]; exact hfull)
            (by rw [hleft']; exact hrest) rfl
          have hstep : clientStep bufsiz s .getchar = some (none,
              { s with stdio := stdio, control := .reading (stored ++ [inputChar]) }) := by
            simp only [clientStep, hreading, hstdio, if_neg hend, if_pos hfull]
          refine ⟨n + 1, _, run_step hstep hrun, ?_⟩
          obtain ⟨m, hm, houtput⟩ := Option.map_eq_some_iff.mp hlast
          rw [List.getLast?_cons, hm, Option.getD_some, Option.map_some, houtput,
            List.append_assoc stored, List.singleton_append]
        · obtain rfl : room = 0 := by omega
          cases hrest
          have hstep : clientStep bufsiz s .getchar = some (some (processStdin
              (stored ++ [inputChar, 0])), { s with stdio := rest, control := .polling }) := by
            simp only [clientStep, hreading, hstdio, if_neg hend, if_neg hfull]
          refine ⟨1, _, run_step hstep rfl, ?_⟩
          rw [List.append_assoc]
          rfl

private theorem oneLine_iff_readChars (room : Nat) (bytes : List UInt8) :
    OneLine room bytes ↔
      ∀ chars rest, readChars room bytes = some (chars, rest) → 10 ∉ rest := by
  induction bytes generalizing room with
  | nil =>
    refine iff_of_true (oneLine_of_notMem List.not_mem_nil room) ?_
    intro chars rest h
    cases room with
    | zero =>
      cases h
      exact List.not_mem_nil
    | succ room => cases h
  | cons c bytes ih =>
    cases room with
    | zero =>
      constructor
      · intro h chars rest hread
        cases hread
        exact h.2
      · intro h
        exact oneLine_of_notMem (h [] (c :: bytes) rfl) 0
    | succ room =>
      by_cases hc : c = 10
      · subst hc
        constructor
        · intro h chars rest hread
          rw [readChars, if_pos rfl] at hread
          cases hread
          exact h.tail_of_end
        · intro h
          have hbytes : 10 ∉ bytes := h [] bytes (by rw [readChars, if_pos rfl])
          have hnone : bytes.count 10 = 0 := List.count_eq_zero.mpr hbytes
          refine ⟨?_, fun hmem => hbytes (List.mem_of_mem_drop hmem)⟩
          rw [List.count_cons_self]
          omega
      · have htail : OneLine (room + 1) (c :: bytes) ↔ OneLine room bytes := by
          rw [OneLine, OneLine, List.count_cons_of_ne hc, List.drop_succ_cons]
        rw [htail, ih room]
        constructor
        · intro h chars rest hread
          rw [readChars, if_neg hc] at hread
          cases hrest : readChars room bytes with
          | none => simp [hrest] at hread
          | some out =>
            simp only [hrest] at hread
            cases hread
            exact h _ _ hrest
        · intro h chars rest hread
          exact h (c :: chars) rest (by rw [readChars, if_neg hc, hread])

/-- Every refill that brings in more leads to a line that is stranded. -/
theorem refill_strands (bufsiz : Nat) {s s' : ClientState} {output : Option Typed}
    {stored : List UInt8} (hreading : s.control = .reading stored)
    (hroom : stored.length < maxBuf - 1)
    (h : clientStep bufsiz s .refill = some (output, s')) (hfits : ¬RefillFits bufsiz s .refill) :
    ∃ n moments last, run (clientStep bufsiz) s' (List.replicate n .getchar) =
      some (moments, last) ∧ ¬NothingStranded last := by
  simp only [RefillFits, hreading, oneLine_iff_readChars, not_forall] at hfits
  obtain ⟨chars, rest, hread, hend⟩ := hfits
  rw [clientStep] at h
  split at h
  · split at h
    · cases h
      obtain ⟨n, moments, hrun, -⟩ := getchars_readChars bufsiz
        (s := { s with kernel := s.kernel.drop bufsiz, stdio := s.kernel.take bufsiz }) hreading
        hroom hread
      exact ⟨n, moments, _, hrun, fun hnothing => hend (hnothing rfl)⟩
    · cases h
  · cases h

end Cpe464.Chat.Client
