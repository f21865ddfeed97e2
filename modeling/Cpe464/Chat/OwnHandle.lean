import Cpe464.Chat.Client
import Cpe464.Framework.CString

/-!
# The client's own handle

`main` keeps the handle of the command line in a global array and `setHandle` registers it with the
server. The encoders of messages write the handle behind its length; `setHandle` counts one more,
and the length it passes to `sendPDU` is never set.
-/

namespace Cpe464.Chat.Client

/-- `myHandle` as `main` fills it: a global array of 100 zero bytes. -/
def ownHandle (arg : List UInt8) : Option (List UInt8) :=
  store (List.replicate 100 0) 0 (arg.take (UInt8.ofNat arg.length).toNat)

/-- `setHandle`: the payload of its `sendPDU` call. `handleBuf` and `handleBufLen` are what its
locals hold before. -/
def setHandle (handle handleBuf : List UInt8) (handleBufLen : UInt8) : Option (List UInt8) := do
  let handleBuf ← store handleBuf 0 [1]
  let len ← strlen handle
  let handleBuf ← store handleBuf 1 [UInt8.ofNat (1 + len)]
  let handleBuf ← store handleBuf 2 (handle.take len)
  return handleBuf.take handleBufLen.toNat

/-- What the client sends for a handle on its command line. -/
def registration (arg handleBuf : List UInt8) (handleBufLen : UInt8) : Option (List UInt8) :=
  (ownHandle arg).bind fun handle => setHandle handle handleBuf handleBufLen

section Handle

variable {arg : List UInt8} (hzero : 0 ∉ arg)

private theorem ownHandle_eq (hlen : arg.length ≤ 100) :
    ownHandle arg = some (arg ++ List.replicate (100 - arg.length) 0) := by
  have harg : arg.take (UInt8.ofNat arg.length).toNat = arg := by
    rw [UInt8.toNat_ofNat_of_lt' (show _ < 256 by omega), List.take_length]
  rw [ownHandle, harg, store, if_pos (by rw [List.length_replicate]; omega), overlay_zero,
    List.drop_replicate]

include hzero

/-- The bytes that are registered: the length is one too large, and as many bytes are sent as the
uninitialised local says. -/
private theorem registration_eq (hlen : arg.length ≤ 99) {handleBuf : List UInt8}
    (hbuf : handleBuf.length = 1024) (handleBufLen : UInt8) :
    registration arg handleBuf handleBufLen =
      some ((1 :: UInt8.ofNat (1 + arg.length) :: arg ++ handleBuf.drop (arg.length + 2)).take
        handleBufLen.toNat) := by
  match handleBuf with
  | [] => simp at hbuf
  | [b] => simp at hbuf
  | b₀ :: b₁ :: rest =>
    have hrest : rest.length = 1022 := by simpa using hbuf
    have hflag := store_append [] (b₀ :: b₁ :: rest) [1] (by simp)
    have hlength := store_append [1] (b₁ :: rest) [UInt8.ofNat (1 + arg.length)] (by simp)
    have hcopy := store_append [1, UInt8.ofNat (1 + arg.length)] rest arg (by omega)
    have hstrlen := strlen_padded hzero (show arg.length ≤ 100 by omega)
    rw [if_neg (by omega)] at hstrlen
    have htake : (arg ++ List.replicate (100 - arg.length) 0).take arg.length = arg :=
      List.take_left
    rw [registration, ownHandle_eq (by omega), Option.bind_some, setHandle]
    simp only [hstrlen, htake, Option.bind_eq_bind, Option.bind_some, Option.pure_def]
    simp only [List.nil_append, List.length_nil, List.drop_succ_cons, List.drop_zero,
      List.singleton_append, List.length_cons] at hflag hlength hcopy
    rw [hflag, Option.bind_some, hlength, Option.bind_some, hcopy]
    rfl

private theorem registration_full (hlen : arg.length = 100) (handleBuf : List UInt8)
    (handleBufLen : UInt8) : registration arg handleBuf handleBufLen = none := by
  have hstrlen := strlen_padded hzero (Nat.le_of_eq hlen)
  rw [if_pos hlen] at hstrlen
  rw [registration, ownHandle_eq (by omega), Option.bind_some, setHandle]
  cases store handleBuf 0 [1] with
  | none => rfl
  | some written =>
    simp only [hstrlen, Option.bind_eq_bind, Option.bind_some, Option.bind_none]

end Handle

/-- No handle is registered the way the messages of the client name it. -/
theorem registration_ne_prefixed (arg handleBuf : List UInt8) (handleBufLen : UInt8)
    (harg : 1 ≤ arg.length ∧ arg.length ≤ 100) (hzero : 0 ∉ arg)
    (hbuf : handleBuf.length = 1024) :
    registration arg handleBuf handleBufLen ≠ some (1 :: prefixed arg) := by
  by_cases hfull : arg.length = 100
  · rw [registration_full hzero hfull]
    simp
  · rw [registration_eq hzero (by omega) hbuf]
    intro h
    have hsent := Option.some.inj h
    -- Two bytes are enough to see the wrong length.
    cases hlen : handleBufLen.toNat with
    | zero => simp [hlen] at hsent
    | succ k =>
      rw [hlen, List.cons_append, List.cons_append, List.take_succ_cons, prefixed,
        List.cons.injEq] at hsent
      cases k with
      | zero => simp at hsent
      | succ k =>
        have hbyte := congrArg UInt8.toNat (List.cons.inj hsent.2).1
        rw [UInt8.toNat_ofNat_of_lt' (show _ < 256 by omega),
          UInt8.toNat_ofNat_of_lt' (show _ < 256 by omega)] at hbyte
        omega

theorem registration_ne_prefixed_a :
    registration [97] (List.replicate 1024 7) 3 ≠ some (1 :: prefixed [97]) :=
  registration_ne_prefixed [97] (List.replicate 1024 7) 3 (by decide) (by decide)
    List.length_replicate

/-- Even when the uninitialised length happens to be right, the handle `a` is sent with length 2. -/
theorem registration_a : registration [97] (List.replicate 1024 7) 3 = some [1, 2, 97] ∧
    (1 :: prefixed [97] : List UInt8) = [1, 1, 97] := by
  decide +kernel

end Cpe464.Chat.Client
