import Cpe464.Transfer.Rcopy
import Cpe464.Transfer.ServerInert

/-!
# Damaged datagrams

Neither loop looks at what `verifyData` returns, so a damaged datagram is processed like any other:
it has no effect exactly when an undamaged one with its bytes would have none.
-/

namespace Cpe464.Transfer

open Observation

/-- In every state that a run of either loop reaches, a damaged datagram is inert exactly when it
is harmless. -/
theorem damaged_inert_iff (server : ServerLoop) (arrivals : List Arrival) (arrival : Arrival)
    (rcopy : RcopyLoop) (datagrams : List (List UInt8)) (datagram : List UInt8) :
    ((Damaged serverMaxBuf arrival.datagram →
        Inert processClient (· = []) (after processClient server arrivals) arrival) ↔
      (Damaged serverMaxBuf arrival.datagram →
        ServerHarmless (after processClient server arrivals) arrival)) ∧
    ((Damaged rcopyMaxBuf datagram →
        Inert talkToServer NoReply (after talkToServer rcopy datagrams) datagram) ↔
      (Damaged rcopyMaxBuf datagram →
        RcopyHarmless (after talkToServer rcopy datagrams) datagram)) := by
  constructor
  · rw [server_inert_iff]
  · rw [rcopy_inert_iff]

/-- rcopy before its first datagram, on a stack of zero bytes. -/
def rcopyStart : RcopyLoop where
  buf := List.replicate (rcopyMaxBuf + 1) 0
  length_buf := List.length_replicate
  headerSet := false

/-- A header with the data flag and a wrong checksum is answered by both loops. -/
theorem damaged_answered :
    ¬ (∀ (arrivals : List Arrival) (arrival : Arrival), Damaged serverMaxBuf arrival.datagram →
        Inert processClient (· = []) (after processClient serverStart arrivals) arrival) ∧
    ¬ (∀ (datagrams : List (List UInt8)) (datagram : List UInt8),
        Damaged rcopyMaxBuf datagram →
        Inert talkToServer NoReply (after talkToServer rcopyStart datagrams) datagram) := by
  constructor
  · intro hinert
    have hdamaged : Damaged serverMaxBuf [0, 0, 0, 0, 1, 2, 16] := by decide
    obtain ⟨hsilent, _⟩ := hinert [] ⟨[0, 0, 0, 0, 1, 2, 16], 5, true, 0, 0⟩ hdamaged
    revert hsilent
    decide +kernel
  · intro hinert
    have hdamaged : Damaged rcopyMaxBuf [0, 0, 0, 0, 1, 2, 16] := by decide
    obtain ⟨hsilent, _⟩ := hinert [] [0, 0, 0, 0, 1, 2, 16] hdamaged
    refine hsilent (sendData [0, 0, 0, 0] 4 0 5) ?_
    decide +kernel

/-! ## Runs without their damaged datagrams -/

/-- When every damaged datagram of a run is harmless where it arrives, the server does what it
would do without them. -/
theorem processClient_erase (start : ServerLoop) (arrivals : List Arrival)
    (h : ∀ before arrival rest, arrivals = before ++ arrival :: rest →
      Damaged serverMaxBuf arrival.datagram →
      ServerHarmless (after processClient start before) arrival) :
    outputs processClient start
        (arrivals.filter fun arrival => ¬ Damaged serverMaxBuf arrival.datagram) =
      ((arrivals.zip (outputs processClient start arrivals)).filter
        fun taken => ¬ Damaged serverMaxBuf taken.1.datagram).map Prod.snd :=
  outputs_erase (· = []) (fun arrival => Damaged serverMaxBuf arrival.datagram) start arrivals
    (fun before arrival rest hsplit hdamaged => (h before arrival rest hsplit hdamaged).inert)

theorem talkToServer_erase (start : RcopyLoop) (datagrams : List (List UInt8))
    (h : ∀ before datagram rest, datagrams = before ++ datagram :: rest →
      Damaged rcopyMaxBuf datagram → RcopyHarmless (after talkToServer start before) datagram) :
    outputs talkToServer start (datagrams.filter fun datagram => ¬ Damaged rcopyMaxBuf datagram) =
      ((datagrams.zip (outputs talkToServer start datagrams)).filter
        fun taken => ¬ Damaged rcopyMaxBuf taken.1).map Prod.snd :=
  outputs_erase NoReply (Damaged rcopyMaxBuf) start datagrams
    (fun before datagram rest hsplit hdamaged =>
      (rcopy_inert_iff _ _).mpr (h before datagram rest hsplit hdamaged))

end Cpe464.Transfer
