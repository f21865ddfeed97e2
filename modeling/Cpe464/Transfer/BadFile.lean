import Cpe464.Transfer.WholeFile

/-!
# A file that does not open

`handleSend` answers the request for a file that it cannot open and then runs into the same loop as
for one it can: the first wake-up of `pollCall` reads the flag through a header that is not set, and
then the file through a null pointer.
-/

namespace Cpe464.Transfer

/-- All packets of a run, in the order they are sent. -/
def sentPackets (sending : Sending) : List (List UInt8) :=
  (sending.response :: sending.wakeUps.flatten).filterMap SendEvent.packet

/-- The run sends the response `BAD FILE` and nothing else, and uses nothing that is not there. -/
structure EndsCleanly (sending : Sending) : Prop where
  response : ∃ packet, sentPackets sending = [packet] ∧ (header packet).flag = 9 ∧
    packet.drop 7 = badFile
  noData : dataPackets sending = []
  noNullRead : .readNullFile ∉ sending.wakeUps.flatten
  noUnsetRead : .readUnsetHeader ∉ sending.wakeUps.flatten

private theorem badFile_response :
    (header (sendData badFile 8 0 9)).flag = 9 ∧ (sendData badFile 8 0 9).drop 7 = badFile :=
  ⟨flag_sendData badFile 0 9 (by decide), drop_sendData badFile 0 9 (by decide)⟩

private theorem endsCleanly_response : EndsCleanly ⟨.response (sendData badFile 8 0 9), []⟩ where
  response := ⟨_, rfl, badFile_response⟩
  noData := by
    have hflag : ¬(header (sendData badFile 8 0 9)).flag = 16 := by
      rw [badFile_response.1]
      decide
    exact List.filter_cons_of_neg (by simpa using hflag)
  noNullRead := List.not_mem_nil
  noUnsetRead := List.not_mem_nil

/-- A transfer of a file that does not open ends cleanly exactly when the slots can be counted and
no datagram wakes the child up. -/
theorem handleSend_endsCleanly_iff (fopen : List UInt8 → Option (List UInt8))
    (heap : Nat → Nat → UInt8) (setupInfo : SetupInfo) (buf : List UInt8) (inputs : List WakeUp)
    (hopen : fopen (requestedFile buf) = none) :
    (∃ sending, handleSend fopen heap setupInfo buf inputs = some sending ∧ EndsCleanly sending) ↔
      setupInfo.windowSize.toNat < 2 ^ 31 ∧ inputs = [] := by
  constructor
  · rintro ⟨sending, hsending, hclean⟩
    have hsize : setupInfo.windowSize.toNat < 2 ^ 31 := by
      by_contra hsize
      rw [handleSend_overflow fopen heap setupInfo buf inputs (by omega)] at hsending
      cases hsending
    refine ⟨hsize, ?_⟩
    cases inputs with
    | nil => rfl
    | cons input inputs =>
      rw [handleSend, if_neg (by omega), hopen] at hsending
      cases hsending
      exact absurd List.mem_cons_self hclean.noUnsetRead
  · rintro ⟨hsize, rfl⟩
    refine ⟨_, ?_, endsCleanly_response⟩
    rw [handleSend, if_neg (by omega), hopen]

theorem handleSend_endsCleanly_quiet :
    ∃ sending, handleSend (fun _ => none) (fun _ _ => 7) smallSetup smallRequest [] =
      some sending ∧ EndsCleanly sending :=
  (handleSend_endsCleanly_iff (fun _ => none) (fun _ _ => 7) smallSetup smallRequest [] rfl).mpr
    (by decide)

/-- One datagram is enough. -/
theorem datagram_reads_null_file :
    handleSend (fun _ => none) (fun _ _ => 7) smallSetup smallRequest [⟨0, []⟩] =
        some ⟨.response (sendData badFile 8 0 9), [[.readUnsetHeader, .readNullFile]]⟩ ∧
      ¬∃ sending, handleSend (fun _ => none) (fun _ _ => 7) smallSetup smallRequest [⟨0, []⟩] =
        some sending ∧ EndsCleanly sending := by
  refine ⟨rfl, ?_⟩
  rintro ⟨sending, hsending, hclean⟩
  cases hsending
  exact hclean.noNullRead (by decide)

end Cpe464.Transfer
