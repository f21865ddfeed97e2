import Cpe464.Framework.Runs
import Mathlib.Data.Set.Insert

/-!
# The poll set

`pollLib.c` keeps the `struct pollfd` of a descriptor at the index that is its number. An index
that watches nothing holds descriptor 0 without any events, so that `poll` still looks at standard
input there, once for each unused index, and reports when it has hung up or failed.
-/

namespace Cpe464.Chat

/-- `struct pollfd`. -/
structure PollFd where
  fd : Nat
  events : Nat
  revents : Nat
  deriving DecidableEq

/-- The globals of `pollLib.c`. -/
structure PollSet where
  pollFileDescriptors : List PollFd
  maxFileDescriptor : Nat
  currentPollSetSize : Nat
  deriving DecidableEq

/-- How a call ends the process: with `exit`, or by an access outside of the set. -/
inductive PollFault
  | exit
  | overrun
  deriving DecidableEq

def pollSetSize : Nat := 10

def pollIn : Nat := 1

/-- `POLLERR`, `POLLHUP` and `POLLNVAL`, which `poll` reports whether requested or not. -/
def pollFailure : Nat := 8 ||| 16 ||| 32

/-- Nothing but the initialiser of the global has written `maxFileDescriptor`. -/
def setupPollSet : PollSet where
  pollFileDescriptors := List.replicate pollSetSize ⟨0, 0, 0⟩
  maxFileDescriptor := 0
  currentPollSetSize := pollSetSize

/-- `growPollSet`, with the `revents` that the new memory holds and nothing zeroes. -/
def growPollSet (pollSet : PollSet) (newSetSize : Nat) (stale : Nat → Nat) :
    Except PollFault PollSet :=
  if newSetSize ≤ pollSet.currentPollSetSize then .error .exit
  else .ok { pollSet with
    pollFileDescriptors := pollSet.pollFileDescriptors ++
      (List.range' pollSet.currentPollSetSize (newSetSize - pollSet.currentPollSetSize)).map
        fun i => ⟨0, 0, stale i⟩
    currentPollSetSize := newSetSize }

/-- The two assignments to `pollFileDescriptors[socketNumber]`. -/
def PollSet.assign (pollSet : PollSet) (socketNumber fd events : Nat) : Except PollFault PollSet :=
  match pollSet.pollFileDescriptors[socketNumber]? with
  | none => .error .overrun
  | some entry => .ok { pollSet with
      pollFileDescriptors :=
        pollSet.pollFileDescriptors.set socketNumber { entry with fd := fd, events := events } }

def addToPollSet (pollSet : PollSet) (socketNumber : Nat) (stale : Nat → Nat) :
    Except PollFault PollSet :=
  let sized := if pollSet.currentPollSetSize ≤ socketNumber then
    growPollSet pollSet (socketNumber + pollSetSize) stale else .ok pollSet
  sized.bind fun grown =>
    let maxFileDescriptor := max grown.maxFileDescriptor (socketNumber + 1)
    { grown with maxFileDescriptor }.assign socketNumber socketNumber pollIn

def removeFromPollSet (pollSet : PollSet) (socketNumber : Nat) : Except PollFault PollSet :=
  pollSet.assign socketNumber 0 0

/-- The entries that `poll` and `pollCall` look at. -/
def PollSet.scanned (pollSet : PollSet) : List PollFd :=
  pollSet.pollFileDescriptors.take pollSet.maxFileDescriptor

/-- What `poll` stores for an entry when these conditions hold of the descriptors. -/
def PollFd.reported (conditions : Nat → Nat) (entry : PollFd) : Nat :=
  conditions entry.fd &&& (entry.events ||| pollFailure)

/-- The set behind `poll(pollFileDescriptors, maxFileDescriptor, ..)`: the entries behind
`maxFileDescriptor` keep what they hold. -/
def PollSet.polled (pollSet : PollSet) (conditions : Nat → Nat) : PollSet :=
  { pollSet with
    pollFileDescriptors :=
      pollSet.scanned.map (fun entry => { entry with revents := entry.reported conditions }) ++
        pollSet.pollFileDescriptors.drop pollSet.maxFileDescriptor }

/-- `poll`, which reads and writes that many entries, whether or not the set has them. -/
def poll (conditions : Nat → Nat) (pollSet : PollSet) : Except PollFault PollSet :=
  if pollSet.pollFileDescriptors.length < pollSet.maxFileDescriptor then .error .overrun
  else .ok (pollSet.polled conditions)

/-- The loop of `pollCall` over the entries from `i` on. -/
def firstReported : List PollFd → Nat → Int
  | [], _ => -1
  | entry :: entries, i => if entry.revents > 0 then i else firstReported entries (i + 1)

/-- The result of `pollCall` and the set it leaves. Its timeout only decides how long `poll` waits
before nothing is reported. -/
def pollCall (pollSet : PollSet) (conditions : Nat → Nat) : Except PollFault (Int × PollSet) :=
  (poll conditions pollSet).map fun polled => (firstReported polled.scanned 0, polled)

/-! ## The watched descriptors -/

/-- What the set is for: exactly these descriptors are watched for input. -/
structure PollSet.Watches (pollSet : PollSet) (watched : Set Nat) : Prop where
  size : pollSet.pollFileDescriptors.length = pollSet.currentPollSetSize
  high : pollSet.maxFileDescriptor ≤ pollSet.currentPollSetSize
  below : ∀ s ∈ watched, s < pollSet.maxFileDescriptor
  present : ∀ (i : Nat) (entry : PollFd), pollSet.pollFileDescriptors[i]? = some entry →
    i ∈ watched → entry.fd = i ∧ entry.events = pollIn
  absent : ∀ (i : Nat) (entry : PollFd), pollSet.pollFileDescriptors[i]? = some entry →
    i ∉ watched → entry.fd = 0 ∧ entry.events = 0

/-- `poll` reports a watched descriptor that has input, has hung up or has failed. -/
def Ready (conditions : Nat → Nat) (s : Nat) : Prop := conditions s &&& (pollIn ||| pollFailure) ≠ 0

/-- Standard input gives an unused index nothing to report. -/
def QuietInput (conditions : Nat → Nat) : Prop := conditions 0 &&& pollFailure = 0

instance (conditions : Nat → Nat) (s : Nat) : Decidable (Ready conditions s) :=
  inferInstanceAs (Decidable (_ ≠ _))

instance (conditions : Nat → Nat) : Decidable (QuietInput conditions) :=
  inferInstanceAs (Decidable (_ = _))

theorem setupPollSet_watches : setupPollSet.Watches ∅ where
  size := List.length_replicate
  high := Nat.zero_le _
  below _ h := absurd h (Set.notMem_empty _)
  present _ _ _ h := absurd h (Set.notMem_empty _)
  absent i entry h _ := by
    obtain ⟨-, rfl⟩ :=
      List.getElem?_eq_some_iff.mp h |>.imp fun _ h => List.getElem_replicate .. ▸ h
    exact ⟨rfl, rfl⟩

section Operations

variable {pollSet : PollSet} {watched : Set Nat}

private theorem growPollSet_watches (h : pollSet.Watches watched) {newSetSize : Nat}
    (hgrow : pollSet.currentPollSetSize < newSetSize) (stale : Nat → Nat) :
    ∃ grown, growPollSet pollSet newSetSize stale = .ok grown ∧ grown.Watches watched ∧
      grown.currentPollSetSize = newSetSize ∧
      grown.maxFileDescriptor = pollSet.maxFileDescriptor := by
  refine ⟨_, if_neg (Nat.not_le.mpr hgrow), ?_, rfl, rfl⟩
  have hold : ∀ i ∈ watched, i < pollSet.pollFileDescriptors.length := by
    intro i hi
    have := h.below i hi
    have := h.high
    have := h.size
    omega
  constructor
  · simp only [List.length_append, List.length_map, List.length_range', h.size]
    omega
  · exact Nat.le_trans h.high (Nat.le_of_lt hgrow)
  · exact h.below
  · intro i entry hentry hi
    rw [List.getElem?_append_left (hold i hi)] at hentry
    exact h.present i entry hentry hi
  · intro i entry hentry hi
    by_cases hlt : i < pollSet.pollFileDescriptors.length
    · rw [List.getElem?_append_left hlt] at hentry
      exact h.absent i entry hentry hi
    · rw [List.getElem?_append_right (Nat.le_of_not_lt hlt), List.getElem?_map] at hentry
      obtain ⟨_, -, rfl⟩ := Option.map_eq_some_iff.mp hentry
      exact ⟨rfl, rfl⟩

private theorem PollSet.assign_eq (pollSet : PollSet) {socketNumber : Nat}
    (h : socketNumber < pollSet.pollFileDescriptors.length) (fd events : Nat) :
    ∃ entry : PollFd, pollSet.assign socketNumber fd events = .ok { pollSet with
      pollFileDescriptors := pollSet.pollFileDescriptors.set socketNumber
        { entry with fd := fd, events := events } } := by
  refine ⟨pollSet.pollFileDescriptors[socketNumber], ?_⟩
  rw [PollSet.assign, List.getElem?_eq_getElem h]

theorem addToPollSet_watches (h : pollSet.Watches watched) (socketNumber : Nat)
    (stale : Nat → Nat) :
    ∃ added, addToPollSet pollSet socketNumber stale = .ok added ∧
      added.Watches (insert socketNumber watched) := by
  obtain ⟨grown, hgrown, hwatches, hroom⟩ : ∃ grown,
      (if pollSet.currentPollSetSize ≤ socketNumber then
        growPollSet pollSet (socketNumber + pollSetSize) stale else .ok pollSet) = .ok grown ∧
      grown.Watches watched ∧ socketNumber < grown.currentPollSetSize := by
    by_cases hlarge : pollSet.currentPollSetSize ≤ socketNumber
    · have hlarger : pollSet.currentPollSetSize < socketNumber + pollSetSize := by
        rw [pollSetSize]
        omega
      obtain ⟨grown, hgrown, hwatches, hsize, -⟩ := growPollSet_watches h hlarger stale
      rw [if_pos hlarge]
      exact ⟨grown, hgrown, hwatches, by rw [hsize, pollSetSize]; omega⟩
    · rw [if_neg hlarge]
      exact ⟨pollSet, rfl, h, by omega⟩
  have hlt : socketNumber < grown.pollFileDescriptors.length := by
    rw [hwatches.size]
    exact hroom
  obtain ⟨entry, hassign⟩ := PollSet.assign_eq
    { grown with maxFileDescriptor := max grown.maxFileDescriptor (socketNumber + 1) } hlt
    socketNumber pollIn
  have hadd := congrArg (fun sized => sized.bind fun grown : PollSet =>
    let maxFileDescriptor := max grown.maxFileDescriptor (socketNumber + 1)
    { grown with maxFileDescriptor }.assign socketNumber socketNumber pollIn) hgrown
  refine ⟨_, hadd.trans hassign, ?_⟩
  constructor
  · rw [List.length_set]
    exact hwatches.size
  · exact Nat.max_le.mpr ⟨hwatches.high, hroom⟩
  · rintro s (rfl | hs)
    · exact Nat.lt_of_lt_of_le (Nat.lt_succ_self _) (Nat.le_max_right _ _)
    · exact Nat.lt_of_lt_of_le (hwatches.below s hs) (Nat.le_max_left _ _)
  · intro i entry' hentry hi
    by_cases heq : i = socketNumber
    · rw [heq, List.getElem?_set_self hlt] at hentry
      cases hentry
      exact ⟨heq.symm, rfl⟩
    · rw [List.getElem?_set_ne (Ne.symm heq)] at hentry
      exact hwatches.present i entry' hentry (hi.resolve_left heq)
  · intro i entry' hentry hi
    rw [List.getElem?_set_ne (fun heq => hi (.inl heq.symm))] at hentry
    exact hwatches.absent i entry' hentry (fun hmem => hi (.inr hmem))

theorem removeFromPollSet_watches (h : pollSet.Watches watched) {socketNumber : Nat}
    (hmem : socketNumber ∈ watched) :
    ∃ removed, removeFromPollSet pollSet socketNumber = .ok removed ∧
      removed.Watches (watched \ {socketNumber}) := by
  have hlt : socketNumber < pollSet.pollFileDescriptors.length := by
    rw [h.size]
    exact Nat.lt_of_lt_of_le (h.below _ hmem) h.high
  obtain ⟨entry, hassign⟩ := PollSet.assign_eq pollSet hlt 0 0
  refine ⟨_, hassign, ?_⟩
  constructor
  · rw [List.length_set]
    exact h.size
  · exact h.high
  · exact fun s hs => h.below s hs.1
  · intro i entry' hentry hi
    rw [List.getElem?_set_ne (fun heq => hi.2 heq.symm)] at hentry
    exact h.present i entry' hentry hi.1
  · intro i entry' hentry hi
    by_cases heq : i = socketNumber
    · rw [heq, List.getElem?_set_self hlt] at hentry
      cases hentry
      exact ⟨rfl, rfl⟩
    · rw [List.getElem?_set_ne (Ne.symm heq)] at hentry
      exact h.absent i entry' hentry (fun hmem => hi ⟨hmem, heq⟩)

end Operations

/-! ## Which descriptor is reported -/

/-- The entry at an index has something to report. -/
def Reports (conditions : Nat → Nat) (watched : Set Nat) (i : Nat) : Prop :=
  (i ∈ watched ∧ Ready conditions i) ∨ (i ∉ watched ∧ ¬QuietInput conditions)

/-- The result is the least watched descriptor that is ready, or -1 if there is none. -/
def LeastReady (conditions : Nat → Nat) (watched : Set Nat) (result : Int) : Prop :=
  (result = -1 ∧ ∀ s ∈ watched, ¬Ready conditions s) ∨
  ∃ s : Nat, result = s ∧ s ∈ watched ∧ Ready conditions s ∧
    ∀ s' ∈ watched, Ready conditions s' → s ≤ s'

private theorem ready_of_not_quiet {conditions : Nat → Nat} (h : ¬QuietInput conditions) :
    Ready conditions 0 := by
  intro hready
  refine h (Nat.eq_of_testBit_eq fun i => ?_)
  have hbit := congrArg (Nat.testBit · i) hready
  simp only [Nat.testBit_and, Nat.testBit_or, Nat.zero_testBit, Bool.and_eq_false_imp,
    Bool.or_eq_false_iff] at hbit ⊢
  exact fun hi => (hbit hi).2

private theorem firstReported_cases (entries : List PollFd) (i : Nat) :
    (firstReported entries i = -1 ∧
      ∀ (k : Nat) (entry : PollFd), entries[k]? = some entry → entry.revents = 0) ∨
    ∃ (k : Nat) (entry : PollFd), firstReported entries i = (i + k : Nat) ∧
      entries[k]? = some entry ∧ entry.revents ≠ 0 ∧
      ∀ j < k, ∀ entry : PollFd, entries[j]? = some entry → entry.revents = 0 := by
  induction entries generalizing i with
  | nil => exact .inl ⟨rfl, fun k entry h => by simp at h⟩
  | cons head entries ih =>
    rw [firstReported]
    by_cases hhead : head.revents > 0
    · rw [if_pos hhead]
      refine .inr ⟨0, head, rfl, rfl, by omega, ?_⟩
      intro j hj
      exact absurd hj (Nat.not_lt_zero j)
    · rw [if_neg hhead]
      have hzero : head.revents = 0 := by omega
      rcases ih (i + 1) with ⟨hnone, hall⟩ | ⟨k, entry, hfound, hentry, hne, hbefore⟩
      · refine .inl ⟨hnone, ?_⟩
        intro k entry hentry
        cases k with
        | zero =>
          cases hentry
          exact hzero
        | succ k => exact hall k entry hentry
      · refine .inr ⟨k + 1, entry, ?_, hentry, hne, ?_⟩
        · rw [hfound]
          congr 1
          omega
        · intro j hj entry hentry
          cases j with
          | zero =>
            cases hentry
            exact hzero
          | succ j => exact hbefore j (by omega) entry hentry

private theorem getElem?_scanned {pollSet : PollSet} {i : Nat}
    (h : i < pollSet.maxFileDescriptor) :
    pollSet.scanned[i]? = pollSet.pollFileDescriptors[i]? := List.getElem?_take_of_lt h

section Call

variable {pollSet : PollSet} {watched : Set Nat} (h : pollSet.Watches watched)
  (conditions : Nat → Nat)

include h

private theorem length_scanned : pollSet.scanned.length = pollSet.maxFileDescriptor := by
  rw [PollSet.scanned, List.length_take, h.size]
  exact Nat.min_eq_left h.high

private theorem polled_watches : (pollSet.polled conditions).Watches watched := by
  have hentry : ∀ (i : Nat) (entry : PollFd),
      (pollSet.polled conditions).pollFileDescriptors[i]? = some entry →
      ∃ old : PollFd, pollSet.pollFileDescriptors[i]? = some old ∧ entry.fd = old.fd ∧
        entry.events = old.events := by
    intro i entry hentry
    have hlength := length_scanned h
    simp only [PollSet.polled] at hentry
    by_cases hlt : i < pollSet.maxFileDescriptor
    · rw [List.getElem?_append_left (by rw [List.length_map, hlength]; exact hlt),
        List.getElem?_map, getElem?_scanned hlt] at hentry
      obtain ⟨old, hold, rfl⟩ := Option.map_eq_some_iff.mp hentry
      exact ⟨old, hold, rfl, rfl⟩
    · rw [List.getElem?_append_right (by rw [List.length_map, hlength]; omega),
        List.length_map, hlength, List.getElem?_drop, Nat.add_sub_cancel' (by omega)] at hentry
      exact ⟨entry, hentry, rfl, rfl⟩
  constructor
  · unfold PollSet.polled
    rw [List.length_append, List.length_map, ← List.length_append, PollSet.scanned,
      List.take_append_drop]
    exact h.size
  · exact h.high
  · exact h.below
  · intro i entry hi hmem
    obtain ⟨old, hold, hfd, hevents⟩ := hentry i entry hi
    rw [hfd, hevents]
    exact h.present i old hold hmem
  · intro i entry hi hmem
    obtain ⟨old, hold, hfd, hevents⟩ := hentry i entry hi
    rw [hfd, hevents]
    exact h.absent i old hold hmem

private theorem revents_polled {i : Nat} {entry : PollFd}
    (hentry : (pollSet.polled conditions).scanned[i]? = some entry) :
    entry.revents ≠ 0 ↔ Reports conditions watched i := by
  have hlength := length_scanned h
  have hscan : (pollSet.polled conditions).scanned =
      pollSet.scanned.map fun entry => { entry with revents := entry.reported conditions } :=
    List.take_left' (by rw [List.length_map, hlength]; rfl)
  rw [hscan, List.getElem?_map] at hentry
  obtain ⟨old, hold, rfl⟩ := Option.map_eq_some_iff.mp hentry
  have hlt := (List.getElem?_eq_some_iff.mp hold).1
  rw [hlength] at hlt
  rw [getElem?_scanned hlt] at hold
  by_cases hmem : i ∈ watched
  · obtain ⟨hfd, hevents⟩ := h.present i old hold hmem
    simp [Reports, hmem, PollFd.reported, hfd, hevents, Ready]
  · obtain ⟨hfd, hevents⟩ := h.absent i old hold hmem
    simp [Reports, hmem, PollFd.reported, hfd, hevents, QuietInput]

private theorem pollCall_eq :
    pollCall pollSet conditions =
      .ok (firstReported (pollSet.polled conditions).scanned 0, pollSet.polled conditions) := by
  have hinside : ¬pollSet.pollFileDescriptors.length < pollSet.maxFileDescriptor := by
    rw [h.size]
    exact Nat.not_lt.mpr h.high
  rw [pollCall, poll, if_neg hinside]
  rfl

/-- `pollCall` finds the first index that has something to report, or nothing. -/
theorem pollCall_cases :
    ∃ result polled, pollCall pollSet conditions = .ok (result, polled) ∧
      polled.Watches watched ∧
      ((result = -1 ∧ ∀ i < pollSet.maxFileDescriptor, ¬Reports conditions watched i) ∨
      ∃ i < pollSet.maxFileDescriptor, result = (i : Nat) ∧ Reports conditions watched i ∧
        ∀ j < i, ¬Reports conditions watched j) := by
  refine ⟨_, _, pollCall_eq h conditions, polled_watches h conditions, ?_⟩
  have hentry : ∀ i < pollSet.maxFileDescriptor, ∃ entry,
      (pollSet.polled conditions).scanned[i]? = some entry := by
    intro i hi
    refine ⟨_, List.getElem?_eq_getElem ?_⟩
    rw [length_scanned (polled_watches h conditions)]
    exact hi
  rcases firstReported_cases (pollSet.polled conditions).scanned 0 with
    ⟨hnone, hall⟩ | ⟨k, entry, hfound, hk, hne, hbefore⟩
  · refine .inl ⟨hnone, ?_⟩
    intro i hi hreports
    obtain ⟨entry, hi⟩ := hentry i hi
    exact (revents_polled h conditions hi).mpr hreports (hall i entry hi)
  · rw [Nat.zero_add] at hfound
    have hlt : k < pollSet.maxFileDescriptor := by
      have hlength := (List.getElem?_eq_some_iff.mp hk).1
      rw [length_scanned (polled_watches h conditions)] at hlength
      exact hlength
    refine .inr ⟨k, hlt, hfound, (revents_polled h conditions hk).mp hne, ?_⟩
    intro j hj hreports
    obtain ⟨entry, hentry⟩ := hentry j (by omega)
    exact (revents_polled h conditions hentry).mpr hreports (hbefore j hj entry hentry)

/-- While standard input is quiet, or is itself watched, the least watched descriptor that is ready
is reported. -/
theorem pollCall_least (hinput : 0 ∈ watched ∨ QuietInput conditions) :
    ∃ result polled, pollCall pollSet conditions = .ok (result, polled) ∧
      polled.Watches watched ∧ LeastReady conditions watched result := by
  have hquiet : ∀ i, (∀ j < i, ¬Reports conditions watched j) → Reports conditions watched i →
      i ∈ watched ∧ Ready conditions i := by
    intro i hbefore hreports
    rcases hreports with hreports | ⟨hmem, hloud⟩
    · exact hreports
    · rcases hinput with hzero | hquiet
      · -- A failure of standard input is reported at its own index first.
        have hready : Ready conditions 0 := ready_of_not_quiet hloud
        rcases Nat.eq_zero_or_pos i with rfl | hpos
        · exact absurd hzero hmem
        · exact absurd (.inl ⟨hzero, hready⟩) (hbefore 0 hpos)
      · exact absurd hquiet hloud
  obtain ⟨result, polled, hcall, hpolled, hcases⟩ := pollCall_cases h conditions
  refine ⟨result, polled, hcall, hpolled, ?_⟩
  rcases hcases with ⟨hnone, hall⟩ | ⟨i, -, hfound, hreports, hbefore⟩
  · rw [hnone]
    refine .inl ⟨rfl, ?_⟩
    intro s hs hready
    exact hall s (h.below s hs) (.inl ⟨hs, hready⟩)
  · rw [hfound]
    obtain ⟨hmem, hready⟩ := hquiet i hbefore hreports
    refine .inr ⟨i, rfl, hmem, hready, ?_⟩
    intro s hs hready
    by_contra hlt
    exact hbefore s (by omega) (.inl ⟨hs, hready⟩)

end Call

/-! ## Runs of the library -/

/-- A call of a function of `pollLib.c`. -/
inductive PollOperation
  | add (socketNumber : Nat) (stale : Nat → Nat)
  | remove (socketNumber : Nat)
  | call (conditions : Nat → Nat)

/-- The results of the calls of `pollCall` among some calls. -/
def pollResults (pollSet : PollSet) : List PollOperation → Except PollFault (List Int)
  | [] => .ok []
  | .add socketNumber stale :: operations =>
      (addToPollSet pollSet socketNumber stale).bind fun added => pollResults added operations
  | .remove socketNumber :: operations =>
      (removeFromPollSet pollSet socketNumber).bind fun removed => pollResults removed operations
  | .call conditions :: operations =>
      (pollCall pollSet conditions).bind fun (result, polled) =>
        (pollResults polled operations).map (result :: ·)

/-- The callers remove only what they watch, and call `pollCall` while standard input is quiet or
watched. -/
def Permitted (watched : Set Nat) : List PollOperation → Prop
  | [] => True
  | .add socketNumber _ :: operations => Permitted (insert socketNumber watched) operations
  | .remove socketNumber :: operations =>
      socketNumber ∈ watched ∧ Permitted (watched \ {socketNumber}) operations
  | .call conditions :: operations =>
      (0 ∈ watched ∨ QuietInput conditions) ∧ Permitted watched operations

/-- The results that a set of watched descriptors gives. -/
def Expected (watched : Set Nat) : List PollOperation → List Int → Prop
  | [], results => results = []
  | .add socketNumber _ :: operations, results =>
      Expected (insert socketNumber watched) operations results
  | .remove socketNumber :: operations, results =>
      Expected (watched \ {socketNumber}) operations results
  | .call conditions :: operations, results =>
      ∃ result rest, results = result :: rest ∧ LeastReady conditions watched result ∧
        Expected watched operations rest

private theorem pollResults_watches {pollSet : PollSet} {watched : Set Nat}
    (h : pollSet.Watches watched) (operations : List PollOperation)
    (hpermitted : Permitted watched operations) :
    ∃ results, pollResults pollSet operations = .ok results ∧
      Expected watched operations results := by
  induction operations generalizing pollSet watched with
  | nil => exact ⟨[], rfl, rfl⟩
  | cons operation operations ih =>
    cases operation with
    | add socketNumber stale =>
      obtain ⟨added, hadd, hwatches⟩ := addToPollSet_watches h socketNumber stale
      obtain ⟨results, hresults, hexpected⟩ := ih hwatches hpermitted
      refine ⟨results, ?_, hexpected⟩
      rw [pollResults, hadd]
      exact hresults
    | remove socketNumber =>
      obtain ⟨hmem, hrest⟩ := hpermitted
      obtain ⟨removed, hremove, hwatches⟩ := removeFromPollSet_watches h hmem
      obtain ⟨results, hresults, hexpected⟩ := ih hwatches hrest
      refine ⟨results, ?_, hexpected⟩
      rw [pollResults, hremove]
      exact hresults
    | call conditions =>
      obtain ⟨hinput, hrest⟩ := hpermitted
      obtain ⟨result, polled, hcall, hwatches, hleast⟩ := pollCall_least h conditions hinput
      obtain ⟨results, hresults, hexpected⟩ := ih hwatches hrest
      refine ⟨result :: results, ?_, _, _, rfl, hleast, hexpected⟩
      simp only [pollResults, hcall, Except.bind, hresults]
      rfl

/-- Any calls of the library, with sockets of any size, neither exit nor leave the set,
and every `pollCall` among them returns the least watched descriptor that is ready. -/
theorem pollResults_setupPollSet (operations : List PollOperation)
    (hpermitted : Permitted ∅ operations) :
    ∃ results, pollResults setupPollSet operations = .ok results ∧
      Expected ∅ operations results :=
  pollResults_watches setupPollSet_watches operations hpermitted

/-- The last call finds the listening socket alone. -/
def twoSockets : List PollOperation :=
  [.add 3 fun _ => 0, .add 25 fun _ => 8, .call fun s => if s = 25 then 1 else 0, .remove 25,
    .call fun s => if s = 25 ∨ s = 3 then 1 else 0]

theorem pollResults_twoSockets :
    ∃ results, pollResults setupPollSet twoSockets = .ok results ∧
      Expected ∅ twoSockets results := by
  refine pollResults_setupPollSet twoSockets ⟨.inr (by decide), .inl rfl, .inr (by decide), trivial⟩

example : (pollResults setupPollSet twoSockets).toOption = some [25, 3] := by decide

end Cpe464.Chat
