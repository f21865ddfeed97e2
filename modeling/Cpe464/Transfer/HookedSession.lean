import Cpe464.Transfer.Assembly
import Mathlib.Data.List.ReduceOption

/-!
# A session through the send hook

Every process sends its datagrams through `sendtoErr`, with a manager that it has set up from the
environment and with `sendErr_init`. What the managers do to the datagrams a network can do as well
that loses some of them and flips others, so that a session through the hook is one of the sessions
on such a network.
-/

namespace Cpe464.Transfer

open Runs

/-- The manager of a process when it sends a datagram, and the draws for it. -/
structure Hook where
  manager : PacketManager
  draws : Draws

/-- What `sendtoErr` hands on of a datagram. -/
def Hook.through (hook : Hook) (d : Datagram) : Option Datagram :=
  ((sendtoErr hook.manager d.bytes hook.draws).bind Sent.datagram).map (⟨d.client, ·⟩)

/-- A process can have got its manager into this state. -/
def Hook.Reached (hook : Hook) : Prop :=
  ∃ settings actions moments, run (hookStep settings) (loadEnvData settings) actions =
    some (moments, hook.manager) ∧ ∀ m ∈ moments, m.action.Drawn m.before

/-- The manager may flip a byte. -/
def Hook.CanFlip (hook : Hook) : Prop := .errorFlipBits ∈ hook.manager.errorCaseChance

def sendThrough (hooks : List Hook) (sent : List Datagram) : List Datagram :=
  (List.zipWith Hook.through hooks sent).reduceOption

/-- The datagram that an event sends. -/
def SessionEvent.datagram : SessionEvent → Option Datagram
  | .server event => event.datagram
  | .client sender event => event.packet.map (⟨sender, ·⟩)

/-- A step, and the hook for every datagram that it sends. -/
structure HookedAction where
  action : SessionAction
  hooks : List Hook

/-- The action leaves a datagram out. -/
def SessionAction.Loses : SessionAction → Prop
  | .toServer .lose _ => True
  | .toClient .lose _ => True
  | _ => False

section Hooked

variable (fopen : List UInt8 → Option (List UInt8))

/-- A step of the session whose datagrams go through the hooks. -/
def hookedStep (s : Session) (hooked : HookedAction) : Option (List SessionEvent × Session) :=
  match sessionStep fopen s hooked.action with
  | none => none
  | some (events, s') =>
    let sent := events.filterMap SessionEvent.datagram
    if hooked.hooks.length = sent.length then
      match hooked.action with
      | .server _ =>
          some (events, { s' with toClients := s.toClients ++ sendThrough hooked.hooks sent })
      | .client _ =>
          some (events, { s' with server := { s'.server with
            inFlight := s.server.inFlight ++ sendThrough hooked.hooks sent } })
      | _ => some (events, s')
    else none

end Hooked

/-! ## One datagram -/

private theorem sendtoErr_cases {manager : PacketManager} (hkeeps : manager.Keeps)
    (buf : List UInt8) (draws : Draws) :
    (sendtoErr manager buf draws).bind Sent.datagram = none ∨
      (sendtoErr manager buf draws).bind Sent.datagram = some buf ∨
      (.errorFlipBits ∈ manager.errorCaseChance ∧
        (sendtoErr manager buf draws).bind Sent.datagram =
          some (flipByte buf draws.byteToFlip)) := by
  obtain ⟨hkept, -⟩ := runMsgEvents_keeps (manager.msgNo + 1) draws.constant
    manager.errorCaseConstant 0 buf false hkeeps.constant
  by_cases hbuf : buf = []
  · exact .inl (by rw [sendtoErr, if_pos hbuf, Option.bind_none])
  · rw [sendtoErr, if_neg hbuf]
    simp only [processEvents]
    split
    · cases hcase : manager.errorCaseChance[draws.randCase]? with
      | none => exact .inl rfl
      | some event =>
        simp only [Option.map_some, Option.bind_some, hkept, run_buf]
        generalize (if _ = Outcome.dropped then Outcome.dropped else _) = outcome
        by_cases hdropped : outcome = .dropped
        · exact .inl (if_pos hdropped)
        · rw [if_neg hdropped]
          by_cases hflip : event = .errorFlipBits
          · rw [if_pos hflip]
            exact .inr (.inr ⟨hflip ▸ List.mem_of_getElem? hcase, rfl⟩)
          · rw [if_neg hflip]
            exact .inr (.inl rfl)
    · simp only [Option.map_some, Option.bind_some, hkept]
      split
      · exact .inl rfl
      · exact .inr (.inl rfl)

private theorem Hook.through_cases {hook : Hook} (hkeeps : hook.manager.Keeps) (d : Datagram) :
    hook.through d = none ∨ hook.through d = some d ∨
      (hook.CanFlip ∧
        hook.through d = some ⟨d.client, flipByte d.bytes hook.draws.byteToFlip⟩) := by
  unfold Hook.through
  rcases sendtoErr_cases hkeeps d.bytes hook.draws with hnone | hsame | ⟨hflip, hflipped⟩
  · rw [hnone]
    exact .inl rfl
  · rw [hsame]
    exact .inr (.inl rfl)
  · rw [hflipped]
    exact .inr (.inr ⟨hflip, rfl⟩)

theorem Hook.Reached.keeps {hook : Hook} (h : hook.Reached) : hook.manager.Keeps := by
  obtain ⟨settings, actions, moments, hrun, hdrawn⟩ := h
  exact (run_unlisted (loadEnvData_inv settings) (loadEnvData_msgNo settings) hrun hdrawn).1.keeps

/-! ## The faults -/

/-- A fault that a hook stands for. -/
def StandsFor (hooks : List Hook) (fault : Fault) : Prop :=
  fault = .lose ∨ ∃ byteToFlip, fault = .flip byteToFlip ∧ ∃ hook ∈ hooks, hook.CanFlip

def applyAll (faults : List (Fault × Nat)) (inFlight : List Datagram) : List Datagram :=
  faults.foldl (fun inFlight fault => fault.1.apply fault.2 inFlight) inFlight

private theorem lose_behind (before sent : List Datagram) (d : Datagram) :
    Fault.apply .lose before.length (before ++ d :: sent) = before ++ sent := by
  rw [Fault.apply, List.eraseIdx_append_of_length_le (Nat.le_refl _), Nat.sub_self,
    List.eraseIdx_cons_zero]

private theorem flip_behind (byteToFlip : Nat) (before sent : List Datagram) (d : Datagram) :
    Fault.apply (.flip byteToFlip) before.length (before ++ d :: sent) =
      before ++ [⟨d.client, flipByte d.bytes byteToFlip⟩] ++ sent := by
  have hlt : before.length < (before ++ d :: sent).length := by simp
  rw [Fault.apply, List.modify_eq_take_cons_drop hlt]
  simp

theorem StandsFor.cons {hooks : List Hook} {fault : Fault} (h : StandsFor hooks fault)
    (hook : Hook) : StandsFor (hook :: hooks) fault := by
  rcases h with hlose | ⟨byteToFlip, hflip, hook', hmem, hcan⟩
  · exact .inl hlose
  · exact .inr ⟨byteToFlip, hflip, hook', List.mem_cons_of_mem _ hmem, hcan⟩

private theorem sendThrough_cons (hook : Hook) (hooks : List Hook) (d : Datagram)
    (sent : List Datagram) : sendThrough (hook :: hooks) (d :: sent) =
      (hook.through d).toList ++ sendThrough hooks sent := by
  rw [sendThrough, List.zipWith_cons_cons]
  cases hook.through d with
  | none => exact List.reduceOption_cons_of_none _
  | some d' => exact List.reduceOption_cons_of_some _ _

private theorem exists_faults {hooks : List Hook} (hkeeps : ∀ hook ∈ hooks, hook.manager.Keeps)
    (before : List Datagram) {sent : List Datagram} (hlength : hooks.length = sent.length) :
    ∃ faults, applyAll faults (before ++ sent) = before ++ sendThrough hooks sent ∧
      ∀ fault ∈ faults, StandsFor hooks fault.1 := by
  induction hooks generalizing before sent with
  | nil =>
    obtain rfl : sent = [] := List.length_eq_zero_iff.mp hlength.symm
    exact ⟨[], rfl, List.forall_mem_nil _⟩
  | cons hook hooks ih =>
    obtain ⟨hthis, hothers⟩ := List.forall_mem_cons.mp hkeeps
    cases sent with
    | nil => simp at hlength
    | cons d sent =>
      have hrest : hooks.length = sent.length := Nat.succ.inj hlength
      rcases Hook.through_cases hthis d with hnone | hsame | ⟨hcan, hflipped⟩
      · obtain ⟨faults, happlied, hstand⟩ := ih hothers before hrest
        refine ⟨(.lose, before.length) :: faults, ?_, ?_⟩
        · rw [applyAll, List.foldl_cons, lose_behind, sendThrough_cons, hnone]
          exact happlied
        · refine List.forall_mem_cons.mpr ⟨.inl rfl, ?_⟩
          exact fun fault hfault => (hstand fault hfault).cons hook
      · obtain ⟨faults, happlied, hstand⟩ := ih hothers (before ++ [d]) hrest
        refine ⟨faults, ?_, fun fault hfault => (hstand fault hfault).cons hook⟩
        rw [sendThrough_cons, hsame]
        simpa only [Option.toList_some, List.append_assoc, List.cons_append, List.nil_append]
          using happlied
      · obtain ⟨faults, happlied, hstand⟩ :=
          ih hothers (before ++ [⟨d.client, flipByte d.bytes hook.draws.byteToFlip⟩]) hrest
        refine ⟨(.flip hook.draws.byteToFlip, before.length) :: faults, ?_, ?_⟩
        · rw [applyAll, List.foldl_cons, flip_behind, sendThrough_cons, hflipped]
          simpa only [Option.toList_some, applyAll, List.append_assoc, List.cons_append,
            List.nil_append] using happlied
        · refine List.forall_mem_cons.mpr ⟨.inr ⟨_, rfl, hook, List.mem_cons_self, hcan⟩, ?_⟩
          exact fun fault hfault => (hstand fault hfault).cons hook

/-! ## Steps -/

section Steps

variable {fopen : List UInt8 → Option (List UInt8)}

private theorem exists_run_faults (faults : List (Fault × Nat)) (s : Session) :
    (∃ moments, run (sessionStep fopen) s
        (faults.map fun fault => .toClient fault.1 fault.2) =
          some (moments, { s with toClients := applyAll faults s.toClients }) ∧
        moments.flatMap Moment.output = []) ∧
      ∃ moments, run (sessionStep fopen) s
        (faults.map fun fault => .toServer fault.1 fault.2) =
          some (moments, { s with
            server := { s.server with inFlight := applyAll faults s.server.inFlight } }) ∧
        moments.flatMap Moment.output = [] := by
  induction faults generalizing s with
  | nil => exact ⟨⟨[], rfl, rfl⟩, [], rfl, rfl⟩
  | cons fault faults ih =>
    obtain ⟨⟨moments, hrun, hnone⟩, -⟩ :=
      ih { s with toClients := fault.1.apply fault.2 s.toClients }
    obtain ⟨-, moments', hrun', hnone'⟩ := ih { s with
      server := { s.server with inFlight := fault.1.apply fault.2 s.server.inFlight } }
    refine ⟨⟨_, run_step rfl hrun, ?_⟩, _, run_step rfl hrun', ?_⟩
    · rw [List.flatMap_cons, hnone]
      rfl
    · rw [List.flatMap_cons, hnone']
      rfl

private theorem sessionStep_sends {s t : Session} {action : SessionAction}
    {events : List SessionEvent} (h : sessionStep fopen s action = some (events, t)) :
    let sent := events.filterMap SessionEvent.datagram
    (∀ a, action = .server a → t.toClients = s.toClients ++ sent) ∧
      ∀ index, action = .client index → t.server.inFlight = s.server.inFlight ++ sent := by
  intro sent
  constructor
  · rintro a rfl
    obtain ⟨-, output, server, -, houtput, rfl⟩ := sessionStep_server h
    have hsent : sent = output.filterMap Event.datagram := by
      simp only [sent, houtput, List.filterMap_map]
      rfl
    rw [hsent]
  · rintro index rfl
    obtain ⟨d, loop, -, -, heq⟩ := sessionStep_client h
    obtain ⟨rfl, rfl⟩ := Prod.mk.inj heq
    have hsent : sent = replies d.client (talkToServer loop d.bytes).1 := by
      simp only [sent, replies, List.filterMap_map, List.map_filterMap]
      rfl
    rw [hsent]

private theorem hookedStep_cases {s s' : Session} {hooked : HookedAction}
    {events : List SessionEvent} (h : hookedStep fopen s hooked = some (events, s')) :
    let sent := events.filterMap SessionEvent.datagram
    let handed := sendThrough hooked.hooks sent
    ∃ t, sessionStep fopen s hooked.action = some (events, t) ∧
      hooked.hooks.length = sent.length ∧
      (s' = t ∨
        (t.toClients = s.toClients ++ sent ∧ s' = { t with toClients := s.toClients ++ handed }) ∨
        (t.server.inFlight = s.server.inFlight ++ sent ∧ s' = { t with
          server := { t.server with inFlight := s.server.inFlight ++ handed } })) := by
  intro sent handed
  rw [hookedStep] at h
  split at h
  · cases h
  · rename_i events' t hstep
    obtain ⟨hserver, hclient⟩ := sessionStep_sends hstep
    by_cases hlength : hooked.hooks.length = (events'.filterMap SessionEvent.datagram).length
    · simp only [if_pos hlength] at h
      split at h
      · rename_i action haction
        cases h
        exact ⟨t, hstep, hlength, .inr (.inl ⟨hserver action haction, rfl⟩)⟩
      · rename_i index haction
        cases h
        exact ⟨t, hstep, hlength, .inr (.inr ⟨hclient index haction, rfl⟩)⟩
      · cases h
        exact ⟨_, hstep, hlength, .inl rfl⟩
    · simp only [if_neg hlength] at h
      cases h

private theorem hookedStep_refines {s s' : Session} {hooked : HookedAction}
    {events : List SessionEvent} (h : hookedStep fopen s hooked = some (events, s'))
    (hkeeps : ∀ hook ∈ hooked.hooks, hook.manager.Keeps) :
    ∃ actions group, run (sessionStep fopen) s actions = some (group, s') ∧
      group.flatMap Moment.output = events ∧
      ∀ action ∈ actions, action = hooked.action ∨ ∃ fault index, StandsFor hooked.hooks fault ∧
        (action = .toClient fault index ∨ action = .toServer fault index) := by
  obtain ⟨t, hstep, hlength, hnext⟩ := hookedStep_cases h
  rcases hnext with rfl | ⟨hsent, rfl⟩ | ⟨hsent, rfl⟩
  · refine ⟨[hooked.action], _, run_step hstep rfl, List.append_nil _, ?_⟩
    exact List.forall_mem_singleton.mpr (.inl rfl)
  · obtain ⟨faults, happlied, hstand⟩ := exists_faults hkeeps s.toClients hlength
    obtain ⟨⟨moments, hrun, hnone⟩, -⟩ := exists_run_faults faults t
    rw [hsent, happlied] at hrun
    refine ⟨_, _, run_step hstep hrun, ?_, List.forall_mem_cons.mpr ⟨.inl rfl, ?_⟩⟩
    · rw [List.flatMap_cons, hnone, List.append_nil]
    · refine List.forall_mem_map.mpr fun fault hfault => .inr ?_
      exact ⟨fault.1, fault.2, hstand fault hfault, .inl rfl⟩
  · obtain ⟨faults, happlied, hstand⟩ := exists_faults hkeeps s.server.inFlight hlength
    obtain ⟨-, moments, hrun, hnone⟩ := exists_run_faults faults t
    rw [hsent, happlied] at hrun
    refine ⟨_, _, run_step hstep hrun, ?_, List.forall_mem_cons.mpr ⟨.inl rfl, ?_⟩⟩
    · rw [List.flatMap_cons, hnone, List.append_nil]
    · refine List.forall_mem_map.mpr fun fault hfault => .inr ?_
      exact ⟨fault.1, fault.2, hstand fault hfault, .inr rfl⟩

end Steps

/-! ## Runs -/

/-- The group takes the step, and otherwise does what hooks stand for. -/
def Stands (m : Moment Session HookedAction (List SessionEvent))
    (group : List (Moment Session SessionAction (List SessionEvent))) : Prop :=
  group.flatMap Moment.output = m.output ∧ ∀ m' ∈ group, m'.action = m.action.action ∨
    m'.action.Loses ∨ m'.action.Flips ∧ ∃ hook ∈ m.action.hooks, hook.CanFlip

private theorem exists_stands {moments : List (Moment Session HookedAction (List SessionEvent))}
    {groups : List (List (Moment Session SessionAction (List SessionEvent)))}
    (h : List.Forall₂ Stands moments groups)
    {group : List (Moment Session SessionAction (List SessionEvent))} (hgroup : group ∈ groups) :
    ∃ m ∈ moments, Stands m group := by
  induction h with
  | nil => cases hgroup
  | @cons m first moments groups hstands _ ih =>
    rcases List.mem_cons.mp hgroup with rfl | hgroup
    · exact ⟨m, List.mem_cons_self, hstands⟩
    · obtain ⟨m', hm', hstands'⟩ := ih hgroup
      exact ⟨m', List.mem_cons_of_mem _ hm', hstands'⟩

private theorem stands_step {fopen : List UInt8 → Option (List UInt8)} {s s' : Session}
    {hooked : HookedAction} {events : List SessionEvent}
    (h : hookedStep fopen s hooked = some (events, s'))
    (hkeeps : ∀ hook ∈ hooked.hooks, hook.manager.Keeps) :
    ∃ actions group, run (sessionStep fopen) s actions = some (group, s') ∧
      Stands ⟨s, hooked, events, s'⟩ group := by
  obtain ⟨actions, group, hrun, houtput, hactions⟩ := hookedStep_refines h hkeeps
  refine ⟨actions, group, hrun, houtput, ?_⟩
  intro m hm
  have hmem : m.action ∈ actions := run_actions hrun ▸ List.mem_map_of_mem hm
  rcases hactions m.action hmem with hsame | ⟨fault, index, hstand, hfault⟩
  · exact .inl hsame
  · rcases hstand with rfl | ⟨byteToFlip, rfl, hook, hhook, hcan⟩
    · refine .inr (.inl ?_)
      rcases hfault with hfault | hfault <;> rw [hfault] <;> trivial
    · refine .inr (.inr ⟨?_, hook, hhook, hcan⟩)
      rcases hfault with hfault | hfault <;> rw [hfault] <;> trivial

/-- A session through the hooks is a session on a network that loses datagrams, and flips some if a
hook can: it has the same events, leads to the same state, and nothing else happens in it that did
not happen in the session through the hooks. -/
theorem hooked_session_refines {fopen : List UInt8 → Option (List UInt8)} {s last : Session}
    {actions : List HookedAction}
    {moments : List (Moment Session HookedAction (List SessionEvent))}
    (hrun : run (hookedStep fopen) s actions = some (moments, last))
    (hreached : ∀ hooked ∈ actions, ∀ hook ∈ hooked.hooks, hook.Reached) :
    ∃ actions' moments', run (sessionStep fopen) s actions' = some (moments', last) ∧
      moments'.flatMap Moment.output = moments.flatMap Moment.output ∧
      ∀ action ∈ actions', (∃ hooked ∈ actions, hooked.action = action) ∨ action.Loses ∨
        action.Flips ∧ ∃ hooked ∈ actions, ∃ hook ∈ hooked.hooks, hook.CanFlip := by
  have hactions := run_actions hrun
  obtain ⟨actions', groups, last', hrun', rfl, hstands⟩ := run_simulation Eq
    (fun _ (hooked : HookedAction) => ∀ hook ∈ hooked.hooks, hook.manager.Keeps) Stands
    (fun s t hooked events s' hstep hsame hkeeps => by
      subst hsame
      obtain ⟨actions, group, hgroup, hstands⟩ := stands_step hstep hkeeps
      exact ⟨actions, group, s', hgroup, rfl, hstands⟩)
    rfl hrun (fun m hm hook hhook =>
      (hreached m.action (hactions ▸ List.mem_map_of_mem hm) hook hhook).keeps)
  refine ⟨actions', groups.flatten, hrun', ?_, ?_⟩
  · clear hrun hrun' hactions
    induction hstands with
    | nil => rfl
    | cons hstands _ ih =>
      rw [List.flatten_cons, List.flatMap_append, hstands.1, List.flatMap_cons, ih]
  · intro action haction
    rw [← run_actions hrun'] at haction
    obtain ⟨m', hm', rfl⟩ := List.mem_map.mp haction
    obtain ⟨group, hgroup, hm'⟩ := List.mem_flatten.mp hm'
    obtain ⟨m, hm, -, hgroup⟩ := exists_stands hstands hgroup
    have hmem : m.action ∈ actions := hactions ▸ List.mem_map_of_mem hm
    rcases hgroup m' hm' with hsame | hloses | ⟨hflips, hhook⟩
    · exact .inl ⟨m.action, hmem, hsame.symm⟩
    · exact .inr (.inl hloses)
    · exact .inr (.inr ⟨hflips, m.action, hmem, hhook⟩)

/-- `sendErr_init` has been called, and the second random event runs on the tenth byte. -/
def flippingHook : Hook where
  manager := sendErrInit ⟨none, none⟩ (loadEnvData ⟨none, none⟩) true true
  draws := ⟨fun _ => 0, true, 1, 9⟩

private theorem flippingHook_reached : flippingHook.Reached :=
  ⟨⟨none, none⟩, [.init true true], _, rfl, List.forall_mem_singleton.mpr trivial⟩

/-- The answer to a request is flipped by the hook of the child. -/
def flippedAnswer : List HookedAction :=
  [⟨.server (.parentReceive 0 true 0 0 zeroHeap), [flippingHook]⟩, ⟨.client 0, []⟩]

theorem hooked_session_refines_flipped :
    ∃ moments last, run (hookedStep oneFile)
        (initialSession serverStart [(connectRequest, rcopyStart)]) flippedAnswer =
          some (moments, last) ∧
      ∃ actions' moments', run (sessionStep oneFile)
        (initialSession serverStart [(connectRequest, rcopyStart)]) actions' =
          some (moments', last) ∧
        moments'.flatMap Moment.output = moments.flatMap Moment.output := by
  obtain ⟨moments, last, hrun, -⟩ := exists_run_of (hookedStep oneFile)
    (initialSession serverStart [(connectRequest, rcopyStart)]) flippedAnswer (fun _ => True)
    (by decide +kernel)
  have hreached : ∀ hooked ∈ flippedAnswer, ∀ hook ∈ hooked.hooks, hook.Reached := by
    simp [flippedAnswer, flippingHook_reached]
  obtain ⟨actions', moments', hrun', houtput, -⟩ := hooked_session_refines hrun hreached
  exact ⟨moments, last, hrun, actions', moments', hrun', houtput⟩

end Cpe464.Transfer
