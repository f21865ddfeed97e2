import Cpe464.Chat.HandleMap
import Cpe464.Chat.Listing
import Cpe464.Chat.Outgoing
import Cpe464.Chat.Stdin

/-!
# From keyboard to screen

The client, the server and the client at the other end together: what one client asks for or types
is what the clients it concerns are shown, whatever the other clients do in between.
-/

namespace Cpe464.Chat

open Runs
open Client (Command Shown ServerMessage TextEnds dispatch)

/-! ## The list of handles on the screen -/

private theorem shows_listStart (call : DisplayCall) {n : Nat} (h : n < 65536) :
    call.shows (11 :: (toLE 4 n).reverse) = some [.listStart n] := by
  have hflag : byteAt (received (11 :: (toLE 4 n).reverse) call.buf) 2 = 11 :=
    byteAt_received _ call.buf 0 (by simp)
  have hnumber : slice (received (11 :: (toLE 4 n).reverse) call.buf) 3 4 = (toLE 4 n).reverse := by
    have hslice := slice_middle (pduHeader 5 ++ [11]) (toLE 4 n).reverse (call.buf.drop 7)
    rw [List.length_append, length_pduHeader, List.length_reverse, length_toLE] at hslice
    have hreceived : received (11 :: (toLE 4 n).reverse) call.buf =
        pduHeader 5 ++ [11] ++ (toLE 4 n).reverse ++ call.buf.drop 7 := by
      simp [received]
    rwa [hreceived]
  have hvalue : ntohl (ofLE (toLE 4 n).reverse) = n := by
    have hswap : ofLE (toLE 4 n).reverse = swapBytes 4 n := rfl
    rw [hswap, ntohl, swapBytes_swapBytes, Nat.mod_eq_of_lt (by omega)]
  have hsigned : Int.bmod n (2 ^ 32) = n := by
    rw [Int.bmod_def]
    omega
  unfold DisplayCall.shows dispatch
  rw [hflag]
  show some [Client.printHandleNumber _] = _
  rw [Client.printHandleNumber, hnumber, hvalue, hsigned]

private theorem shows_listed {call : DisplayCall} (hsized : call.Sized) {name : List UInt8}
    (hzero : 0 ∉ name) (hname : name.length ≤ 99) :
    call.shows (12 :: UInt8.ofNat name.length :: name) = some [.listed name] := by
  obtain ⟨hflag, hlen, hslice⟩ := Client.received_sender 12 name [] call.buf hname
  rw [List.append_nil] at hflag hlen hslice
  have hcopied : store call.stack.tmpHandle 0 name =
      some (name ++ call.stack.tmpHandle.drop name.length) := by
    rw [store, if_pos (by rw [hsized.tmpHandle]; omega), overlay_zero]
  have hended := store_append name (call.stack.tmpHandle.drop name.length) [0]
    (by rw [List.length_drop, List.length_singleton, hsized.tmpHandle]; omega)
  have hprinted : Client.printString (name ++ [0] ++
      (call.stack.tmpHandle.drop name.length).drop [(0 : UInt8)].length) = some name := by
    rw [Client.printString_eq_some_iff, List.append_assoc, List.singleton_append]
    exact isString_append_zero hzero _
  unfold DisplayCall.shows dispatch
  rw [hflag]
  show (Client.printHandle _ _).map _ = _
  simp only [Client.printHandle, Client.copyTmpHandle, hlen, hslice, hcopied, hended, hprinted,
    Option.bind_eq_bind, Option.bind_some, Option.pure_def, Option.map_some]

private theorem shows_listEnd (call : DisplayCall) : call.shows [13] = some [.listEnd] := by
  have hflag : byteAt (received [13] call.buf) 2 = 13 := byteAt_received [13] call.buf 0 (by decide)
  unfold DisplayCall.shows dispatch
  rw [hflag]
  rfl

private theorem zipWith_shows {calls : List DisplayCall} {payloads : List (List UInt8)}
    {shown : List (Option (List Shown))} (hsized : ∀ call ∈ calls, call.Sized)
    (hcalls : calls.length = payloads.length)
    (h : List.Forall₂ (fun payload out => ∀ call : DisplayCall, call.Sized →
      call.shows payload = out) payloads shown) :
    List.zipWith DisplayCall.shows calls payloads = shown := by
  induction h generalizing calls with
  | nil => exact List.zipWith_nil_right
  | cons hout hrest ih =>
    cases calls with
    | nil => simp at hcalls
    | cons call calls =>
      obtain ⟨hcall, hsized⟩ := List.forall_mem_cons.mp hsized
      rw [List.zipWith_cons_cons, hout call hcall, ih hsized (by simpa using hcalls)]

/-- What a client shows for a listing. -/
def shownListing (entryCount : Nat) (names : List (List UInt8)) : List (Option (List Shown)) :=
  [some [.listStart entryCount]] ++ names.map (fun name => some [.listed name]) ++
    [some [.listEnd]]

private theorem payloadsTo_listSend {T : HandleTable} (hT : ∀ e ∈ T.entries, 0 ∈ e.handleName)
    (fd : Nat) : payloadsTo fd (listSend T fd) = [11 :: (toLE 4 T.entryCount).reverse] ++
      (listedNames T).map (fun name => 12 :: UInt8.ofNat name.length :: name) ++ [[13]] := by
  rw [payloadsTo, sends_listSend hT, listing, List.filterMap_append, List.filterMap_append,
    List.filterMap_map]
  simp

private theorem mem_listedNames {T : HandleTable} (hT : ∀ e ∈ T.entries, 0 ∈ e.handleName)
    {name : List UInt8} (h : name ∈ listedNames T) : 0 ∉ name ∧ name.length ≤ 99 := by
  obtain ⟨e, he, rfl⟩ := List.mem_map.mp h
  obtain ⟨e', he', -, memory, hget, hname⟩ := getHandle_entry hT he
  have hstring : IsString e'.handleName (cString e'.handleName) := ⟨hT e' he', rfl⟩
  have hlength := hstring.length_lt
  rw [e'.length_handleName] at hlength
  rw [hget, Option.getD_some, hname.2]
  exact ⟨zero_notMem_cString _, by omega⟩

private theorem shown_listSend {T : HandleTable} (hT : ∀ e ∈ T.entries, 0 ∈ e.handleName) {fd : Nat}
    {calls : List DisplayCall} (hsized : ∀ call ∈ calls, call.Sized)
    (hcalls : calls.length = T.entryCount + 2) :
    (processMsgs calls (bytesTo fd (listSend T fd))).map ServerMessage.shown =
      shownListing T.entryCount (listedNames T) := by
  have houtgoing : ∀ send ∈ sends (listSend T fd), Outgoing send.2.1 send.2.2 ∧ send.2.1 ≠ [] :=
    fun send hsend => outgoing_listSend hsend
  have hfits : ∀ payload ∈ payloadsTo fd (listSend T fd), Fits payload ∧ byteAt payload 0 ≠ 3 := by
    intro payload hpayload
    obtain ⟨send, hsend, -, rfl⟩ := mem_payloadsTo.mp hpayload
    obtain ⟨hsend, hne⟩ := houtgoing send hsend
    exact ⟨⟨List.length_pos_iff.mpr hne, hsend.fits⟩, hsend.flag_ne⟩
  have hlength : calls.length = (payloadsTo fd (listSend T fd)).length := by
    rw [hcalls, payloadsTo_listSend hT, List.length_append, List.length_append, List.length_map,
      listedNames, List.length_map, T.length_entries]
    simp only [List.length_singleton]
    omega
  have hshown := processMsgs_wire hlength hfits []
  rw [List.append_nil] at hshown
  rw [bytesTo_eq_wire fun send hsend => (houtgoing send hsend).1, hshown]
  refine zipWith_shows hsized hlength ?_
  rw [payloadsTo_listSend hT]
  refine List.rel_append (List.rel_append ?_ ?_) ?_
  · have hcount := Nat.lt_of_le_of_lt T.entryCount_le T.tableSize_lt
    exact .cons (fun call _ => shows_listStart call hcount) .nil
  · rw [List.forall₂_map_left_iff, List.forall₂_map_right_iff, List.forall₂_same]
    intro name hname call hcall
    obtain ⟨hzero, hshort⟩ := mem_listedNames hT hname
    exact shows_listed hcall hzero hshort
  · exact .cons (fun call _ => shows_listEnd call) .nil

/-- `getList`: the payload of its `sendPDU` call. -/
def getList : List UInt8 := [10]

def AsksForList (fd : Nat) : Action → Prop
  | .message clientSocket payload _ _ _ => clientSocket = fd ∧ payload = getList
  | _ => False

instance (fd : Nat) : (action : Action) → Decidable (AsksForList fd action)
  | .message _ _ _ _ _ => inferInstanceAs (Decidable (_ ∧ _))
  | .accept _ => inferInstanceAs (Decidable False)
  | .close _ _ _ _ => inferInstanceAs (Decidable False)

private theorem sends_asksForList {s s' : ServerState} {action : Action} {output : List Event}
    {fd : Nat} (h : serverStep s action = some (output, s')) (hasks : AsksForList fd action) :
    sends output = sends (listSend s.table fd) := by
  cases action with
  | message clientSocket payload dataBuffer uninit heap =>
    obtain ⟨rfl, rfl⟩ := hasks
    have hflag : byteAt (received getList dataBuffer) 2 = 10 :=
      byteAt_received [10] dataBuffer 0 (by decide)
    rw [(sends_step_message h).2.2, handleMessage, hflag]
    rfl
  | _ => exact hasks.elim

private theorem namesEnd_initial (heap : Heap) : NamesEnd (initialServer heap) := by
  intro e he
  simp [initialServer, createTable, HandleTable.entries] at he

/-- In every run with terminated names a client that asks for the list is shown the number of
entries and as many names. If every registration comes over a descriptor, and under a name, that has
no entry yet, they are the registered names, each once. -/
theorem list_shown (heap : Heap) (actions : List Action)
    (moments : List (Moment ServerState Action (List Event))) (last : ServerState)
    (hrun : run serverStep (initialServer heap) actions = some (moments, last))
    (hnames : ∀ m ∈ moments, NameEnds m.action) :
    ∀ m ∈ moments, ∀ fd, AsksForList fd m.action → ∀ calls : List DisplayCall,
      (∀ call ∈ calls, call.Sized) → calls.length = m.before.table.entryCount + 2 →
        (processMsgs calls (bytesTo fd m.output)).map ServerMessage.shown =
          shownListing m.before.table.entryCount (listedNames m.before.table) ∧
        ((∀ m ∈ moments, RegistersAfresh m.before m.action) →
          listedNames m.before.table = storedNames m.before.table ∧
            (storedNames m.before.table).Nodup) := by
  intro m hm fd hasks calls hsized hcalls
  obtain ⟨-, hmoments⟩ := run_invariant NamesEnd (fun _ action => NameEnds action) (fun _ => True)
    (fun _ _ _ _ hstep hends hname => ⟨(listAccurate_step hstep hends hname).1, trivial⟩)
    (namesEnd_initial heap) hrun hnames
  have hends := (hmoments m hm).1
  constructor
  · have hbytes : bytesTo fd m.output = bytesTo fd (listSend m.before.table fd) := by
      rw [bytesTo, bytesTo, sends_asksForList (run_moments hrun m hm) hasks]
    rw [hbytes, shown_listSend hends hsized hcalls]
  · intro hafresh
    obtain ⟨-, hmoments⟩ := run_invariant (fun s => NamesEnd s ∧ ListAccurate s.table)
      (fun s action => NameEnds action ∧ RegistersAfresh s action) (fun _ => True)
      (by
        intro s action output s' h hs hpermitted
        obtain ⟨hends, hstep⟩ := listAccurate_step h hs.1 hpermitted.1
        exact ⟨⟨hends, (hstep hs.2).mpr hpermitted.2⟩, trivial⟩)
      ⟨namesEnd_initial heap, listAccurate_initial heap⟩ hrun
      (fun m hm => ⟨hnames m hm, hafresh m hm⟩)
    obtain ⟨hsockets, hnodup⟩ := (listAccurate_iff hends).mp (hmoments m hm).1.2
    exact ⟨listedNames_of_nodup hends hsockets, hnodup⟩

/-- `a` and `b` register and `b` asks for the list. -/
def asksForList : List Action :=
  registerTwo ++ [.message 5 getList (List.replicate 1024 0) 0 dirtyHeap]

theorem list_shown_two :
    ∃ moments last, run serverStep (initialServer dirtyHeap) asksForList = some (moments, last) ∧
      ∃ m ∈ moments, (processMsgs (List.replicate 4 cleanCall) (bytesTo 5 m.output)).map
        ServerMessage.shown = shownListing 2 [[97], [98]] := by
  obtain ⟨moments, last, hrun, hnames, m, hm, hasks, hcount, hlisted⟩ := exists_run_of serverStep
    (initialServer dirtyHeap) asksForList
    (fun moments => (∀ m ∈ moments, NameEnds m.action) ∧
      ∃ m ∈ moments, AsksForList 5 m.action ∧ m.before.table.entryCount = 2 ∧
        listedNames m.before.table = [[97], [98]])
    (by decide +kernel)
  have hshown := (list_shown dirtyHeap asksForList moments last hrun hnames m hm 5 hasks
    (List.replicate 4 cleanCall)
    (fun call hcall => List.eq_of_mem_replicate hcall ▸ cleanCall_sized) (by rw [hcount]; rfl)).1
  rw [hcount, hlisted] at hshown
  exact ⟨moments, last, hrun, m, hm, hshown⟩

/-! ## A line of one client on the screen of another -/

/-- A line that a client types, with its own name: a command and the text behind it. -/
structure TypedLine where
  command : Command
  sender : List UInt8
  text : List UInt8
  wellFormed : command.WellFormed
  senderFits : 1 ≤ sender.length ∧ sender.length ≤ 99
  senderName : 0 ∉ sender
  headerFits : (command.header sender).length ≤ 198
  lineFits : (command.line text).length ≤ 1022
  oneLine : 10 ∉ command.line text
  textEnds : 0 ∉ text

namespace TypedLine

def header (l : TypedLine) : List UInt8 := l.command.header l.sender

/-- How often a message of the line goes to a descriptor: once for every recipient that the table
has there. -/
def copies (l : TypedLine) (T : HandleTable) (fd : Nat) : Nat :=
  l.command.handles.countP fun h => (T.socketOf h).toNat = fd

/-- Every recipient of the line has registered. -/
def Known (l : TypedLine) (T : HandleTable) : Prop := ∀ h ∈ l.command.handles, T.socketOf h ≠ 0

instance (l : TypedLine) (T : HandleTable) : Decidable (l.Known T) :=
  inferInstanceAs (Decidable (∀ _ ∈ _, _))

end TypedLine

private theorem flatten_map_cString {pieces : List (List UInt8)} {text : List UInt8}
    (hzero : 0 ∉ text) (h : pieces.flatten = text ++ [0]) :
    (pieces.map cString).flatten = text := by
  induction pieces generalizing text with
  | nil => simp at h
  | cons piece pieces ih =>
    rw [List.flatten_cons] at h
    rw [List.map_cons, List.flatten_cons]
    rcases List.eq_nil_or_concat pieces.flatten with hnil | ⟨front, b, hfront⟩
    · rw [hnil, List.append_nil] at h
      have hrest : (pieces.map cString).flatten = [] := by
        simp only [List.flatten_eq_nil_iff, List.mem_map, forall_exists_index, and_imp,
          forall_apply_eq_imp_iff₂] at hnil ⊢
        intro piece hpiece
        rw [hnil piece hpiece]
        rfl
      rw [h, hrest, cString_append_zero hzero, List.append_nil]
    · rw [List.concat_eq_append] at hfront
      rw [hfront, ← List.append_assoc] at h
      obtain ⟨rfl, hb⟩ := List.append_inj' h rfl
      rw [List.mem_append, not_or] at hzero
      rw [cString_of_notMem hzero.1, ih hzero.2 (by rw [hfront, hb])]

private theorem TypedLine.encoded (l : TypedLine) (inputBuffer input buf : List UInt8)
    (hbuf : buf.length = 200) :
    ∃ (read : Client.StdinRead) (pieces : List (List UInt8)),
      Client.readFromStdin inputBuffer (l.command.line l.text ++ 10 :: input) = some read ∧
      Client.processStdin read.buffer = .messageSend l.command.mode ∧
      Client.messageSend l.sender (UInt16.ofNat read.bufferIndex) read.buffer l.command.mode buf =
        some (pieces.map (l.header ++ ·)) ∧
      (pieces.map cString).flatten = l.text ∧
      ∀ piece ∈ pieces, (l.header ++ piece).length ≤ 199 := by
  obtain ⟨read, hread, hindex, hbuffer, -⟩ :=
    Client.readFromStdin_line inputBuffer l.oneLine input
  have hfits := l.lineFits
  have hline : l.command.line (l.text ++ [0]) = l.command.line l.text ++ [0] := by
    simp only [Command.line, List.append_assoc]
  have hlength : (l.command.line (l.text ++ [0])).length = (l.command.line l.text).length + 1 := by
    rw [hline, List.length_append, List.length_singleton]
  rw [Nat.min_eq_left (by omega), ← hlength] at hindex
  have hwhole : (l.command.line l.text).take 1023 = l.command.line l.text :=
    List.take_of_length_le (by omega)
  rw [hwhole, ← hline] at hbuffer
  obtain ⟨behind, hbehind⟩ : ∃ behind, read.buffer = l.command.line (l.text ++ [0]) ++ behind :=
    ⟨_, by rw [← hbuffer, List.take_append_drop]⟩
  obtain ⟨pieces, hsend, hpieces, hfit⟩ := Client.messageSend_command l.command l.wellFormed
    l.sender (l.text ++ [0]) behind buf l.headerFits (by omega) hbuf
  refine ⟨read, pieces, hread, ?_, ?_, flatten_map_cString l.textEnds hpieces, hfit⟩
  · rw [hbehind]
    cases l.command <;> rfl
  · rw [hindex, hbehind]
    exact hsend

private theorem filterMap_recipients {α β : Type} (xs : List α) (p : α → Prop) [DecidablePred p]
    (b : β) : xs.filterMap (fun x => if p x then some b else none) =
      List.replicate (xs.countP fun x => p x) b := by
  induction xs with
  | nil => rfl
  | cons x xs ih =>
    by_cases hx : p x
    · simp [hx, ih, List.replicate_succ]
    · simp [hx, ih]

private theorem TypedLine.routed (l : TypedLine) {s s' : ServerState} {clientSocket uninit : Nat}
    {piece dataBuffer : List UInt8} {heap : Heap} {output : List Event}
    (h : serverStep s (.message clientSocket (l.header ++ piece) dataBuffer uninit heap) =
      some (output, s')) (fd : Nat) :
    payloadsTo fd output = List.replicate (l.copies s.table fd) (l.header ++ piece) := by
  have hflag := received_flag l.command.flag l.sender piece dataBuffer l.command.handles
  have hmessage : byteAt (received (l.header ++ piece) dataBuffer) 2 = 5 ∨
      byteAt (received (l.header ++ piece) dataBuffer) 2 = 6 := by
    cases hcommand : l.command with
    | message handle =>
      rw [hcommand] at hflag
      left
      rwa [TypedLine.header, hcommand]
    | multicast handles =>
      rw [hcommand] at hflag
      right
      rwa [TypedLine.header, hcommand]
  obtain ⟨-, hsends⟩ := messageSend_received l.command.flag l.sender piece dataBuffer
    l.command.handles l.headerFits s.table l.senderFits.2 l.wellFormed.short l.wellFormed.noZero
  obtain ⟨-, -, houtput⟩ := sends_step_message h
  rw [handleMessage_message hmessage] at houtput
  rw [payloadsTo, houtput]
  change sends (messageSend s.table (received (l.header ++ piece) dataBuffer)
    (l.header ++ piece).length) = _ at hsends
  rw [hsends, List.filterMap_map]
  exact filterMap_recipients _ _ _

theorem TypedLine.shown (l : TypedLine) {call : DisplayCall} (hsized : call.Sized)
    {piece : List UInt8} (hfit : (l.header ++ piece).length ≤ 200)
    (hname : Client.NameEnds call.stack l.sender)
    (htext : TextEnds (l.header ++ piece) piece call.buf) :
    call.shows (l.header ++ piece) = some [.message l.sender (cString piece)] := by
  have hheader := l.headerFits
  have hpayload : l.header ++ piece = l.command.flag :: UInt8.ofNat l.sender.length :: l.sender ++
      (UInt8.ofNat l.command.handles.length ::
        Client.encodeHandles l.command.handles ++ piece) := by
    simp [TypedLine.header, Command.header, Client.messageHeader]
  obtain ⟨hflag, hlen, hslice⟩ := Client.received_sender l.command.flag l.sender
    (UInt8.ofNat l.command.handles.length :: Client.encodeHandles l.command.handles ++ piece)
    call.buf l.senderFits.2
  rw [← hpayload] at hflag hlen hslice
  have hmessage : byteAt (received (l.header ++ piece) call.buf) 2 = 5 ∨
      byteAt (received (l.header ++ piece) call.buf) 2 = 6 := by
    rw [hflag]
    cases l.command with
    | message handle => exact .inl rfl
    | multicast handles => exact .inr rfl
  have hreader : (Client.multicast (received (l.header ++ piece) call.buf)).readerLocation =
      2 + l.header.length :=
    multicast_received l.command.flag l.sender piece call.buf l.command.handles
      (by unfold Command.header at hheader; omega)
  have hstring := ((Client.isString_received_iff l.header piece hsized.buf hfit).2
    (by simp [TypedLine.header, Command.header, Client.messageHeader])).mpr htext
  rw [DisplayCall.shows, Client.dispatch_message hmessage, (Client.printMulticast_eq_some_iff hlen
    hslice l.senderName hsized.senderHandle l.senderFits.2 (cString piece)).mpr
    ⟨hname, by rwa [hreader]⟩]
  rfl

/-! ## Runs -/

/-- The connection whose message a moment handles. -/
def authorOf (m : Moment ServerState Action (List Event)) : Option Nat :=
  match m.action with
  | .message clientSocket _ _ _ _ => m.before.connections clientSocket
  | _ => none

/-- What a run sends to a descriptor, each payload behind the connection whose message it
answers. -/
def inbox (fd : Nat) (moments : List (Moment ServerState Action (List Event))) :
    List (Option Nat × List UInt8) :=
  moments.flatMap fun m => (payloadsTo fd m.output).map fun payload => (authorOf m, payload)

def ofConnection {α : Type} (c : Nat) (xs : List (Option Nat × α)) : List α :=
  xs.filterMap fun x => if x.1 = some c then some x.2 else none

private theorem map_snd_inbox (fd : Nat) (moments : List (Moment ServerState Action (List Event))) :
    (inbox fd moments).map Prod.snd = sentTo fd moments := by
  rw [inbox, sentTo, List.map_flatMap]
  apply List.flatMap_congr
  intro m _
  rw [List.map_map]
  exact List.map_id' _

private theorem serverStep_entries {s s' : ServerState} {action : Action} {output : List Event}
    (h : serverStep s action = some (output, s')) : s.table.entries <+: s'.table.entries := by
  cases action with
  | accept clientSocket =>
    obtain ⟨-, -, rfl⟩ := serverStep_accept h
    exact List.prefix_rfl
  | close clientSocket dataBuffer uninit heap =>
    obtain ⟨-, rfl⟩ := serverStep_close h
    exact List.prefix_rfl
  | message clientSocket payload dataBuffer uninit heap =>
    rcases serverStep_message_cases h with ⟨-, rfl⟩ | ⟨-, -, -, connection, hsize, -, hentries, -⟩
    · exact List.prefix_rfl
    · rw [hentries]
      exact List.prefix_append _ _

private theorem socketOf_extended {T T' : HandleTable} (h : T.entries <+: T'.entries)
    {name : List UInt8} (hname : T.socketOf name ≠ 0) : T'.socketOf name = T.socketOf name := by
  obtain ⟨rest, hrest⟩ := h
  unfold HandleTable.socketOf firstSocket at hname ⊢
  rw [← hrest, List.find?_append]
  cases hfind : T.entries.find? fun e => decide (IsString e.handleName name) with
  | none => simp [hfind] at hname
  | some e => rfl

private theorem TypedLine.copies_extended (l : TypedLine) {T T' : HandleTable}
    (h : T.entries <+: T'.entries) (hknown : l.Known T) (fd : Nat) :
    l.copies T' fd = l.copies T fd := by
  apply List.countP_congr
  intro name hmem
  rw [socketOf_extended h (hknown name hmem)]

theorem TypedLine.moment (l : TypedLine) {m : Moment ServerState Action (List Event)} {c : Nat}
    (hstep : serverStep m.before m.action = some (m.output, m.after))
    (hline : ∀ payload ∈ takenFrom c m, ∃ piece, payload = l.header ++ piece) (fd : Nat) :
    ofConnection c ((payloadsTo fd m.output).map fun payload => (authorOf m, payload)) =
      (takenFrom c m).toList.flatMap (List.replicate (l.copies m.before.table fd)) := by
  have hother (h : authorOf m ≠ some c) : ofConnection c
      ((payloadsTo fd m.output).map fun payload => (authorOf m, payload)) = [] := by
    rw [ofConnection, List.filterMap_map, List.filterMap_eq_nil_iff]
    intro payload _
    exact if_neg h
  cases haction : m.action with
  | message clientSocket payload dataBuffer uninit heap =>
    by_cases hauthor : m.before.connections clientSocket = some c
    · have htaken : takenFrom c m = some payload := by
        simp only [takenFrom, haction, if_pos hauthor]
      have hsame : authorOf m = some c := by
        simp only [authorOf, haction, hauthor]
      obtain ⟨piece, rfl⟩ := hline payload htaken
      rw [haction] at hstep
      rw [htaken, hsame, ofConnection, List.filterMap_map, l.routed hstep fd]
      simp
    · have htaken : takenFrom c m = none := by
        simp only [takenFrom, haction, if_neg hauthor]
      rw [htaken, hother]
      · rfl
      · simpa only [authorOf, haction] using hauthor
  | accept clientSocket =>
    rw [hother (by simp [authorOf, haction])]
    simp [takenFrom, haction]
  | close clientSocket dataBuffer uninit heap =>
    rw [hother (by simp [authorOf, haction])]
    simp [takenFrom, haction]

/-- What the moments of a run send for a connection are its messages in order. -/
theorem TypedLine.sent (l : TypedLine) {s last : ServerState} {actions : List Action}
    {moments : List (Moment ServerState Action (List Event))}
    (hrun : run serverStep s actions = some (moments, last)) (hknown : l.Known s.table) {c : Nat}
    (hline : ∀ payload ∈ handledOn c moments, ∃ piece, payload = l.header ++ piece) (fd : Nat) :
    ofConnection c (inbox fd moments) =
      (handledOn c moments).flatMap (List.replicate (l.copies s.table fd)) := by
  obtain ⟨-, hmoments⟩ := run_invariant (fun t => s.table.entries <+: t.table.entries)
    (fun _ _ => True) (fun _ => True)
    (fun _ _ _ _ hstep hfront _ => ⟨hfront.trans (serverStep_entries hstep), trivial⟩)
    List.prefix_rfl hrun (fun _ _ => trivial)
  have hsteps := run_moments hrun
  clear hrun
  unfold inbox handledOn ofConnection at *
  induction moments with
  | nil => rfl
  | cons m moments ih =>
    obtain ⟨⟨hfront, -⟩, hrest⟩ := List.forall_mem_cons.mp hmoments
    obtain ⟨hstep, hsteps⟩ := List.forall_mem_cons.mp hsteps
    have htaken : ∀ payload ∈ takenFrom c m, ∃ piece, payload = l.header ++ piece := by
      intro payload hpayload
      exact hline payload (List.mem_filterMap.mpr ⟨m, List.mem_cons_self, hpayload⟩)
    have hmoment := l.moment hstep htaken fd
    rw [l.copies_extended hfront hknown] at hmoment
    have hbehind : ∀ payload ∈ moments.filterMap (takenFrom c),
        ∃ piece, payload = l.header ++ piece := by
      intro payload hpayload
      obtain ⟨m', hm', htaken⟩ := List.mem_filterMap.mp hpayload
      exact hline payload (List.mem_filterMap.mpr ⟨m', List.mem_cons_of_mem _ hm', htaken⟩)
    rw [List.flatMap_cons, List.filterMap_append, ih hbehind hrest hsteps]
    unfold ofConnection at hmoment
    rw [hmoment]
    cases hmessage : takenFrom c m with
    | none => rw [List.filterMap_cons_none hmessage]; rfl
    | some payload => rw [List.filterMap_cons_some hmessage, List.flatMap_cons]; simp

/-- Where the locals of a call end the name and the text of a PDU of the line. -/
def TypedLine.EndsIn (l : TypedLine) (payload : List UInt8) (call : DisplayCall) : Prop :=
  Client.NameEnds call.stack l.sender ∧
    TextEnds payload (payload.drop l.header.length) call.buf

instance (l : TypedLine) (payload : List UInt8) (call : DisplayCall) :
    Decidable (l.EndsIn payload call) := inferInstanceAs (Decidable ((_ ∧ _) ∧ (_ ∨ _)))

private theorem ofConnection_zip (shown : List UInt8 → Option (List Shown)) {c : Nat}
    {xs : List (Option Nat × List UInt8)} {calls : List DisplayCall}
    (hcalls : calls.length = xs.length)
    (h : ∀ x ∈ xs.zip calls, x.1.1 = some c → x.2.shows x.1.2 = shown x.1.2) :
    ofConnection c ((xs.map Prod.fst).zip (List.zipWith DisplayCall.shows calls
      (xs.map Prod.snd))) = (ofConnection c xs).map shown := by
  unfold ofConnection
  induction xs generalizing calls with
  | nil => rfl
  | cons x xs ih =>
    cases calls with
    | nil => simp at hcalls
    | cons call calls =>
      rw [List.zip_cons_cons, List.forall_mem_cons] at h
      have hrest := ih (by simpa using hcalls) h.2
      simp only [List.map_cons, List.zipWith_cons_cons, List.zip_cons_cons, List.filterMap_cons]
      by_cases hauthor : x.1 = some c
      · simp only [if_pos hauthor, List.map_cons, hrest, h.1 hauthor]
      · simp only [if_neg hauthor, hrest]

/-- `%M a hi` of the client `b`. -/
def hiLine : TypedLine where
  command := .message [97]
  sender := [98]
  text := [104, 105]
  wellFormed := ⟨by decide, by decide, by decide, by decide, by decide⟩
  senderFits := by decide
  senderName := by decide
  headerFits := by decide
  lineFits := by decide
  oneLine := by decide
  textEnds := by decide

/-- `a` and `b` are connected. -/
def bothConnected : ServerState where
  table := twoClients
  accepted := 2
  connections := Function.update (Function.update (fun _ => none) 4 (some 0)) 5 (some 1)
  registrations := []

/-- `b` writes to `a` while `a` asks for the list. -/
def writesHi : List Action :=
  [.message 4 getList (List.replicate 1024 0) 0 cleanHeap,
    .message 5 [5, 1, 98, 1, 1, 97, 104, 105, 0] (List.replicate 1024 0) 0 cleanHeap]

end Cpe464.Chat
