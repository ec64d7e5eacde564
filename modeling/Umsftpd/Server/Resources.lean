import Umsftpd.Server
import Umsftpd.Session.Gating
import Umsftpd.Systems.Ledgers

/-!
# Resources of the server

What the server holds while it accepts and serves connections: of every connection the session and
the event are used between their creation and their release, and nowhere else; channels, SFTP
sessions and messages are used by the connection that they are of, and no call releases them.
-/

namespace Umsftpd

open CLib Systems

/-! ## Resources -/

inductive ServerResource where
  | sshbind (p : Pointer)
  | session (p : Pointer)
  | event (p : Pointer)
  | channel (p : Pointer)
  | sftp (p : Pointer)
  | message (p : Pointer)
  deriving DecidableEq

/-- What a session is given by the library and does not give back. -/
def ServerResource.isGiven : ServerResource → Bool
  | channel _ | sftp _ | message _ => true
  | _ => false

def SessionCall.gives : SessionCall → Option ServerResource
  | channelNew _ (some channel) => some (.channel channel)
  | sftpServerNew _ _ (some sftp) => some (.sftp sftp)
  | getClientMessage _ (some message) => some (.message message.address)
  | _ => none

/-- What a call creates or releases. -/
def serverEntry : ServerCall → Option (Entry ServerResource)
  | .bindNew (some sshbind) => some (.acquire (.sshbind sshbind))
  | .new (some session) => some (.acquire (.session session))
  | .eventNew (some event) => some (.acquire (.event event))
  | .session call => call.gives.map .acquire
  | .eventFree event => some (.release (.event event))
  | .free session => some (.release (.session session))
  | _ => none

def SftpClientMessage.resources (message : SftpClientMessage) : List ServerResource :=
  .message message.address :: message.sftp.toList.map .sftp

/-- What a call in a session is handed. -/
def SessionCall.uses : SessionCall → List ServerResource
  | setAuthMethods session | setServerCallbacks session | handleKeyExchange session _
  | getError session | channelNew session _ => session.toList.map .session
  | eventAddSession event session => event.toList.map .event ++ session.toList.map .session
  | eventDopoll event _ _ => event.toList.map .event
  | setChannelCallbacks channel | channelClose channel | channelIsOpen channel _ =>
    channel.toList.map .channel
  | sftpServerNew session channel _ =>
    session.toList.map .session ++ channel.toList.map .channel
  | sftpServerInit sftp _ | getClientMessage sftp _ | sftpHandle sftp _ => sftp.toList.map .sftp
  | processClientMessage _ message | replyName message _ | replyStatus message _ _
  | replyAttr message _ => message.resources

/-- What a call is handed. -/
def ServerCall.uses : ServerCall → List ServerResource
  | .bindOptionsSetPort b _ | .bindOptionsSetHostKey b _ | .bindListen b _ | .getError b =>
    [.sshbind b]
  | .bindAccept b s _ => [.sshbind b, .session s]
  | .session call => call.uses
  | .eventFree e => [.event e]
  | .disconnect s | .free s => [.session s]
  | _ => []

/-- A message has the SFTP session that was asked for it. -/
def SessionCall.Own : SessionCall → Prop
  | getClientMessage sftp (some message) => message.sftp = sftp
  | _ => True

def ServerCall.Own : ServerCall → Prop
  | .session call => call.Own
  | _ => True

/-! ## Messages -/

/-- The message that a call hands over to be processed. -/
def SessionCall.processes : SessionCall → Option SftpClientMessage
  | processClientMessage _ message => some message
  | _ => none

/-- The message that a call answers. -/
def SessionCall.answers : SessionCall → Option SftpClientMessage
  | replyName message _ | replyStatus message _ _ | replyAttr message _ => some message
  | _ => none

/-- Requests that are not implemented are not answered. -/
def SftpClientMessage.isAnswered (message : SftpClientMessage) : Bool :=
  message.type != SSH_FXP_OPENDIR && message.type != SSH_FXP_READDIR

/-- What the calls answer of what they process. -/
def Answers (calls : List SessionCall) : Prop :=
  calls.filterMap SessionCall.answers =
    (calls.filterMap SessionCall.processes).filter SftpClientMessage.isAnswered

theorem Answers.append {calls more : List SessionCall} (h : Answers calls) (h' : Answers more) :
    Answers (calls ++ more) := by
  unfold Answers at h h' ⊢
  rw [List.filterMap_append, List.filterMap_append, List.filter_append, h, h']

/-- Calls that neither process nor answer a message. -/
theorem answers_of_none {calls : List SessionCall}
    (h : ∀ call ∈ calls, call.processes = none ∧ call.answers = none) : Answers calls := by
  unfold Answers
  rw [List.filterMap_eq_nil_iff.mpr fun call hcall => (h call hcall).1,
    List.filterMap_eq_nil_iff.mpr fun call hcall => (h call hcall).2]
  rfl

theorem isAnswered_eq_false {message : SftpClientMessage} :
    message.isAnswered = false ↔
      message.type = SSH_FXP_OPENDIR ∨ message.type = SSH_FXP_READDIR := by
  unfold SftpClientMessage.isAnswered
  rw [Bool.and_eq_false_iff, bne_eq_false_iff_eq, bne_eq_false_iff_eq]

theorem processClientMessage_unanswered (handle : SshHandle) {message : SftpClientMessage}
    (h : message.isAnswered = false) : processClientMessage handle message = [] := by
  unfold processClientMessage
  rcases isAnswered_eq_false.mp h with htype | htype
  · rw [htype]
    rfl
  · rw [htype]
    rfl

/-- There is one reply, and no other call has to do with messages. -/
theorem processClientMessage_answered (handle : SshHandle) {message : SftpClientMessage}
    (h : message.isAnswered = true) :
    (processClientMessage handle message).filterMap SessionCall.answers = [message] := by
  have hno : ¬(message.type = SSH_FXP_OPENDIR ∨ message.type = SSH_FXP_READDIR) := by
    rw [← isAnswered_eq_false, h]
    simp
  rw [not_or] at hno
  unfold processClientMessage
  rw [if_neg hno.1, if_neg hno.2]
  split
  · rfl
  split
  · rfl
  split
  · rfl
  · rfl

/-- What a call is made with while a message is processed. -/
structure SessionCall.OfMessage (message : SftpClientMessage) (call : SessionCall) : Prop where
  gives : call.gives = none
  processes : call.processes = none
  uses : ∀ r ∈ call.uses, r ∈ message.resources

theorem processClientMessage_calls (handle : SshHandle) (message : SftpClientMessage) :
    ∀ call ∈ processClientMessage handle message, call.OfMessage message := by
  have hreply : ∀ call : SessionCall, call.gives = none → call.processes = none →
      call.uses = message.resources → ∀ c ∈ [call], c.OfMessage message := by
    intro call hgives hprocesses huses
    rw [List.forall_mem_singleton]
    exact ⟨hgives, hprocesses, fun r hr => huses ▸ hr⟩
  unfold processClientMessage
  split
  · exact hreply _ rfl rfl rfl
  split
  · simp
  split
  · simp
  split
  · rw [List.forall_mem_cons]
    exact ⟨⟨rfl, rfl, fun r hr => List.mem_cons_of_mem _ hr⟩, hreply _ rfl rfl rfl⟩
  split
  · exact hreply _ rfl rfl rfl
  · exact hreply _ rfl rfl rfl

theorem processClientMessage_answers (handle : SshHandle) (message : SftpClientMessage) :
    Answers (.processClientMessage handle message :: processClientMessage handle message) := by
  unfold Answers
  have hnone : (processClientMessage handle message).filterMap SessionCall.processes = [] :=
    List.filterMap_eq_nil_iff.mpr fun call hcall =>
      (processClientMessage_calls handle message call hcall).processes
  simp only [List.filterMap_cons, SessionCall.answers, SessionCall.processes, hnone]
  cases hanswered : message.isAnswered with
  | false =>
    rw [processClientMessage_unanswered handle hanswered]
    simp [hanswered]
  | true =>
    rw [processClientMessage_answered handle hanswered]
    simp [hanswered]

/-! ## The steps of a session -/

/-- What stays as it is in a handle. -/
structure SshHandle.Same (handle handle' : SshHandle) : Prop where
  hid : handle'.hid = handle.hid
  event : handle'.event = handle.event
  session : handle'.session = handle.session

/-- What a session was given. -/
def SshHandle.given (handle : SshHandle) : List ServerResource :=
  handle.channel.toList.map .channel ++ handle.sftp.toList.map .sftp

def SshHandle.resources (handle : SshHandle) : List ServerResource :=
  handle.session.toList.map .session ++ handle.event.toList.map .event ++ handle.given

/-- The handle is that of the same connection; the calls use nothing else but what they are given,
and process and answer the messages of this connection. -/
structure Stays (handle : SshHandle) (calls : List SessionCall) (handle' : SshHandle) : Prop where
  same : handle.Same handle'
  given : ∀ r ∈ handle'.given, r ∈ handle.given ∨ r ∈ calls.filterMap SessionCall.gives
  uses : (∀ call ∈ calls, call.Own) →
    UsesOnly SessionCall.gives SessionCall.uses calls handle.resources
  processed : ∀ h message, SessionCall.processClientMessage h message ∈ calls → h = handle
  answers : Answers calls

/-- A call that has nothing to do with messages and gives nothing. -/
structure SessionCall.Silent (handle : SshHandle) (call : SessionCall) : Prop where
  processes : call.processes = none
  answers : call.answers = none
  gives : call.gives = none
  uses : ∀ r ∈ call.uses, r ∈ handle.resources

theorem SshHandle.Same.refl (handle : SshHandle) : handle.Same handle := ⟨rfl, rfl, rfl⟩

section Stays

variable {handle handle' : SshHandle} {calls : List SessionCall}

theorem mem_resources_session {r : ServerResource}
    (h : r ∈ handle.session.toList.map ServerResource.session) : r ∈ handle.resources :=
  List.mem_append_left _ (List.mem_append_left _ h)

theorem mem_resources_event {r : ServerResource}
    (h : r ∈ handle.event.toList.map ServerResource.event) : r ∈ handle.resources :=
  List.mem_append_left _ (List.mem_append_right _ h)

theorem mem_resources_channel {r : ServerResource}
    (h : r ∈ handle.channel.toList.map ServerResource.channel) : r ∈ handle.resources :=
  List.mem_append_right _ (List.mem_append_left _ h)

theorem mem_resources_sftp {r : ServerResource}
    (h : r ∈ handle.sftp.toList.map ServerResource.sftp) : r ∈ handle.resources :=
  List.mem_append_right _ (List.mem_append_right _ h)

theorem mem_given_of_resources {r : ServerResource} (h : r ∈ handle.resources)
    (hgiven : r.isGiven = true) : r ∈ handle.given := by
  rcases List.mem_append.mp h with h | h
  · rcases List.mem_append.mp h with h | h
    · obtain ⟨p, -, rfl⟩ := List.mem_map.mp h
      exact absurd hgiven (by simp [ServerResource.isGiven])
    · obtain ⟨p, -, rfl⟩ := List.mem_map.mp h
      exact absurd hgiven (by simp [ServerResource.isGiven])
  · exact h

theorem Stays.nil (hsame : handle.Same handle') (hgiven : handle'.given = handle.given) :
    Stays handle [] handle' where
  same := hsame
  given _ hr := .inl (hgiven ▸ hr)
  uses _ := trivial
  processed _ _ hmem := absurd hmem List.not_mem_nil
  answers := rfl

theorem Stays.refl (handle : SshHandle) : Stays handle [] handle := .nil (.refl handle) rfl

/-- A silent call comes first. -/
theorem Stays.cons (h : Stays handle calls handle') {call : SessionCall}
    (hcall : call.Silent handle) : Stays handle (call :: calls) handle' where
  same := h.same
  given := by
    rw [List.filterMap_cons_none hcall.gives]
    exact h.given
  uses hown := by
    refine ⟨hcall.uses, ?_⟩
    rw [hcall.gives]
    exact h.uses (List.forall_mem_cons.mp hown).2
  processed g message hmem := by
    rcases List.mem_cons.mp hmem with rfl | hmem
    · exact absurd hcall.processes (by simp [SessionCall.processes])
    · exact h.processed g message hmem
  answers := by
    have hone : Answers [call] :=
      answers_of_none (by simpa using ⟨hcall.processes, hcall.answers⟩)
    exact hone.append h.answers

/-- The library gives something, which is in the handle then. -/
theorem Stays.give {call : SessionCall} (hsame : handle.Same handle')
    (hgiven : ∀ r ∈ handle'.given, r ∈ handle.given ∨ call.gives = some r)
    (huses : ∀ r ∈ call.uses, r ∈ handle.resources) (hprocesses : call.processes = none)
    (hanswers : call.answers = none) : Stays handle [call] handle' where
  same := hsame
  given _ hr := (hgiven _ hr).imp_right fun heq =>
    List.mem_filterMap.mpr ⟨call, List.mem_singleton.mpr rfl, heq⟩
  uses _ := ⟨huses, trivial⟩
  processed h message hmem := by
    obtain rfl := List.mem_singleton.mp hmem
    exact absurd hprocesses (by simp [SessionCall.processes])
  answers := answers_of_none (by simpa using ⟨hprocesses, hanswers⟩)

end Stays

section Steps

variable (handle : SshHandle)

theorem authenticationLoop_stays :
    Stays handle (authenticationLoop handle).2 (authenticationLoop handle).1.handle := by
  unfold authenticationLoop
  split
  · exact .refl handle
  · have hloop : Stays handle (eventLoop handle).2 (eventLoop handle).1.handle := .refl handle
    exact hloop.cons ⟨rfl, rfl, rfl, fun _ => mem_resources_channel⟩

/-- What is only asked for the text of an error. -/
theorem getError_stays : Stays handle [.getError handle.session] handle :=
  (Stays.refl handle).cons ⟨rfl, rfl, rfl, fun _ => mem_resources_session⟩

theorem afterKeyExchange_stays (result : Int) :
    Stays handle (afterKeyExchange handle result).2
      (afterKeyExchange handle result).1.handle := by
  unfold afterKeyExchange
  split
  · exact (getError_stays handle).cons ⟨rfl, rfl, rfl, fun _ => mem_resources_session⟩
  · have hadded : Stays handle
        (.eventAddSession handle.event handle.session :: (authenticationLoop handle).2)
        (authenticationLoop handle).1.handle :=
      (authenticationLoop_stays handle).cons ⟨rfl, rfl, rfl, fun r hr =>
        (List.mem_append.mp hr).elim mem_resources_event mem_resources_session⟩
    exact hadded.cons ⟨rfl, rfl, rfl, fun _ => mem_resources_session⟩

theorem afterAuthenticationDopoll_stays (result : Int) :
    Stays handle (afterAuthenticationDopoll handle result).2
      (afterAuthenticationDopoll handle result).1.handle := by
  unfold afterAuthenticationDopoll
  split
  · exact (getError_stays handle).cons ⟨rfl, rfl, rfl, fun _ => mem_resources_event⟩
  · exact (authenticationLoop_stays handle).cons ⟨rfl, rfl, rfl, fun _ => mem_resources_event⟩

theorem afterEventLoopDopoll_stays (result : Int) :
    Stays handle (afterEventLoopDopoll handle result).2
      (afterEventLoopDopoll handle result).1.handle := by
  have hcalls : Stays handle (.eventDopoll handle.event (-1) result ::
      if result = SSH_ERROR then [.channelClose handle.channel] else []) handle := by
    refine Stays.cons ?_ ⟨rfl, rfl, rfl, fun _ => mem_resources_event⟩
    split
    · exact (Stays.refl handle).cons ⟨rfl, rfl, rfl, fun _ => mem_resources_channel⟩
    · exact .refl handle
  unfold afterEventLoopDopoll
  dsimp only
  split
  · exact hcalls
  · split
    · exact hcalls
    · exact hcalls

/-- The SFTP session in the handle is a new one. -/
theorem afterSftpServerNew_stays (result : Option Pointer) :
    Stays handle (afterSftpServerNew handle result).2
      (afterSftpServerNew handle result).1.handle := by
  have hcalls : Stays handle [.sftpServerNew handle.session handle.channel result]
      { handle with sftp := result } := by
    refine .give ⟨rfl, rfl, rfl⟩ (fun r hr => ?_) (fun r hr => ?_) rfl rfl
    · rcases List.mem_append.mp hr with hr | hr
      · exact .inl (List.mem_append_left _ hr)
      · obtain ⟨p, hp, rfl⟩ := List.mem_map.mp hr
        obtain rfl : result = some p := Option.mem_toList.mp hp
        exact .inr rfl
    · exact (List.mem_append.mp hr).elim mem_resources_session mem_resources_channel
  unfold afterSftpServerNew
  dsimp only
  split
  · exact hcalls
  · exact hcalls

theorem afterSftpServerInit_stays (result : Int) :
    Stays handle (afterSftpServerInit handle result).2
      (afterSftpServerInit handle result).1.handle := by
  have hcalls : Stays handle [.sftpServerInit handle.sftp result] handle :=
    (Stays.refl handle).cons ⟨rfl, rfl, rfl, fun _ => mem_resources_sftp⟩
  unfold afterSftpServerInit
  dsimp only
  split
  · exact hcalls
  · exact hcalls

/-- A message is one of the SFTP session in the handle, and it is there from then on. -/
theorem afterGetClientMessage_stays (msg : Option SftpClientMessage) :
    Stays handle (afterGetClientMessage handle msg).2
      (afterGetClientMessage handle msg).1.handle := by
  unfold afterGetClientMessage
  cases msg with
  | none => exact (getError_stays handle).cons ⟨rfl, rfl, rfl, fun _ => mem_resources_sftp⟩
  | some msg =>
    have hreplies := processClientMessage_calls handle msg
    refine ⟨.refl handle, fun r => .inl, fun hown => ?_, fun h message hmem => ?_, ?_⟩
    · obtain ⟨hsftp, -⟩ := List.forall_mem_cons.mp hown
      have hmessage : ∀ r ∈ msg.resources, r ∈ .message msg.address :: handle.resources := by
        intro r hr
        rcases List.mem_cons.mp hr with rfl | hr
        · exact List.mem_cons_self
        · rw [hsftp] at hr
          exact List.mem_cons_of_mem _ (mem_resources_sftp hr)
      refine ⟨fun _ => mem_resources_sftp, hmessage, ?_⟩
      exact .of_uses fun call hcall =>
        ⟨(hreplies call hcall).gives, fun r hr => hmessage r ((hreplies call hcall).uses r hr)⟩
    · simp only [List.mem_cons, reduceCtorEq, false_or] at hmem
      rcases hmem with heq | hmem
      · exact (SessionCall.processClientMessage.inj heq).1
      · exact absurd (hreplies _ hmem).processes (by simp [SessionCall.processes])
    · have hget : Answers [.getClientMessage handle.sftp (some msg)] := rfl
      exact hget.append (processClientMessage_answers handle msg)

theorem afterChannelIsOpen_stays (result : Int) :
    Stays handle (afterChannelIsOpen handle result).2
      (afterChannelIsOpen handle result).1.handle := by
  have hcalls : Stays handle [.channelIsOpen handle.channel result] handle :=
    (Stays.refl handle).cons ⟨rfl, rfl, rfl, fun _ => mem_resources_channel⟩
  unfold afterChannelIsOpen
  dsimp only
  split
  · exact hcalls
  · exact hcalls

theorem channelOpen_stays (new : Option Pointer) :
    Stays handle (channelOpen handle.session handle new).calls
      (channelOpen handle.session handle new).handle := by
  unfold channelOpen
  split
  · exact .refl handle
  · refine .give ⟨rfl, rfl, rfl⟩ (fun r hr => ?_) (fun _ => mem_resources_session) rfl rfl
    rcases List.mem_append.mp hr with hr | hr
    · obtain ⟨p, hp, rfl⟩ := List.mem_map.mp hr
      obtain rfl : new = some p := Option.mem_toList.mp hp
      exact .inr rfl
    · exact .inl (List.mem_append_right _ hr)

theorem subsystemRequest_stays (subsystem : CStr) :
    Stays handle (subsystemRequest handle subsystem).calls
      (subsystemRequest handle subsystem).handle := by
  unfold subsystemRequest
  split
  · exact .nil ⟨rfl, rfl, rfl⟩ rfl
  · exact .refl handle

end Steps

/-- Whatever the library answers and whenever it calls back. -/
theorem SessionStep.stays {st st' : SessionState} {calls : List SessionCall}
    (hstep : SessionStep st calls st') : Stays st.handle calls st'.handle := by
  cases hstep with
  | subsystemRequest hpoint handle subsystem => exact subsystemRequest_stays handle subsystem
  | authPassword hpoint handle user pass => exact .nil ⟨rfl, rfl, rfl⟩ rfl
  | channelOpen hpoint handle new => exact channelOpen_stays handle new
  | keyExchange handle result => exact afterKeyExchange_stays handle result
  | authenticationDopoll handle result => exact afterAuthenticationDopoll_stays handle result
  | eventLoopDopoll handle result => exact afterEventLoopDopoll_stays handle result
  | sftpServerNew handle result => exact afterSftpServerNew_stays handle result
  | sftpServerInit handle result => exact afterSftpServerInit_stays handle result
  | getClientMessage handle msg => exact afterGetClientMessage_stays handle msg
  | channelIsOpen handle result => exact afterChannelIsOpen_stays handle result

/-! ## The steps of the server -/

/-- The session that is served is that of the connection. -/
structure SessionState.Serves (st : SessionState) (hid : BitVec 32) (session event : Pointer) :
    Prop where
  inv : st.Inv
  hid : st.handle.hid = hid
  session : st.handle.session = some session
  event : st.handle.event = some event

theorem SessionState.Serves.start (hid : BitVec 32) (session event : Pointer) :
    (handleSession (.new hid (some event) (some session))).1.Serves hid session event :=
  ⟨(SessionHistory.start hid (some event) (some session)).inv, rfl, rfl, rfl⟩

theorem SessionState.Serves.step {st st' : SessionState} {calls : List SessionCall}
    {hid : BitVec 32} {session event : Pointer} (h : st.Serves hid session event)
    (hstep : SessionStep st calls st') : st'.Serves hid session event where
  inv := (hstep.effect h.inv).inv
  hid := hstep.stays.same.hid.trans h.hid
  session := hstep.stays.same.session.trans h.session
  event := hstep.stays.same.event.trans h.event

/-- What the server has to release, at a place where it waits and after it. -/
inductive ServerPoint.Has : ServerPoint → List ServerResource → Prop
  | init : Has .init []
  | bindNew : Has .bindNew []
  | bindListen (b : Pointer) : Has (.bindListen b) [.sshbind b]
  | new (b : Pointer) : Has (.new b) [.sshbind b]
  | eventNew (b s : Pointer) : Has (.eventNew b s) [.session s, .sshbind b]
  | bindAccept (b s e : Pointer) : Has (.bindAccept b s e) [.event e, .session s, .sshbind b]
  | serving (b s e : Pointer) (st : SessionState) :
      Has (.serving b s e st) [.event e, .session s, .sshbind b]
  | failed : Has (.returned false) []
  | noSession (b : Pointer) : Has (.returned true) [.sshbind b]
  | noEvent (b s : Pointer) : Has (.returned true) [.session s, .sshbind b]

/-- The session that is served, with what was given to it among all that was given. -/
def ServerState.Serves (s : ServerState) (given : List ServerResource) : Prop :=
  ∀ b session event st, s.point = .serving b session event st →
    st.Serves s.hid session event ∧ ∀ r ∈ st.handle.given, r ∈ given

/-- What is held: besides what is yet to be released, all that was given to a session. -/
structure ServerState.Holds (s : ServerState) (given held : List ServerResource) : Prop where
  has : ∃ kept, s.point.Has kept ∧ (kept ++ given).Perm held
  serves : s.Serves given

/-- What a call gives to a session. -/
def ServerCall.gives : ServerCall → Option ServerResource
  | .session call => call.gives
  | _ => none

/-- The calls lead from what is held to what is held then, and use nothing else. -/
def Leads (s : ServerState) (calls : List ServerCall) (t : ServerState) : Prop :=
  ∀ given held, s.Holds given held → ∃ held',
    Keeps serverEntry ServerCall.uses calls held held' ∧
      t.Holds (given ++ calls.filterMap ServerCall.gives) held'

/-- A step between places where no connection is served, or to one where it is just accepted. -/
theorem Leads.of_keeps {s t : ServerState} {calls : List ServerCall}
    {kept kept' : List ServerResource} (hhas : ∀ k, s.point.Has k → k = kept)
    (hkeeps : Keeps serverEntry ServerCall.uses calls kept kept')
    (hgives : calls.filterMap ServerCall.gives = []) (hhas' : t.point.Has kept')
    (hserves : ∀ given, t.Serves given) : Leads s calls t := by
  rintro given held ⟨⟨k, hk, hperm⟩, -⟩
  rw [hhas k hk] at hperm
  obtain ⟨held', hheld', hperm'⟩ := hkeeps.within hperm
  rw [hgives, List.append_nil]
  exact ⟨held', hheld', ⟨kept', hhas', hperm'⟩, hserves given⟩

section Steps

variable (hid : BitVec 32)

theorem afterInit_leads (result : Int) :
    Leads ⟨hid, .init⟩ (afterInit hid result).2 (afterInit hid result).1 := by
  have hkeeps : Keeps serverEntry ServerCall.uses [.init result] [] [] :=
    .single rfl (by simp [ServerCall.uses])
  have hhas : ∀ k, ServerPoint.Has .init k → k = [] := by
    rintro k ⟨⟩
    rfl
  unfold afterInit
  split
  · exact .of_keeps hhas hkeeps rfl .failed (by simp [ServerState.Serves])
  · exact .of_keeps hhas hkeeps rfl .bindNew (by simp [ServerState.Serves])

theorem afterBindNew_leads (sshbind : Option Pointer) :
    Leads ⟨hid, .bindNew⟩ (afterBindNew hid sshbind).2 (afterBindNew hid sshbind).1 := by
  have hhas : ∀ k, ServerPoint.Has .bindNew k → k = [] := by
    rintro k ⟨⟩
    rfl
  unfold afterBindNew
  cases sshbind with
  | none =>
    refine .of_keeps hhas ?_ rfl .failed (by simp [ServerState.Serves])
    exact .single rfl (by simp [ServerCall.uses])
  | some b =>
    refine .of_keeps hhas ?_ rfl (.bindListen b) (by simp [ServerState.Serves])
    refine .cons rfl (by simp [ServerCall.uses]) ?_
    refine .cons rfl (by simp [ServerCall.uses]) ?_
    exact .single rfl (by simp [ServerCall.uses])

theorem afterBindListen_leads (sshbind : Pointer) (result : Int) :
    Leads ⟨hid, .bindListen sshbind⟩ (afterBindListen hid sshbind result).2
      (afterBindListen hid sshbind result).1 := by
  have hhas : ∀ k, ServerPoint.Has (.bindListen sshbind) k → k = [.sshbind sshbind] := by
    rintro k ⟨⟩
    rfl
  unfold afterBindListen
  split
  · refine .of_keeps hhas ?_ rfl (.noSession sshbind) (by simp [ServerState.Serves])
    refine .cons rfl (by simp [ServerCall.uses]) ?_
    exact .single rfl (by simp [ServerCall.uses])
  · refine .of_keeps hhas ?_ rfl (.new sshbind) (by simp [ServerState.Serves])
    exact .single rfl (by simp [ServerCall.uses])

theorem afterNew_leads (sshbind : Pointer) (session : Option Pointer) :
    Leads ⟨hid, .new sshbind⟩ (afterNew hid sshbind session).2
      (afterNew hid sshbind session).1 := by
  have hhas : ∀ k, ServerPoint.Has (.new sshbind) k → k = [.sshbind sshbind] := by
    rintro k ⟨⟩
    rfl
  unfold afterNew
  cases session with
  | none =>
    refine .of_keeps hhas ?_ rfl (.noSession sshbind) (by simp [ServerState.Serves])
    exact .single rfl (by simp [ServerCall.uses])
  | some s =>
    refine .of_keeps hhas ?_ rfl (.eventNew sshbind s) (by simp [ServerState.Serves])
    exact .single rfl (by simp [ServerCall.uses])

theorem afterEventNew_leads (sshbind session : Pointer) (event : Option Pointer) :
    Leads ⟨hid, .eventNew sshbind session⟩ (afterEventNew hid sshbind session event).2
      (afterEventNew hid sshbind session event).1 := by
  have hhas : ∀ k, ServerPoint.Has (.eventNew sshbind session) k →
      k = [.session session, .sshbind sshbind] := by
    rintro k ⟨⟩
    rfl
  unfold afterEventNew
  cases event with
  | none =>
    refine .of_keeps hhas ?_ rfl (.noEvent sshbind session) (by simp [ServerState.Serves])
    exact .single rfl (by simp [ServerCall.uses])
  | some e =>
    refine .of_keeps hhas ?_ rfl (.bindAccept sshbind session e) (by simp [ServerState.Serves])
    exact .single rfl (by simp [ServerCall.uses])

/-- The end of a connection releases the event and then the session. -/
theorem closing_keeps (sshbind session event : Pointer) :
    Keeps serverEntry ServerCall.uses (closing hid sshbind session event).2
      [.event event, .session session, .sshbind sshbind] [.sshbind sshbind] := by
  have hfirst : settle serverEntry [.eventFree event]
      [.event event, .session session, .sshbind sshbind] =
        some [.session session, .sshbind sshbind] := by
    simp [settle, serverEntry]
  refine .cons hfirst (by simp [ServerCall.uses]) ?_
  refine .cons rfl (by simp [ServerCall.uses]) ?_
  refine .single ?_ (by simp [ServerCall.uses])
  simp [settle, serverEntry]

theorem afterBindAccept_leads (sshbind session event : Pointer) (result : Int) :
    Leads ⟨hid, .bindAccept sshbind session event⟩
      (afterBindAccept hid sshbind session event result).2
      (afterBindAccept hid sshbind session event result).1 := by
  have hhas : ∀ k, ServerPoint.Has (.bindAccept sshbind session event) k →
      k = [.event event, .session session, .sshbind sshbind] := by
    rintro k ⟨⟩
    rfl
  unfold afterBindAccept
  split
  · refine .of_keeps hhas ?_ rfl (.serving sshbind session event _) ?_
    · refine .cons rfl (by simp [ServerCall.uses]) (.cons rfl ?_ (.single rfl ?_))
      · simp [ServerCall.uses, SessionCall.uses, SshHandle.new]
      · simp [ServerCall.uses, SessionCall.uses, SshHandle.new]
    · rintro given b s e st ⟨⟩
      refine ⟨.start (hid + 1) session event, fun r hr => ?_⟩
      exact absurd hr List.not_mem_nil
  · refine .of_keeps hhas ?_ rfl (.new sshbind) (by simp [ServerState.Serves, closing])
    exact .cons rfl (by simp [ServerCall.uses]) (closing_keeps hid sshbind session event)

/-- What a session is given comes on top of what is held. -/
theorem serve_leads (sshbind session event : Pointer) {st st' : SessionState}
    {calls : List SessionCall} (hstep : SessionStep st calls st')
    (hown : ∀ call ∈ calls, call.Own) :
    Leads ⟨hid, .serving sshbind session event st⟩ (calls.map .session)
      ⟨hid, .serving sshbind session event st'⟩ := by
  rintro given held ⟨⟨kept, hkept, hperm⟩, hserves⟩
  obtain ⟨hserved, hgiven⟩ := hserves _ _ _ _ rfl
  obtain ⟨⟩ := hkept
  have hnew : (calls.map ServerCall.session).filterMap ServerCall.gives =
      calls.filterMap SessionCall.gives := List.filterMap_map
  rw [hnew]
  -- the resources of the handle are held
  have hheld : ∀ r ∈ st.handle.resources, r ∈ held := by
    intro r hr
    refine hperm.mem_iff.mp ?_
    unfold SshHandle.resources at hr
    rw [hserved.session, hserved.event] at hr
    rcases List.mem_append.mp hr with hr | hr
    · simp at hr
      rcases hr with rfl | rfl
      · simp
      · simp
    · exact List.mem_append_right _ (hgiven r hr)
  have huses : UsesOnly ServerCall.gives ServerCall.uses (calls.map .session) held :=
    UsesOnly.map (f := ServerCall.session) ((hstep.stays.uses hown).mono hheld)
  have hkeeps : Keeps serverEntry ServerCall.uses (calls.map .session) held
      (((calls.map ServerCall.session).filterMap ServerCall.gives).reverse ++ held) :=
    .of_acquires (by simp [serverEntry, ServerCall.gives]) huses
  rw [hnew] at hkeeps
  refine ⟨_, hkeeps, ⟨_, .serving sshbind session event st', ?_⟩, ?_⟩
  · rw [← List.append_assoc]
    refine (hperm.append_right _).trans ?_
    exact List.perm_append_comm.trans ((List.reverse_perm _).symm.append_right held)
  · rintro b s e st'' ⟨⟩
    refine ⟨hserved.step hstep, fun r hr => ?_⟩
    rcases hstep.stays.given r hr with hr | hr
    · exact List.mem_append_left _ (hgiven r hr)
    · exact List.mem_append_right _ hr

end Steps

theorem ServerStep.leads {s t : ServerState} {calls : List ServerCall}
    (hstep : ServerStep s calls t) (hown : ∀ call ∈ calls, call.Own) : Leads s calls t := by
  cases hstep with
  | init hid result => exact afterInit_leads hid result
  | bindNew hid sshbind => exact afterBindNew_leads hid sshbind
  | bindListen hid sshbind result => exact afterBindListen_leads hid sshbind result
  | new hid sshbind session => exact afterNew_leads hid sshbind session
  | eventNew hid sshbind session event => exact afterEventNew_leads hid sshbind session event
  | bindAccept hid sshbind session event result =>
    exact afterBindAccept_leads hid sshbind session event result
  | serve hid sshbind session event h =>
    exact serve_leads hid sshbind session event h (by simpa [ServerCall.Own] using hown)
  | served hid sshbind session event h =>
    refine .of_keeps ?_ (closing_keeps hid sshbind session event) rfl (.new sshbind)
      (by simp [ServerState.Serves, closing])
    rintro k ⟨⟩
    rfl

/-! ## Runs of the server -/

/-- What holds of the calls so far and the state. -/
def ServerHistory (calls : List ServerCall) (s : ServerState) : Prop :=
  ∃ held, Keeps serverEntry ServerCall.uses calls [] held ∧
    s.Holds (calls.filterMap ServerCall.gives) held

theorem ServerRun.history {calls : List ServerCall} {s : ServerState} (hrun : ServerRun calls s)
    (hown : ∀ call ∈ calls, call.Own) : ServerHistory calls s := by
  have hstart : ServerHistory [] ⟨0, .init⟩ :=
    ⟨[], .nil [], ⟨[], .init, .refl _⟩, by simp [ServerState.Serves]⟩
  show ServerHistory ([] ++ calls) s
  refine (hrun.restrict hown).preserves hstart ?_
  rintro calls more t u ⟨held, hkeeps, hholds⟩ ⟨hstep, hown⟩
  obtain ⟨held', hmore, hholds'⟩ := hstep.leads hown _ _ hholds
  rw [← List.filterMap_append] at hholds'
  exact ⟨held', hkeeps.append hmore, hholds'⟩

/-! ### Of one connection -/

def ServerCall.isFree : ServerCall → Bool
  | .free _ => true
  | _ => false

/-- The calls since a session was released. -/
def sinceFree (calls : List ServerCall) : List ServerCall :=
  (calls.reverse.takeWhile fun call => !call.isFree).reverse

theorem sinceFree_append {calls more : List ServerCall} (h : ∀ call ∈ more, call.isFree = false) :
    sinceFree (calls ++ more) = sinceFree calls ++ more := by
  unfold sinceFree
  rw [List.reverse_append, List.takeWhile_append_of_pos (by simpa using h), List.reverse_append,
    List.reverse_reverse]

/-- What a session was given it was given for this connection. -/
def ServerState.Gave (s : ServerState) (calls : List ServerCall) : Prop :=
  ∀ b session event st, s.point = .serving b session event st →
    ∀ r ∈ st.handle.given, r ∈ (sinceFree calls).filterMap ServerCall.gives

/-- A call uses nothing that was given to a session before. -/
def UsesGiven (calls : List ServerCall) (call : ServerCall) : Prop :=
  ∀ r ∈ call.uses, r.isGiven = true → r ∈ (sinceFree calls).filterMap ServerCall.gives

/-- No calls in a session. -/
theorem gave_quiet {t : ServerState} {before calls : List ServerCall}
    (hserves : ∀ b session event st, t.point = .serving b session event st →
      st.handle.given = [])
    (hcalls : ∀ call ∈ calls, ∀ r ∈ call.uses, r.isGiven = false) :
    t.Gave (before ++ calls) ∧
      ∀ i call, calls[i]? = some call → UsesGiven (before ++ calls.take i) call := by
  refine ⟨fun b session event st hst r hr => ?_, fun i call hi r hr hgiven => ?_⟩
  · rw [hserves b session event st hst] at hr
    exact absurd hr List.not_mem_nil
  · rw [hcalls call (List.mem_of_getElem? hi) r hr] at hgiven
    exact absurd hgiven (by decide)

/-- What a session uses is in its handle, or given to it right before. -/
theorem ServerState.Gave.serve {hid : BitVec 32} {sshbind session event : Pointer}
    {st st' : SessionState} {before : List ServerCall} {calls : List SessionCall}
    (h : ServerState.Gave ⟨hid, .serving sshbind session event st⟩ before)
    (hstep : SessionStep st calls st') (hown : ∀ call ∈ calls, call.Own) :
    ServerState.Gave ⟨hid, .serving sshbind session event st'⟩
        (before ++ calls.map ServerCall.session) ∧
      ∀ i call, (calls.map ServerCall.session)[i]? = some call →
        UsesGiven (before ++ (calls.map ServerCall.session).take i) call := by
  have hsince : ∀ some : List SessionCall,
      (sinceFree (before ++ some.map ServerCall.session)).filterMap ServerCall.gives =
        (sinceFree before).filterMap ServerCall.gives ++ some.filterMap SessionCall.gives := by
    intro some
    rw [sinceFree_append (by simp [ServerCall.isFree]), List.filterMap_append,
      List.filterMap_map]
    rfl
  constructor
  · rintro b s e st'' ⟨⟩ r hr
    rw [hsince]
    rcases hstep.stays.given r hr with hr | hr
    · exact List.mem_append_left _ (h _ _ _ _ rfl r hr)
    · exact List.mem_append_right _ hr
  · intro i call hi r hr hgiven
    rw [← List.map_take, hsince]
    obtain ⟨c, hc, rfl⟩ := Option.map_eq_some_iff.mp (List.getElem?_map ▸ hi)
    rcases (hstep.stays.uses hown).comes_from hc r hr with hr | hr
    · refine List.mem_append_left _ (h _ _ _ _ rfl r ?_)
      exact mem_given_of_resources hr hgiven
    · exact List.mem_append_right _ hr

theorem ServerStep.gave {s t : ServerState} {calls before : List ServerCall}
    (hstep : ServerStep s calls t) (hown : ∀ call ∈ calls, call.Own) (h : s.Gave before) :
    t.Gave (before ++ calls) ∧
      ∀ i call, calls[i]? = some call → UsesGiven (before ++ calls.take i) call := by
  cases hstep with
  | init hid result =>
    unfold afterInit
    split
    · exact gave_quiet (by simp) (by simp [ServerCall.uses])
    · exact gave_quiet (by simp) (by simp [ServerCall.uses])
  | bindNew hid sshbind =>
    cases sshbind with
    | none => exact gave_quiet (by simp [afterBindNew]) (by simp [afterBindNew, ServerCall.uses])
    | some b =>
      refine gave_quiet (by simp [afterBindNew]) ?_
      simp [afterBindNew, ServerCall.uses, ServerResource.isGiven]
  | bindListen hid sshbind result =>
    unfold afterBindListen
    split
    · exact gave_quiet (by simp) (by simp [ServerCall.uses, ServerResource.isGiven])
    · exact gave_quiet (by simp) (by simp [ServerCall.uses, ServerResource.isGiven])
  | new hid sshbind session =>
    cases session with
    | none => exact gave_quiet (by simp [afterNew]) (by simp [afterNew, ServerCall.uses])
    | some s => exact gave_quiet (by simp [afterNew]) (by simp [afterNew, ServerCall.uses])
  | eventNew hid sshbind session event =>
    cases event with
    | none => exact gave_quiet (by simp [afterEventNew]) (by simp [afterEventNew, ServerCall.uses])
    | some e =>
      exact gave_quiet (by simp [afterEventNew]) (by simp [afterEventNew, ServerCall.uses])
  | bindAccept hid sshbind session event result =>
    unfold afterBindAccept
    split
    · refine gave_quiet ?_ ?_
      · rintro b s e st ⟨⟩
        rfl
      · simp [handleSession, SshHandle.new, ServerCall.uses, SessionCall.uses,
          ServerResource.isGiven]
    · exact gave_quiet (by simp [closing])
        (by simp [closing, ServerCall.uses, ServerResource.isGiven])
  | serve hid sshbind session event hstep =>
    exact h.serve hstep (by simpa [ServerCall.Own] using hown)
  | served hid sshbind session event hreturned =>
    exact gave_quiet (by simp [closing])
      (by simp [closing, ServerCall.uses, ServerResource.isGiven])

/-! ### A run

One connection fails, of the next one a message is answered, and after that there is no further
session. -/

def testCalls : List ServerCall :=
  [.init 0, .bindNew (some 9), .bindOptionsSetPort 9 port, .bindOptionsSetHostKey 9 hostKey,
    .bindListen 9 0, .new (some 2), .eventNew (some 1), .bindAccept 9 2 SSH_ERROR, .eventFree 1,
    .disconnect 2, .free 2, .new (some 2), .eventNew (some 1), .bindAccept 9 2 SSH_OK,
    .session (.setAuthMethods (some 2)), .session (.setServerCallbacks (some 2)),
    .session (.channelNew (some 2) (some 3)), .session (.handleKeyExchange (some 2) SSH_OK),
    .session (.eventAddSession (some 1) (some 2)), .session (.setChannelCallbacks (some 3)),
    .session (.eventDopoll (some 1) (-1) SSH_OK),
    .session (.sftpServerNew (some 2) (some 3) (some 4)),
    .session (.sftpServerInit (some 4) 0), .session (.channelIsOpen (some 3) 1),
    .session (.eventDopoll (some 1) (-1) SSH_OK),
    .session (.getClientMessage (some 4) (some testMessage)),
    .session (.processClientMessage testHandle testMessage),
    .session (.replyName testMessage "/foo".toList), .session (.channelIsOpen (some 3) 0),
    .eventFree 1, .disconnect 2, .free 2, .new none]

theorem testCalls_run : ServerRun testCalls ⟨1, .returned true⟩ := by
  have hstart : ServerRun [] ⟨0, .init⟩ := .start
  have hfailed := hstart
    |>.step (.init 0 0)
    |>.step (.bindNew 0 (some 9))
    |>.step (.bindListen 0 9 0)
    |>.step (.new 0 9 (some 2))
    |>.step (.eventNew 0 9 2 (some 1))
    |>.step (.bindAccept 0 9 2 1 SSH_ERROR)
  have haccepted := hfailed
    |>.step (.new 0 9 (some 2))
    |>.step (.eventNew 0 9 2 (some 1))
    |>.step (.bindAccept 0 9 2 1 SSH_OK)
  have hserved := haccepted
    |>.step (.serve 1 9 2 1 (.authPassword rfl _ "user".toList "pass".toList))
    |>.step (.serve 1 9 2 1 (.channelOpen rfl _ (some 3)))
    |>.step (.serve 1 9 2 1 (.keyExchange _ SSH_OK))
    |>.step (.serve 1 9 2 1 (.subsystemRequest rfl _ "sftp".toList))
    |>.step (.serve 1 9 2 1 (.eventLoopDopoll _ SSH_OK))
    |>.step (.serve 1 9 2 1 (.sftpServerNew _ (some 4)))
    |>.step (.serve 1 9 2 1 (.sftpServerInit _ 0))
    |>.step (.serve 1 9 2 1 (.channelIsOpen _ 1))
    |>.step (.serve 1 9 2 1 (.eventLoopDopoll _ SSH_OK))
    |>.step (.serve 1 9 2 1 (.getClientMessage testHandle (some testMessage)))
    |>.step (.serve 1 9 2 1 (.channelIsOpen _ 0))
  exact hserved
    |>.step (.served 1 9 2 1 rfl)
    |>.step (.new 1 9 none)

/-- **What the server holds.** Whatever the clients and the library do: nothing is released that is
not held, and each call uses what is held then, of channels, SFTP sessions and messages only those
of its connection. At any time there are held the connection that is served or accepted, if any, and
besides all channels, SFTP sessions and messages there ever were. -/
theorem serverRun_resources {calls : List ServerCall} {s : ServerState}
    (hrun : ServerRun calls s) (hown : ∀ call ∈ calls, call.Own) :
    (∃ kept held, s.point.Has kept ∧ settle serverEntry calls [] = some held ∧
      (kept ++ calls.filterMap ServerCall.gives).Perm held) ∧
    ∀ i call, calls[i]? = some call → ∀ r ∈ call.uses,
      (∃ before, settle serverEntry (calls.take i) [] = some before ∧ r ∈ before) ∧
      (r.isGiven = true → r ∈ (sinceFree (calls.take i)).filterMap ServerCall.gives) := by
  obtain ⟨held, hkeeps, ⟨kept, hkept, hperm⟩, -⟩ := hrun.history hown
  have hstart : ServerState.Gave ⟨0, .init⟩ [] := by simp [ServerState.Gave]
  obtain ⟨-, hgiven⟩ := (hrun.restrict hown).along
    (J := fun calls s => s.Gave calls) (P := UsesGiven) hstart
    fun _ _ _ _ h hstep => hstep.1.gave hstep.2 h
  exact ⟨⟨kept, held, hkept, hkeeps.settles, hperm⟩, fun i call hi r hr =>
    ⟨hkeeps.uses_held i call hi r hr, hgiven i call hi r hr⟩⟩

theorem serverRun_resources_test : ∃ kept held,
    ServerPoint.Has (.returned true) kept ∧ settle serverEntry testCalls [] = some held ∧
      (kept ++ [ServerResource.channel 3, .sftp 4, .message 5]).Perm held :=
  (serverRun_resources testCalls_run (by simp [testCalls, ServerCall.Own, SessionCall.Own,
    testMessage])).1

end Umsftpd
