import Umsftpd.Session

/-!
# The gate of a session

Each place where the code waits for the library has an assertion about the handle. An answer leads
from the assertion of one place to that of the next, and a callback, which may come in between,
only sets what is not set yet. So whatever the order of the callbacks and the answers, a message
is processed for an authenticated client that has a channel and has asked for SFTP.
-/

namespace Umsftpd

open CLib Systems

/-! ## Assertions -/

/-- All that is needed to serve a client. -/
structure SshHandle.Gated (handle : SshHandle) : Prop where
  authenticated : handle.params.authenticated = true
  sftpRequested : handle.params.sftpRequested = true
  channel : handle.channel ≠ none
  session : handle.session ≠ none
  sftp : handle.sftp ≠ none

/-- What is set stays set. -/
structure SshHandle.Kept (handle handle' : SshHandle) : Prop where
  authenticated : handle.params.authenticated = true → handle'.params.authenticated = true
  sftpRequested : handle.params.sftpRequested = true → handle'.params.sftpRequested = true
  channel : handle.channel ≠ none → handle'.channel = handle.channel
  session : handle'.session = handle.session
  sftp : handle.sftp ≠ none → handle'.sftp = handle.sftp

/-- What the loop that waits for the authentication waits for. -/
structure SshHandle.Opened (handle : SshHandle) : Prop where
  authenticated : handle.params.authenticated = true
  channel : handle.channel ≠ none

/-- The assertion of a place. -/
def SessionPoint.Assertion (point : SessionPoint) (handle : SshHandle) : Prop :=
  match point with
  | handleKeyExchange | authenticationDopoll | returned => True
  | eventLoopDopoll | sftpServerInit | channelIsOpen => handle.Opened
  | sftpServerNew =>
    handle.Opened ∧ handle.params.sftpRequested = true ∧ handle.session ≠ none ∧
      handle.sftp = none
  | getClientMessage => handle.Opened ∧ handle.sftp ≠ none

/-- The invariant: where there is an SFTP session the gate is open, and the assertion holds. -/
structure SessionState.Inv (st : SessionState) : Prop where
  gated : st.handle.sftp ≠ none → st.handle.Gated
  assertion : st.point.Assertion st.handle

theorem SshHandle.Kept.refl (handle : SshHandle) : handle.Kept handle :=
  ⟨id, id, fun _ => rfl, rfl, fun _ => rfl⟩

theorem SshHandle.Kept.trans {h1 h2 h3 : SshHandle} (h : h1.Kept h2) (h' : h2.Kept h3) :
    h1.Kept h3 where
  authenticated hset := h'.authenticated (h.authenticated hset)
  sftpRequested hset := h'.sftpRequested (h.sftpRequested hset)
  channel hset := by
    have hfirst := h.channel hset
    rw [h'.channel (by rwa [hfirst]), hfirst]
  session := h'.session.trans h.session
  sftp hset := by
    have hfirst := h.sftp hset
    rw [h'.sftp (by rwa [hfirst]), hfirst]

theorem SshHandle.Kept.gated {h h' : SshHandle} (hkept : h.Kept h') (hgated : h.Gated) :
    h'.Gated where
  authenticated := hkept.authenticated hgated.authenticated
  sftpRequested := hkept.sftpRequested hgated.sftpRequested
  channel := by
    rw [hkept.channel hgated.channel]
    exact hgated.channel
  session := by
    rw [hkept.session]
    exact hgated.session
  sftp := by
    rw [hkept.sftp hgated.sftp]
    exact hgated.sftp

theorem SshHandle.Kept.opened {h h' : SshHandle} (hkept : h.Kept h') (hopened : h.Opened) :
    h'.Opened where
  authenticated := hkept.authenticated hopened.authenticated
  channel := by
    rw [hkept.channel hopened.channel]
    exact hopened.channel

/-! ## What is created -/

def SessionCall.createsChannel : SessionCall → Bool
  | channelNew _ (some _) => true
  | _ => false

def SessionCall.createsSftp : SessionCall → Bool
  | sftpServerNew _ _ (some _) => true
  | _ => false

/-- The effect of a step: the handle keeps what it has, what is created is in the handle then, and a
message is processed only if the gate is open. -/
structure SessionEffect (handle : SshHandle) (calls : List SessionCall) (st : SessionState) :
    Prop where
  inv : st.Inv
  kept : handle.Kept st.handle
  channels : handle.channel.toList.length + calls.countP SessionCall.createsChannel =
    st.handle.channel.toList.length
  sftps : handle.sftp.toList.length + calls.countP SessionCall.createsSftp =
    st.handle.sftp.toList.length
  processed : ∀ h message, SessionCall.processClientMessage h message ∈ calls → h.Gated

/-- A call that neither creates anything nor processes a message. -/
structure SessionCall.Quiet (c : SessionCall) : Prop where
  channel : c.createsChannel = false
  sftp : c.createsSftp = false
  message : ∀ h message, c ≠ processClientMessage h message

/-- A step that leaves the handle alone and makes quiet calls. -/
theorem SessionEffect.of_quiet {handle : SshHandle} {calls : List SessionCall}
    {point : SessionPoint} (hgated : handle.sftp ≠ none → handle.Gated)
    (hassertion : point.Assertion handle) (hquiet : ∀ c ∈ calls, c.Quiet) :
    SessionEffect handle calls ⟨point, handle⟩ where
  inv := ⟨hgated, hassertion⟩
  kept := .refl handle
  channels := by
    rw [List.countP_eq_zero.mpr fun c hc => by simp [(hquiet c hc).channel], Nat.add_zero]
  sftps := by
    rw [List.countP_eq_zero.mpr fun c hc => by simp [(hquiet c hc).sftp], Nat.add_zero]
  processed h message hmem := absurd rfl ((hquiet _ hmem).message h message)

/-- No calls. -/
theorem SessionEffect.nil {handle : SshHandle} {point : SessionPoint}
    (hgated : handle.sftp ≠ none → handle.Gated) (hassertion : point.Assertion handle) :
    SessionEffect handle [] ⟨point, handle⟩ := .of_quiet hgated hassertion (by simp)

theorem SessionEffect.returned {handle : SshHandle} (hgated : handle.sftp ≠ none → handle.Gated) :
    SessionEffect handle [] ⟨.returned, handle⟩ := .nil hgated trivial

/-- One more call. -/
theorem SessionEffect.cons {handle : SshHandle} {calls : List SessionCall} {st : SessionState}
    (heffect : SessionEffect handle calls st) {c : SessionCall}
    (hchannel : c.createsChannel = false) (hsftp : c.createsSftp = false)
    (hmessage : ∀ h message, c = .processClientMessage h message → h.Gated) :
    SessionEffect handle (c :: calls) st where
  inv := heffect.inv
  kept := heffect.kept
  channels := by
    rw [List.countP_cons_of_neg (by simp [hchannel])]
    exact heffect.channels
  sftps := by
    rw [List.countP_cons_of_neg (by simp [hsftp])]
    exact heffect.sftps
  processed h message hmem := by
    rcases List.mem_cons.mp hmem with heq | hmem
    · exact hmessage h message heq.symm
    · exact heffect.processed h message hmem

/-! ## Callbacks -/

/-- A callback that only sets what is not set, and no SFTP session. -/
theorem SessionEffect.of_callback {point : SessionPoint} (hpoint : point.callsBack = true)
    {handle handle' : SshHandle} (hinv : SessionState.Inv ⟨point, handle⟩)
    (hkept : handle.Kept handle') (hsftp : handle'.sftp = handle.sftp) {calls : List SessionCall}
    (hchannels : handle.channel.toList.length + calls.countP SessionCall.createsChannel =
      handle'.channel.toList.length)
    (hcalls : ∀ c ∈ calls,
      c.createsSftp = false ∧ ∀ h message, c ≠ .processClientMessage h message) :
    SessionEffect handle calls ⟨point, handle'⟩ where
  inv := by
    obtain ⟨hgated, hassertion⟩ := hinv
    refine ⟨fun hset => hkept.gated (hgated (by rwa [← hsftp])), ?_⟩
    -- the other assertions are of places without callbacks
    cases point with
    | handleKeyExchange => trivial
    | authenticationDopoll => trivial
    | eventLoopDopoll => exact hkept.opened hassertion
    | getClientMessage => exact ⟨hkept.opened hassertion.1, by rw [hsftp]; exact hassertion.2⟩
    | sftpServerNew => exact absurd hpoint (by decide)
    | sftpServerInit => exact absurd hpoint (by decide)
    | channelIsOpen => exact absurd hpoint (by decide)
    | returned => exact absurd hpoint (by decide)
  kept := hkept
  channels := hchannels
  sftps := by
    rw [List.countP_eq_zero.mpr fun c hc => by simp [(hcalls c hc).1], hsftp, Nat.add_zero]
  processed h message hmem := absurd rfl ((hcalls _ hmem).2 h message)

/-- A callback that makes no calls. -/
theorem SessionEffect.of_setting {point : SessionPoint} (hpoint : point.callsBack = true)
    {handle handle' : SshHandle} (hinv : SessionState.Inv ⟨point, handle⟩)
    (hkept : handle.Kept handle') (hsftp : handle'.sftp = handle.sftp)
    (hchannel : handle'.channel = handle.channel) : SessionEffect handle [] ⟨point, handle'⟩ := by
  apply SessionEffect.of_callback hpoint hinv hkept hsftp
  · rw [hchannel]
    rfl
  · simp

section Callbacks

variable {point : SessionPoint} {handle : SshHandle}

theorem subsystemRequest_effect (hpoint : point.callsBack = true)
    (hinv : SessionState.Inv ⟨point, handle⟩) (subsystem : CStr) :
    SessionEffect handle (subsystemRequest handle subsystem).calls
      ⟨point, (subsystemRequest handle subsystem).handle⟩ := by
  unfold subsystemRequest
  split
  · exact .of_setting hpoint hinv ⟨id, fun _ => rfl, fun _ => rfl, rfl, fun _ => rfl⟩ rfl rfl
  · exact .of_setting hpoint hinv (.refl handle) rfl rfl

theorem authPassword_effect (hpoint : point.callsBack = true)
    (hinv : SessionState.Inv ⟨point, handle⟩) (user pass : CStr) :
    SessionEffect handle (authPassword handle user pass).calls
      ⟨point, (authPassword handle user pass).handle⟩ :=
  .of_setting hpoint hinv ⟨fun _ => rfl, id, fun _ => rfl, rfl, fun _ => rfl⟩ rfl rfl

/-- There is a new channel only where there is none. -/
theorem channelOpen_effect (hpoint : point.callsBack = true)
    (hinv : SessionState.Inv ⟨point, handle⟩) (new : Option Pointer) :
    SessionEffect handle (channelOpen handle.session handle new).calls
      ⟨point, (channelOpen handle.session handle new).handle⟩ := by
  unfold channelOpen
  split
  · exact .of_setting hpoint hinv (.refl handle) rfl rfl
  · next hnone =>
    rw [Option.not_isSome_iff_eq_none] at hnone
    apply SessionEffect.of_callback hpoint hinv
    · exact ⟨id, id, fun hset => absurd hnone hset, rfl, fun _ => rfl⟩
    · rfl
    · rw [hnone]
      cases new <;> rfl
    · simp [SessionCall.createsSftp]

end Callbacks

/-! ## Answers -/

section Answers

variable {handle : SshHandle}

theorem eventLoop_effect (hgated : handle.sftp ≠ none → handle.Gated) (hopened : handle.Opened) :
    SessionEffect handle (eventLoop handle).2 (eventLoop handle).1 := .nil hgated hopened

theorem authenticationLoop_effect (hgated : handle.sftp ≠ none → handle.Gated) :
    SessionEffect handle (authenticationLoop handle).2 (authenticationLoop handle).1 := by
  unfold authenticationLoop
  split
  · exact .nil hgated trivial
  · next hdone =>
    have hopened : handle.Opened := by
      rw [Bool.or_eq_true, not_or, Bool.not_eq_true', Bool.not_eq_false,
        Option.isNone_iff_eq_none] at hdone
      exact ⟨hdone.1, hdone.2⟩
    exact (eventLoop_effect hgated hopened).cons rfl rfl (by simp)

theorem afterKeyExchange_effect (hinv : SessionState.Inv ⟨.handleKeyExchange, handle⟩)
    (result : Int) :
    SessionEffect handle (afterKeyExchange handle result).2 (afterKeyExchange handle result).1 := by
  unfold afterKeyExchange
  split
  · have hfailed : SessionEffect handle [.getError handle.session] ⟨.returned, handle⟩ :=
      (SessionEffect.returned hinv.gated).cons rfl rfl (by simp)
    exact hfailed.cons rfl rfl (by simp)
  · have hadded := (authenticationLoop_effect hinv.gated).cons
      (c := .eventAddSession handle.event handle.session) rfl rfl (by simp)
    exact hadded.cons rfl rfl (by simp)

theorem afterAuthenticationDopoll_effect
    (hinv : SessionState.Inv ⟨.authenticationDopoll, handle⟩) (result : Int) :
    SessionEffect handle (afterAuthenticationDopoll handle result).2
      (afterAuthenticationDopoll handle result).1 := by
  unfold afterAuthenticationDopoll
  split
  · have hfailed : SessionEffect handle [.getError handle.session] ⟨.returned, handle⟩ :=
      (SessionEffect.returned hinv.gated).cons rfl rfl (by simp)
    exact hfailed.cons rfl rfl (by simp)
  · exact (authenticationLoop_effect hinv.gated).cons rfl rfl (by simp)

theorem afterEventLoopDopoll_effect (hinv : SessionState.Inv ⟨.eventLoopDopoll, handle⟩)
    (result : Int) :
    SessionEffect handle (afterEventLoopDopoll handle result).2
      (afterEventLoopDopoll handle result).1 := by
  have hopened : handle.Opened := hinv.assertion
  have hquiet : ∀ c ∈ SessionCall.eventDopoll handle.event (-1) result ::
      if result = SSH_ERROR then [.channelClose handle.channel] else [], c.Quiet := by
    rw [List.forall_mem_cons]
    refine ⟨⟨rfl, rfl, by simp⟩, fun c hc => ?_⟩
    split at hc
    · obtain rfl := List.mem_singleton.mp hc
      exact ⟨rfl, rfl, by simp⟩
    · exact absurd hc List.not_mem_nil
  unfold afterEventLoopDopoll
  dsimp only
  split
  · next hcreate =>
    simp only [Bool.and_eq_true, Option.isNone_iff_eq_none, Option.isSome_iff_ne_none] at hcreate
    obtain ⟨⟨⟨hrequested, hsftp⟩, hsession⟩, -⟩ := hcreate
    exact .of_quiet hinv.gated ⟨hopened, hrequested, hsession, hsftp⟩ hquiet
  · split
    · next hsftp =>
      rw [Option.isSome_iff_ne_none] at hsftp
      exact .of_quiet hinv.gated ⟨hopened, hsftp⟩ hquiet
    · exact .of_quiet hinv.gated hopened hquiet

/-- The SFTP session is created behind the gate. -/
theorem afterSftpServerNew_effect (hinv : SessionState.Inv ⟨.sftpServerNew, handle⟩)
    (result : Option Pointer) :
    SessionEffect handle (afterSftpServerNew handle result).2
      (afterSftpServerNew handle result).1 := by
  obtain ⟨hopened, hrequested, hsession, hsftp⟩ := hinv.assertion
  dsimp only at hsftp
  have hkept : handle.Kept { handle with sftp := result } :=
    ⟨id, id, fun _ => rfl, rfl, fun hset => absurd hsftp hset⟩
  unfold afterSftpServerNew
  cases result with
  | none =>
    refine ⟨⟨fun hset => absurd rfl hset, trivial⟩, hkept, rfl, ?_, by simp⟩
    rw [hsftp]
    rfl
  | some sftp =>
    have hgated : SshHandle.Gated { handle with sftp := some sftp } :=
      ⟨hopened.authenticated, hrequested, hopened.channel, hsession, by simp⟩
    refine ⟨⟨fun _ => hgated, ⟨hopened.authenticated, hopened.channel⟩⟩, hkept, rfl, ?_, by simp⟩
    rw [hsftp]
    rfl

theorem afterSftpServerInit_effect (hinv : SessionState.Inv ⟨.sftpServerInit, handle⟩)
    (result : Int) :
    SessionEffect handle (afterSftpServerInit handle result).2
      (afterSftpServerInit handle result).1 := by
  unfold afterSftpServerInit
  dsimp only
  split
  · exact (SessionEffect.returned hinv.gated).cons rfl rfl (by simp)
  · have hnil : SessionEffect handle [] ⟨.channelIsOpen, handle⟩ := .nil hinv.gated hinv.assertion
    exact hnil.cons rfl rfl (by simp)

theorem processClientMessage_quiet (handle : SshHandle) (message : SftpClientMessage) :
    ∀ c ∈ processClientMessage handle message, c.Quiet := by
  unfold processClientMessage
  split_ifs
  all_goals
    simp only [List.forall_mem_cons, List.not_mem_nil, false_imp_iff, implies_true, and_true]
  -- the reply, and what comes before it where a file is closed
  · exact ⟨rfl, rfl, by simp⟩
  · exact ⟨⟨rfl, rfl, by simp⟩, ⟨rfl, rfl, by simp⟩⟩
  · exact ⟨rfl, rfl, by simp⟩
  · exact ⟨rfl, rfl, by simp⟩

theorem afterGetClientMessage_effect (hinv : SessionState.Inv ⟨.getClientMessage, handle⟩)
    (msg : Option SftpClientMessage) :
    SessionEffect handle (afterGetClientMessage handle msg).2
      (afterGetClientMessage handle msg).1 := by
  obtain ⟨hopened, hsftp⟩ := hinv.assertion
  unfold afterGetClientMessage
  cases msg with
  | none =>
    have hfailed : SessionEffect handle [.getError handle.session] ⟨.returned, handle⟩ :=
      (SessionEffect.returned hinv.gated).cons rfl rfl (by simp)
    exact hfailed.cons rfl rfl (by simp)
  | some msg =>
    have hreplies : SessionEffect handle (processClientMessage handle msg)
        ⟨.channelIsOpen, handle⟩ :=
      .of_quiet hinv.gated hopened (processClientMessage_quiet handle msg)
    have hprocessed : SessionEffect handle
        (.processClientMessage handle msg :: processClientMessage handle msg)
        ⟨.channelIsOpen, handle⟩ := by
      refine hreplies.cons rfl rfl fun h message heq => ?_
      injection heq with hhandle
      rw [← hhandle]
      exact hinv.gated hsftp
    exact hprocessed.cons rfl rfl (by simp)

theorem afterChannelIsOpen_effect (hinv : SessionState.Inv ⟨.channelIsOpen, handle⟩)
    (result : Int) :
    SessionEffect handle (afterChannelIsOpen handle result).2
      (afterChannelIsOpen handle result).1 := by
  unfold afterChannelIsOpen
  dsimp only
  split
  · exact (eventLoop_effect hinv.gated hinv.assertion).cons rfl rfl (by simp)
  · exact (SessionEffect.returned hinv.gated).cons rfl rfl (by simp)

end Answers

/-- What a step does. -/
theorem SessionStep.effect {st st' : SessionState} {calls : List SessionCall}
    (hstep : SessionStep st calls st') (hinv : st.Inv) : SessionEffect st.handle calls st' := by
  cases hstep with
  | subsystemRequest hpoint handle subsystem => exact subsystemRequest_effect hpoint hinv subsystem
  | authPassword hpoint handle user pass => exact authPassword_effect hpoint hinv user pass
  | channelOpen hpoint handle new => exact channelOpen_effect hpoint hinv new
  | keyExchange handle result => exact afterKeyExchange_effect hinv result
  | authenticationDopoll handle result => exact afterAuthenticationDopoll_effect hinv result
  | eventLoopDopoll handle result => exact afterEventLoopDopoll_effect hinv result
  | sftpServerNew handle result => exact afterSftpServerNew_effect hinv result
  | sftpServerInit handle result => exact afterSftpServerInit_effect hinv result
  | getClientMessage handle msg => exact afterGetClientMessage_effect hinv msg
  | channelIsOpen handle result => exact afterChannelIsOpen_effect hinv result

/-! ## Runs -/

/-- What holds of the calls so far and the state: besides the invariant, that what was created is
in the handle. -/
structure SessionHistory (calls : List SessionCall) (st : SessionState) : Prop where
  inv : st.Inv
  channels : calls.countP SessionCall.createsChannel = st.handle.channel.toList.length
  sftps : calls.countP SessionCall.createsSftp = st.handle.sftp.toList.length
  processed : ∀ h message, SessionCall.processClientMessage h message ∈ calls → h.Gated

theorem SessionHistory.step {calls more : List SessionCall} {st st' : SessionState}
    (hhistory : SessionHistory calls st) (hstep : SessionStep st more st') :
    SessionHistory (calls ++ more) st' := by
  have heffect := hstep.effect hhistory.inv
  constructor
  · exact heffect.inv
  · rw [List.countP_append, hhistory.channels, heffect.channels]
  · rw [List.countP_append, hhistory.sftps, heffect.sftps]
  · intro h message hmem
    rcases List.mem_append.mp hmem with hmem | hmem
    · exact hhistory.processed h message hmem
    · exact heffect.processed h message hmem

theorem SessionHistory.start (hid : BitVec 32) (event session : Option Pointer) :
    SessionHistory (handleSession (.new hid event session)).2
      (handleSession (.new hid event session)).1 where
  inv := ⟨fun hset => absurd rfl hset, trivial⟩
  channels := rfl
  sftps := rfl
  processed := by simp [handleSession]

theorem SessionRun.history {hid : BitVec 32} {event session : Option Pointer}
    {calls : List SessionCall} {st : SessionState}
    (hrun : SessionRun (.new hid event session) calls st) : SessionHistory calls st := by
  obtain ⟨more, rfl, hrun⟩ := hrun
  exact hrun.preserves (.start hid event session) fun _ _ _ _ hhistory hstep =>
    hhistory.step hstep

theorem toList_length_le {α : Type*} (x : Option α) : x.toList.length ≤ 1 := by
  cases x <;> simp

/-- **The gate.** In every run of a session a message is processed only with the client
authenticated, SFTP requested, and channel, session and SFTP session there; at most one channel and
one SFTP session are created; and from any state on, what is set stays set. -/
theorem handleSession_gated {hid : BitVec 32} {event session : Option Pointer}
    {calls : List SessionCall} {st : SessionState}
    (hrun : SessionRun (.new hid event session) calls st) :
    (∀ handle message, SessionCall.processClientMessage handle message ∈ calls → handle.Gated) ∧
      calls.countP SessionCall.createsChannel ≤ 1 ∧
      calls.countP SessionCall.createsSftp ≤ 1 ∧
      ∀ more st', Run SessionStep st more st' → st.handle.Kept st'.handle := by
  have hhistory := hrun.history
  refine ⟨hhistory.processed, ?_, ?_, fun more st' hmore => ?_⟩
  · rw [hhistory.channels]
    exact toList_length_le _
  · rw [hhistory.sftps]
    exact toList_length_le _
  · refine hmore.relates (R := fun st st' => st.handle.Kept st'.handle) hhistory.inv (.refl _)
      (fun h h' => h.trans h') fun t more u hinv hstep => ?_
    have heffect := hstep.effect hinv
    exact ⟨heffect.inv, heffect.kept⟩

/-- A session in which a client is served. -/
def testHandle : SshHandle where
  hid := 1
  event := some 1
  session := some 2
  channel := some 3
  sftp := some 4
  params := ⟨true, true, 1⟩

def testMessage : SftpClientMessage where
  address := 5
  sftp := some 4
  type := SSH_FXP_REALPATH
  handle := none

/-- The client authenticates and opens a channel during the key exchange, and asks for SFTP
later. -/
theorem testHandle_run : ∃ calls st,
    SessionRun (.new 1 (some 1) (some 2)) calls st ∧
      SessionCall.processClientMessage testHandle testMessage ∈ calls := by
  have hstart : Run SessionStep (handleSession (.new 1 (some 1) (some 2))).1 [] _ := .start
  have hrun := hstart
    |>.step (.authPassword rfl _ "user".toList "pass".toList)
    |>.step (.channelOpen rfl _ (some 3))
    |>.step (.keyExchange _ SSH_OK)
    |>.step (.subsystemRequest rfl _ "sftp".toList)
    |>.step (.eventLoopDopoll _ SSH_OK)
    |>.step (.sftpServerNew _ (some 4))
    |>.step (.sftpServerInit _ 0)
    |>.step (.channelIsOpen _ 1)
    |>.step (.eventLoopDopoll _ SSH_OK)
    |>.step (.getClientMessage testHandle (some testMessage))
  exact ⟨_, _, ⟨_, rfl, hrun⟩, by decide⟩

theorem handleSession_gated_test : testHandle.Gated := by
  obtain ⟨calls, st, hrun, hmem⟩ := testHandle_run
  exact (handleSession_gated hrun).1 _ _ hmem

end Umsftpd
