import Umsftpd.Server.Resources

/-!
# Connections

Messages are those of the connection that is served, and they are answered in the order they come.
-/

namespace Umsftpd

open CLib Systems

/-! ## Connections -/

/-- The session of a connection that is accepted. -/
def ServerCall.accepts : ServerCall → Option Pointer
  | .bindAccept _ s result => if result ≠ SSH_ERROR then some s else none
  | _ => none

/-- What the server is doing, by the connections accepted so far. -/
structure ServerState.Counts (s : ServerState) (accepted : List Pointer) : Prop where
  hid : s.hid = BitVec.ofNat 32 accepted.length
  serves : ∀ b session event st, s.point = .serving b session event st →
    accepted.getLast? = some session ∧ st.Serves s.hid session event

/-- A message that is processed is one of the connection accepted last. -/
def FromLast (accepted : List Pointer) (call : ServerCall) : Prop :=
  ∀ handle message, call = .session (.processClientMessage handle message) →
    handle.Gated ∧ handle.hid = BitVec.ofNat 32 accepted.length ∧
      handle.session = accepted.getLast?

def ServerPoint.isServing : ServerPoint → Bool
  | .serving .. => true
  | _ => false

/-- Nothing is accepted and no message is processed. -/
theorem ServerState.Counts.quiet {s t : ServerState} {calls : List ServerCall}
    {before : List ServerCall} (h : s.Counts (before.filterMap ServerCall.accepts))
    (hhid : t.hid = s.hid) (hpoint : t.point.isServing = false)
    (hcalls : ∀ call ∈ calls, call.accepts = none ∧ ∀ c, call ≠ .session c) :
    t.Counts ((before ++ calls).filterMap ServerCall.accepts) ∧
      ∀ i call, calls[i]? = some call →
        FromLast ((before ++ calls.take i).filterMap ServerCall.accepts) call := by
  have hnone : calls.filterMap ServerCall.accepts = [] :=
    List.filterMap_eq_nil_iff.mpr fun call hcall => (hcalls call hcall).1
  constructor
  · rw [List.filterMap_append, hnone, List.append_nil]
    refine ⟨hhid.trans h.hid, fun b session event st hst => ?_⟩
    rw [hst] at hpoint
    exact absurd hpoint (by simp [ServerPoint.isServing])
  · intro i call hi handle message heq
    exact absurd heq ((hcalls call (List.mem_of_getElem? hi)).2 _)

/-- A connection is accepted. -/
theorem ServerState.Counts.accept {hid : BitVec 32} {point : ServerPoint} {accepted : List Pointer}
    (h : ServerState.Counts ⟨hid, point⟩ accepted) (sshbind session event : Pointer) :
    ServerState.Counts
      ⟨hid + 1, .serving sshbind session event
        (handleSession (.new (hid + 1) (some event) (some session))).1⟩
      (accepted ++ [session]) where
  hid := by
    have hhid : hid = BitVec.ofNat 32 accepted.length := h.hid
    rw [List.length_append, List.length_singleton, BitVec.ofNat_add, ← hhid]
    rfl
  serves := by
    rintro b s e st ⟨⟩
    exact ⟨List.getLast?_concat, .start (hid + 1) session event⟩

/-- The session of the connection goes on. -/
theorem ServerState.Counts.serve {hid : BitVec 32} {sshbind session event : Pointer}
    {st st' : SessionState} {before : List ServerCall} {calls : List SessionCall}
    (h : ServerState.Counts ⟨hid, .serving sshbind session event st⟩
      (before.filterMap ServerCall.accepts)) (hstep : SessionStep st calls st') :
    ServerState.Counts ⟨hid, .serving sshbind session event st'⟩
        ((before ++ calls.map ServerCall.session).filterMap ServerCall.accepts) ∧
      ∀ i call, (calls.map ServerCall.session)[i]? = some call →
        FromLast ((before ++ (calls.map ServerCall.session).take i).filterMap ServerCall.accepts)
          call := by
  obtain ⟨hlast, hserved⟩ := h.serves _ _ _ _ rfl
  have hnone : ∀ some : List SessionCall,
      (some.map ServerCall.session).filterMap ServerCall.accepts = [] := by
    intro some
    exact List.filterMap_eq_nil_iff.mpr (by simp [ServerCall.accepts])
  constructor
  · rw [List.filterMap_append, hnone, List.append_nil]
    refine ⟨h.hid, ?_⟩
    rintro b s e st'' ⟨⟩
    exact ⟨hlast, hserved.step hstep⟩
  · intro i call hi handle message heq
    rw [← List.map_take, List.filterMap_append, hnone, List.append_nil]
    have hmem : SessionCall.processClientMessage handle message ∈ calls := by
      have hmem := List.mem_of_getElem? hi
      rw [heq] at hmem
      simpa using hmem
    obtain rfl := hstep.stays.processed handle message hmem
    refine ⟨(hstep.effect hserved.inv).processed _ _ hmem, ?_, ?_⟩
    · exact hserved.hid.trans h.hid
    · rw [hlast]
      exact hserved.session

theorem ServerStep.counts {s t : ServerState} {calls before : List ServerCall}
    (hstep : ServerStep s calls t) (h : s.Counts (before.filterMap ServerCall.accepts)) :
    t.Counts ((before ++ calls).filterMap ServerCall.accepts) ∧
      ∀ i call, calls[i]? = some call →
        FromLast ((before ++ calls.take i).filterMap ServerCall.accepts) call := by
  cases hstep with
  | init hid result =>
    unfold afterInit
    split
    · exact h.quiet rfl rfl (by simp [ServerCall.accepts])
    · exact h.quiet rfl rfl (by simp [ServerCall.accepts])
  | bindNew hid sshbind =>
    cases sshbind with
    | none => exact h.quiet rfl rfl (by simp [afterBindNew, ServerCall.accepts])
    | some b => exact h.quiet rfl rfl (by simp [afterBindNew, ServerCall.accepts])
  | bindListen hid sshbind result =>
    unfold afterBindListen
    split
    · exact h.quiet rfl rfl (by simp [ServerCall.accepts])
    · exact h.quiet rfl rfl (by simp [ServerCall.accepts])
  | new hid sshbind session =>
    cases session with
    | none => exact h.quiet rfl rfl (by simp [afterNew, ServerCall.accepts])
    | some s => exact h.quiet rfl rfl (by simp [afterNew, ServerCall.accepts])
  | eventNew hid sshbind session event =>
    cases event with
    | none => exact h.quiet rfl rfl (by simp [afterEventNew, ServerCall.accepts])
    | some e => exact h.quiet rfl rfl (by simp [afterEventNew, ServerCall.accepts])
  | bindAccept hid sshbind session event result =>
    unfold afterBindAccept
    split
    · next hresult =>
      have haccepts : (ServerCall.bindAccept sshbind session result).accepts = some session :=
        if_pos hresult
      constructor
      · rw [List.filterMap_append, List.filterMap_cons_some haccepts]
        exact h.accept sshbind session event
      · intro i call hi handle message heq
        have hmem := List.mem_of_getElem? hi
        rw [heq] at hmem
        simp [handleSession] at hmem
    · next hresult =>
      refine h.quiet rfl rfl ?_
      simp [closing, ServerCall.accepts, hresult]
  | serve hid sshbind session event hstep => exact h.serve hstep
  | served hid sshbind session event hreturned =>
    exact h.quiet rfl rfl (by simp [closing, ServerCall.accepts])

/-- **Connections do not mix.** Every message that is processed is one of the connection accepted
last, whose client is authenticated: the handle has its session, and its number is that of the
connections accepted so far, modulo `2 ^ 32`. -/
theorem serverRun_serves {calls : List ServerCall} {s : ServerState} (hrun : ServerRun calls s) :
    ∀ i call, calls[i]? = some call →
      FromLast ((calls.take i).filterMap ServerCall.accepts) call := by
  have hstart : ServerState.Counts ⟨0, .init⟩ [] := ⟨rfl, by simp⟩
  exact (hrun.along (J := fun calls s => s.Counts (calls.filterMap ServerCall.accepts))
    (P := fun calls => FromLast (calls.filterMap ServerCall.accepts)) hstart
    fun _ _ _ _ h hstep => hstep.counts h).2

theorem serverRun_serves_test :
    FromLast [2] (.session (.processClientMessage testHandle testMessage)) :=
  serverRun_serves testCalls_run 26 _ rfl

/-! ## Answers -/

def ServerCall.inSession : ServerCall → Option SessionCall
  | .session call => some call
  | _ => none

theorem ServerStep.answers {s t : ServerState} {calls : List ServerCall}
    (hstep : ServerStep s calls t) : Answers (calls.filterMap ServerCall.inSession) := by
  cases hstep with
  | init hid result =>
    unfold afterInit
    split
    · rfl
    · rfl
  | bindNew hid sshbind => cases sshbind <;> rfl
  | bindListen hid sshbind result =>
    unfold afterBindListen
    split
    · rfl
    · rfl
  | new hid sshbind session => cases session <;> rfl
  | eventNew hid sshbind session event => cases event <;> rfl
  | bindAccept hid sshbind session event result =>
    unfold afterBindAccept
    split
    · rfl
    · rfl
  | serve hid sshbind session event hstep =>
    have hcalls : ∀ calls : List SessionCall,
        (calls.map ServerCall.session).filterMap ServerCall.inSession = calls := by
      intro calls
      rw [List.filterMap_map]
      exact List.filterMap_some
    rw [hcalls]
    exact hstep.stays.answers
  | served hid sshbind session event hreturned => rfl

/-- **Every request is answered once, and in order**, over all connections, but for those that are
not implemented. -/
theorem serverRun_answers {calls : List ServerCall} {s : ServerState} (hrun : ServerRun calls s) :
    Answers (calls.filterMap ServerCall.inSession) := by
  induction hrun with
  | start => rfl
  | step hrun hstep ih =>
    rw [List.filterMap_append]
    exact ih.append hstep.answers

theorem serverRun_answers_test : Answers (testCalls.filterMap ServerCall.inSession) :=
  serverRun_answers testCalls_run

end Umsftpd
