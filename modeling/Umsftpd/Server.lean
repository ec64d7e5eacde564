import Umsftpd.Session

/-!
# The server (`main.c`)

`start_server` accepts one connection after another and serves each of them to its end before it
accepts the next. As in a session, it waits for an answer of the library in one of few places.
-/

namespace Umsftpd

open CLib

/-- What `start_server` and `_handle_session` call. -/
inductive ServerCall where
  | init (result : Int)
  | bindNew (sshbind : Option Pointer)
  | bindOptionsSetPort (sshbind : Pointer) (port : BitVec 32)
  | bindOptionsSetHostKey (sshbind : Pointer) (filename : CStr)
  | bindListen (sshbind : Pointer) (result : Int)
  | getError (sshbind : Pointer)
  | new (session : Option Pointer)
  | eventNew (event : Option Pointer)
  | bindAccept (sshbind session : Pointer) (result : Int)
  | session (call : SessionCall)
  | eventFree (event : Pointer)
  | disconnect (session : Pointer)
  | free (session : Pointer)
  deriving DecidableEq

/-- The function whose answer the server waits for, and what it has to hand then. -/
inductive ServerPoint where
  | init
  | bindNew
  | bindListen (sshbind : Pointer)
  | new (sshbind : Pointer)
  | eventNew (sshbind session : Pointer)
  | bindAccept (sshbind session event : Pointer)
  | serving (sshbind session event : Pointer) (st : SessionState)
  | returned (result : Bool)

/-- `hid` is the static variable of `_handle_session`. -/
structure ServerState where
  hid : BitVec 32
  point : ServerPoint

abbrev ServerProgress := ServerState × List ServerCall

def port : BitVec 32 := 12345

def hostKey : CStr := "ssh_host_ed25519_key".toList

section Answers

variable (hid : BitVec 32)

/-- The end of a connection. -/
def closing (sshbind session event : Pointer) : ServerProgress :=
  (⟨hid, .new sshbind⟩, [.eventFree event, .disconnect session, .free session])

def afterInit (result : Int) : ServerProgress :=
  if result < 0 then (⟨hid, .returned false⟩, [.init result])
  else (⟨hid, .bindNew⟩, [.init result])

def afterBindNew (sshbind : Option Pointer) : ServerProgress :=
  match sshbind with
  | none => (⟨hid, .returned false⟩, [.bindNew none])
  | some b =>
    (⟨hid, .bindListen b⟩,
      [.bindNew (some b), .bindOptionsSetPort b port, .bindOptionsSetHostKey b hostKey])

/-- `return 1` in a function that returns a `bool`. -/
def afterBindListen (sshbind : Pointer) (result : Int) : ServerProgress :=
  if result < 0 then (⟨hid, .returned true⟩, [.bindListen sshbind result, .getError sshbind])
  else (⟨hid, .new sshbind⟩, [.bindListen sshbind result])

def afterNew (sshbind : Pointer) (session : Option Pointer) : ServerProgress :=
  match session with
  | none => (⟨hid, .returned true⟩, [.new none])
  | some s => (⟨hid, .eventNew sshbind s⟩, [.new (some s)])

def afterEventNew (sshbind session : Pointer) (event : Option Pointer) : ServerProgress :=
  match event with
  | none => (⟨hid, .returned true⟩, [.eventNew none])
  | some e => (⟨hid, .bindAccept sshbind session e⟩, [.eventNew (some e)])

/-- The first part of `_handle_session`, or the branch of a connection that failed. -/
def afterBindAccept (sshbind session event : Pointer) (result : Int) : ServerProgress :=
  if result ≠ SSH_ERROR then
    let hid := hid + 1
    let (st, calls) := handleSession (SshHandle.new hid (some event) (some session))
    (⟨hid, .serving sshbind session event st⟩,
      .bindAccept sshbind session result :: calls.map .session)
  else
    let (s, calls) := closing hid sshbind session event
    (s, .bindAccept sshbind session result :: calls)

end Answers

/-- One step: an answer, or a step of the session that is being served. -/
inductive ServerStep : ServerState → List ServerCall → ServerState → Prop
  | init (hid : BitVec 32) (result : Int) :
      ServerStep ⟨hid, .init⟩ (afterInit hid result).2 (afterInit hid result).1
  | bindNew (hid : BitVec 32) (sshbind : Option Pointer) :
      ServerStep ⟨hid, .bindNew⟩ (afterBindNew hid sshbind).2 (afterBindNew hid sshbind).1
  | bindListen (hid : BitVec 32) (sshbind : Pointer) (result : Int) :
      ServerStep ⟨hid, .bindListen sshbind⟩ (afterBindListen hid sshbind result).2
        (afterBindListen hid sshbind result).1
  | new (hid : BitVec 32) (sshbind : Pointer) (session : Option Pointer) :
      ServerStep ⟨hid, .new sshbind⟩ (afterNew hid sshbind session).2
        (afterNew hid sshbind session).1
  | eventNew (hid : BitVec 32) (sshbind session : Pointer) (event : Option Pointer) :
      ServerStep ⟨hid, .eventNew sshbind session⟩ (afterEventNew hid sshbind session event).2
        (afterEventNew hid sshbind session event).1
  | bindAccept (hid : BitVec 32) (sshbind session event : Pointer) (result : Int) :
      ServerStep ⟨hid, .bindAccept sshbind session event⟩
        (afterBindAccept hid sshbind session event result).2
        (afterBindAccept hid sshbind session event result).1
  | serve (hid : BitVec 32) (sshbind session event : Pointer) {st st' : SessionState}
      {calls : List SessionCall} (h : SessionStep st calls st') :
      ServerStep ⟨hid, .serving sshbind session event st⟩ (calls.map .session)
        ⟨hid, .serving sshbind session event st'⟩
  | served (hid : BitVec 32) (sshbind session event : Pointer) {st : SessionState}
      (h : st.point = .returned) :
      ServerStep ⟨hid, .serving sshbind session event st⟩ (closing hid sshbind session event).2
        (closing hid sshbind session event).1

/-- A run of the program: the static variable starts as zero. -/
abbrev ServerRun : List ServerCall → ServerState → Prop := Systems.Run ServerStep ⟨0, .init⟩

end Umsftpd
