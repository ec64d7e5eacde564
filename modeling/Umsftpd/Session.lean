import Umsftpd.CLib.CString
import Umsftpd.Systems.Runs

/-!
# Sessions (`main.c`)

`handle_session` runs in the library most of the time, and the library calls back from there. So
the code is in one of few places where it waits for an answer of the library (`SessionPoint`); a
step is a callback that comes meanwhile, or the answer and what the code does until it waits again.
All calls are recorded with what they are handed, those that the code waits for when they are
answered. What is only printed is left out.
-/

namespace Umsftpd

open CLib

/-! ## What a program sees of libssh -/

/-- A pointer that is not `NULL`. -/
abbrev Pointer := Nat

def SSH_OK : Int := 0
def SSH_ERROR : Int := -1
def SSH_AUTH_SUCCESS : Int := 0

def SSH_FXP_CLOSE : BitVec 8 := 4
def SSH_FXP_LSTAT : BitVec 8 := 7
def SSH_FXP_OPENDIR : BitVec 8 := 11
def SSH_FXP_READDIR : BitVec 8 := 12
def SSH_FXP_REALPATH : BitVec 8 := 16

def SSH_FX_OK : BitVec 32 := 0
def SSH_FX_FAILURE : BitVec 32 := 4

def SSH_FILEXFER_ATTR_SIZE : BitVec 32 := 0x1
def SSH_FILEXFER_ATTR_UIDGID : BitVec 32 := 0x2
def SSH_FILEXFER_ATTR_PERMISSIONS : BitVec 32 := 0x4
def SSH_FILEXFER_ATTR_ACMODTIME : BitVec 32 := 0x8
def SSH_FILEXFER_TYPE_DIRECTORY : BitVec 8 := 2

/-- `struct sftp_attributes_struct`, the fields that are set here. -/
structure SftpAttributes where
  flags : BitVec 32
  name : CStr
  longname : CStr
  uid : BitVec 32
  gid : BitVec 32
  type : BitVec 8
  permissions : BitVec 32
  deriving DecidableEq

/-- `struct sftp_client_message_struct`, with the place where it is: the fields that decide what is
done or are handed on. -/
structure SftpClientMessage where
  address : Pointer
  sftp : Option Pointer
  type : BitVec 8
  handle : Option Pointer
  deriving DecidableEq

/-! ## The handle -/

structure SshParams where
  authenticated : Bool
  sftpRequested : Bool
  authenticationAttempts : BitVec 32
  deriving DecidableEq

/-- `struct ssh_handle_t`. -/
structure SshHandle where
  hid : BitVec 32
  event : Option Pointer
  session : Option Pointer
  channel : Option Pointer
  sftp : Option Pointer
  params : SshParams
  deriving DecidableEq

/-- What the code calls. -/
inductive SessionCall where
  | setAuthMethods (session : Option Pointer)
  | setServerCallbacks (session : Option Pointer)
  | handleKeyExchange (session : Option Pointer) (result : Int)
  | eventAddSession (event session : Option Pointer)
  | eventDopoll (event : Option Pointer) (timeout result : Int)
  | getError (session : Option Pointer)
  | setChannelCallbacks (channel : Option Pointer)
  | channelNew (session : Option Pointer) (channel : Option Pointer)
  | channelClose (channel : Option Pointer)
  | channelIsOpen (channel : Option Pointer) (result : Int)
  | sftpServerNew (session channel : Option Pointer) (sftp : Option Pointer)
  | sftpServerInit (sftp : Option Pointer) (result : Int)
  | getClientMessage (sftp : Option Pointer) (message : Option SftpClientMessage)
  | processClientMessage (handle : SshHandle) (message : SftpClientMessage)
  | sftpHandle (sftp handle : Option Pointer)
  | replyName (message : SftpClientMessage) (name : CStr)
  | replyStatus (message : SftpClientMessage) (status : BitVec 32) (text : CStr)
  | replyAttr (message : SftpClientMessage) (attrs : SftpAttributes)
  deriving DecidableEq

/-! ## Callbacks -/

/-- The answer of a callback, with the handle as it leaves it and its calls. -/
structure Callback (α : Type) where
  handle : SshHandle
  answer : α
  calls : List SessionCall

def subsystemRequest (handle : SshHandle) (subsystem : CStr) : Callback Int :=
  if strcmp subsystem "sftp".toList = .eq then
    ⟨{ handle with params := { handle.params with sftpRequested := true } }, SSH_OK, []⟩
  else
    ⟨handle, SSH_ERROR, []⟩

def authPassword (handle : SshHandle) (_user _pass : CStr) : Callback Int :=
  ⟨{ handle with params :=
      { handle.params with
        authenticated := true
        authenticationAttempts := handle.params.authenticationAttempts + 1 } },
    SSH_AUTH_SUCCESS, []⟩

/-- `channel_open`; `new` is what `ssh_channel_new` gives. -/
def channelOpen (session : Option Pointer) (handle : SshHandle) (new : Option Pointer) :
    Callback (Option Pointer) :=
  if handle.channel.isSome then ⟨handle, none, []⟩
  else
    let handle := { handle with channel := new }
    ⟨handle, handle.channel, [.channelNew session new]⟩

/-! ## Messages -/

/-- The calls of `process_client_message`; what `sftp_handle` gives is only printed. -/
def processClientMessage (_handle : SshHandle) (message : SftpClientMessage) : List SessionCall :=
  if message.type = SSH_FXP_REALPATH then [.replyName message "/foo".toList]
  else if message.type = SSH_FXP_OPENDIR then []
  else if message.type = SSH_FXP_READDIR then []
  else if message.type = SSH_FXP_CLOSE then
    [.sftpHandle message.sftp message.handle, .replyStatus message SSH_FX_OK "OK".toList]
  else if message.type = SSH_FXP_LSTAT then
    let attrs : SftpAttributes := {
      flags := SSH_FILEXFER_ATTR_SIZE ||| SSH_FILEXFER_ATTR_UIDGID |||
        SSH_FILEXFER_ATTR_PERMISSIONS ||| SSH_FILEXFER_ATTR_ACMODTIME
      name := "foo".toList
      longname := "bar".toList
      uid := 1000
      gid := 2000
      type := SSH_FILEXFER_TYPE_DIRECTORY
      permissions := 16877 }
    [.replyAttr message attrs]
  else [.replyStatus message SSH_FX_FAILURE "Unknown type".toList]

/-! ## The code between two answers -/

/-- The function of the library whose answer the code waits for, and where there is more than one
call of it, which one. -/
inductive SessionPoint where
  | handleKeyExchange
  | authenticationDopoll
  | eventLoopDopoll
  | sftpServerNew
  | sftpServerInit
  | getClientMessage
  | channelIsOpen
  | returned
  deriving DecidableEq

structure SessionState where
  point : SessionPoint
  handle : SshHandle
  deriving DecidableEq

/-- The state in which the code waits again, and the calls it makes until then. -/
abbrev SessionProgress := SessionState × List SessionCall

/-- The start of a round of `handle_session_event_loop`. -/
def eventLoop (handle : SshHandle) : SessionProgress := (⟨.eventLoopDopoll, handle⟩, [])

/-- The condition of the loop that waits for the authentication, and what follows it. -/
def authenticationLoop (handle : SshHandle) : SessionProgress :=
  if !handle.params.authenticated || handle.channel.isNone then
    (⟨.authenticationDopoll, handle⟩, [])
  else
    let (st, calls) := eventLoop handle
    (st, .setChannelCallbacks handle.channel :: calls)

/-- `handle_session` until the key exchange. -/
def handleSession (handle : SshHandle) : SessionProgress :=
  (⟨.handleKeyExchange, handle⟩,
    [.setAuthMethods handle.session, .setServerCallbacks handle.session])

def afterKeyExchange (handle : SshHandle) (result : Int) : SessionProgress :=
  let exchange := .handleKeyExchange handle.session result
  if result ≠ SSH_OK then (⟨.returned, handle⟩, [exchange, .getError handle.session])
  else
    let (st, calls) := authenticationLoop handle
    (st, exchange :: .eventAddSession handle.event handle.session :: calls)

def afterAuthenticationDopoll (handle : SshHandle) (result : Int) : SessionProgress :=
  let dopoll := .eventDopoll handle.event 100 result
  if result = SSH_ERROR then (⟨.returned, handle⟩, [dopoll, .getError handle.session])
  else
    let (st, calls) := authenticationLoop handle
    (st, dopoll :: calls)

/-- The body of the event loop after the poll. -/
def afterEventLoopDopoll (handle : SshHandle) (result : Int) : SessionProgress :=
  let calls := .eventDopoll handle.event (-1) result ::
    if result = SSH_ERROR then [.channelClose handle.channel] else []
  if handle.params.sftpRequested && handle.sftp.isNone && handle.session.isSome &&
      handle.channel.isSome then
    (⟨.sftpServerNew, handle⟩, calls)
  else if handle.sftp.isSome then (⟨.getClientMessage, handle⟩, calls)
  else (⟨.channelIsOpen, handle⟩, calls)

def afterSftpServerNew (handle : SshHandle) (result : Option Pointer) : SessionProgress :=
  let calls := [.sftpServerNew handle.session handle.channel result]
  let handle := { handle with sftp := result }
  if handle.sftp.isNone then (⟨.returned, handle⟩, calls) else (⟨.sftpServerInit, handle⟩, calls)

def afterSftpServerInit (handle : SshHandle) (result : Int) : SessionProgress :=
  let calls := [.sftpServerInit handle.sftp result]
  if result ≠ 0 then (⟨.returned, handle⟩, calls) else (⟨.channelIsOpen, handle⟩, calls)

def afterGetClientMessage (handle : SshHandle) (msg : Option SftpClientMessage) :
    SessionProgress :=
  let get := .getClientMessage handle.sftp msg
  match msg with
  | none => (⟨.returned, handle⟩, [get, .getError handle.session])
  | some msg =>
    (⟨.channelIsOpen, handle⟩,
      get :: .processClientMessage handle msg :: processClientMessage handle msg)

def afterChannelIsOpen (handle : SshHandle) (result : Int) : SessionProgress :=
  let isOpen := .channelIsOpen handle.channel result
  if result ≠ 0 then
    let (st, calls) := eventLoop handle
    (st, isOpen :: calls)
  else (⟨.returned, handle⟩, [isOpen])

/-! ## Steps -/

/-- The functions in which the library calls back. -/
def SessionPoint.callsBack : SessionPoint → Bool
  | handleKeyExchange | authenticationDopoll | eventLoopDopoll | getClientMessage => true
  | sftpServerNew | sftpServerInit | channelIsOpen | returned => false

/-- One step: what the library does is up to the library and the client. It calls back with the
session for which the callbacks were set. -/
inductive SessionStep : SessionState → List SessionCall → SessionState → Prop
  | subsystemRequest {p : SessionPoint} (h : p.callsBack = true) (handle : SshHandle)
      (subsystem : CStr) :
      SessionStep ⟨p, handle⟩ (Umsftpd.subsystemRequest handle subsystem).calls
        ⟨p, (Umsftpd.subsystemRequest handle subsystem).handle⟩
  | authPassword {p : SessionPoint} (h : p.callsBack = true) (handle : SshHandle)
      (user pass : CStr) :
      SessionStep ⟨p, handle⟩ (Umsftpd.authPassword handle user pass).calls
        ⟨p, (Umsftpd.authPassword handle user pass).handle⟩
  | channelOpen {p : SessionPoint} (h : p.callsBack = true) (handle : SshHandle)
      (new : Option Pointer) :
      SessionStep ⟨p, handle⟩ (Umsftpd.channelOpen handle.session handle new).calls
        ⟨p, (Umsftpd.channelOpen handle.session handle new).handle⟩
  | keyExchange (handle : SshHandle) (result : Int) :
      SessionStep ⟨.handleKeyExchange, handle⟩ (afterKeyExchange handle result).2
        (afterKeyExchange handle result).1
  | authenticationDopoll (handle : SshHandle) (result : Int) :
      SessionStep ⟨.authenticationDopoll, handle⟩ (afterAuthenticationDopoll handle result).2
        (afterAuthenticationDopoll handle result).1
  | eventLoopDopoll (handle : SshHandle) (result : Int) :
      SessionStep ⟨.eventLoopDopoll, handle⟩ (afterEventLoopDopoll handle result).2
        (afterEventLoopDopoll handle result).1
  | sftpServerNew (handle : SshHandle) (result : Option Pointer) :
      SessionStep ⟨.sftpServerNew, handle⟩ (afterSftpServerNew handle result).2
        (afterSftpServerNew handle result).1
  | sftpServerInit (handle : SshHandle) (result : Int) :
      SessionStep ⟨.sftpServerInit, handle⟩ (afterSftpServerInit handle result).2
        (afterSftpServerInit handle result).1
  | getClientMessage (handle : SshHandle) (msg : Option SftpClientMessage) :
      SessionStep ⟨.getClientMessage, handle⟩ (afterGetClientMessage handle msg).2
        (afterGetClientMessage handle msg).1
  | channelIsOpen (handle : SshHandle) (result : Int) :
      SessionStep ⟨.channelIsOpen, handle⟩ (afterChannelIsOpen handle result).2
        (afterChannelIsOpen handle result).1

/-- The handle of `_handle_session`: what is not given is zero. -/
def SshHandle.new (hid : BitVec 32) (event session : Option Pointer) : SshHandle where
  hid := hid
  event := event
  session := session
  channel := none
  sftp := none
  params := ⟨false, false, 0⟩

/-- A run of `handle_session`, from its beginning on a handle. -/
def SessionRun (handle : SshHandle) (calls : List SessionCall) (st : SessionState) : Prop :=
  ∃ more, calls = (handleSession handle).2 ++ more ∧
    Systems.Run SessionStep (handleSession handle).1 more st

end Umsftpd
