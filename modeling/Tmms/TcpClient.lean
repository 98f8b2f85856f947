import Tmms.TcpConnectionRules

/-! The handlers a TCP client has of its own, written once for any surroundings. They go by
`status_`, which the base class knows nothing of, and hand the rest to the base class. -/
namespace Tmms.Network

open Reentrant

def EINPROGRESS : Nat := 115

/-- What the client's handlers use of their surroundings beside what the base class uses;
`getsockopt` is for `SO_ERROR`. -/
structure ClientHost (σ Q A C M : Type) where
  connection : Host σ Q A C M
  status_ : Prog σ Q A C M Int
  setStatus : Int → Prog σ Q A C M Unit
  connect_cb_ : Prog σ Q A C M Bool
  connectCallback : Prog σ Q A C M Unit
  socket : Prog σ Q A C M Result
  connect : Int → Prog σ Q A C M Result
  getsockopt : Int → Prog σ Q A C M Result
  addEvent : Prog σ Q A C M Unit
  delEvent : Prog σ Q A C M Unit

namespace TcpClient

def kTcpConStatusInit : Int := 0
def kTcpConStatusConnecting : Int := 1
def kTcpConStatusConnected : Int := 2
def kTcpConStatusDisConnected : Int := 3

variable {σ Q A C M : Type} (H : ClientHost σ Q A C M)

def updateConnectionStatus : Prog σ Q A C M Unit := do
  H.setStatus kTcpConStatusConnected
  if (← H.connect_cb_) then H.connectCallback

/-- `getsockopt` stores into `errno`, and the `error` that is tested stays 0. -/
def checkError : Prog σ Q A C M Bool := do
  let this ← H.connection.self
  let error := 0
  let _ ← H.getsockopt this.fd_
  return error != 0

/-- `OnRead` and `OnWrite`: while the connection is being made, either says that it is. -/
def onEvent (connected : Prog σ Q A C M Unit) : Prog σ Q A C M Unit := do
  let status ← H.status_
  if status = kTcpConStatusConnecting then do
    if (← checkError H) then H.connection.onClose
    else updateConnectionStatus H
  else if status = kTcpConStatusConnected then connected
  else pure ()

def onRead : Prog σ Q A C M Unit := onEvent H (TcpConnection.onRead H.connection)

def onWrite : Prog σ Q A C M Unit := onEvent H (TcpConnection.onWrite H.connection)

def onClose : Prog σ Q A C M Unit := do
  let status ← H.status_
  if status = kTcpConStatusConnecting ∨ status = kTcpConStatusConnected then H.delEvent
  H.setStatus kTcpConStatusDisConnected
  TcpConnection.onClose H.connection

def connectEnded (result : Result) : Prog σ Q A C M Unit :=
  if result.ret = 0 then updateConnectionStatus H
  else if result.ret = -1 then
    if result.errno ≠ EINPROGRESS then H.connection.onClose else pure ()
  else pure ()

def connectInLoop : Prog σ Q A C M Unit := do
  let result ← H.socket
  H.connection.update fun c => { c with fd_ := result.ret }
  if result.ret < 0 then H.connection.onClose
  else do
    H.setStatus kTcpConStatusConnecting
    H.addEvent
    H.connection.enableWriting true
    let this ← H.connection.self
    let result ← H.connect this.fd_
    connectEnded H result

def send (inLoop : Prog σ Q A C M Unit) : Prog σ Q A C M Unit := do
  let status ← H.status_
  if status = kTcpConStatusConnected then inLoop

inductive Query where
  | connection (q : TcpConnection.Query)
  | socket
  | connect (fd : Int)
  | getsockopt (fd : Int)
  deriving DecidableEq

inductive Callback where
  | connection (t : TcpConnection.Callback)
  | connect
  deriving DecidableEq

/-- What can be called on a client. Through a pointer to the base class, `Send` is the base
class's own. -/
inductive Method where
  | connection (m : TcpConnection.Method)
  | connect
  | baseSend (buf size : Nat)
  | baseSendList (list : List BufferNode)
  deriving DecidableEq

def body : Method → Prog σ Q A C M Unit
  | .connect => connectInLoop H
  | .baseSend buf size => TcpConnection.sendInLoop H.connection buf size
  | .baseSendList list => TcpConnection.sendListInLoop H.connection list
  | .connection .onRead => onRead H
  | .connection .onWrite => onWrite H
  | .connection .onClose => onClose H
  | .connection (.send buf size) => send H (TcpConnection.sendInLoop H.connection buf size)
  | .connection (.sendList list) => send H (TcpConnection.sendListInLoop H.connection list)
  | .connection m => TcpConnection.body H.connection m

end TcpClient
end Tmms.Network
