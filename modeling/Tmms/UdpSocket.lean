import Tmms.MsgBuffer
import Tmms.TcpConnection

/-! The handlers of a UDP socket, written once for any surroundings. Datagrams that cannot
be sent at once wait in `buffer_list_` with their destination. -/
namespace Tmms.Network

open Reentrant

/-- `struct UdpBufferNode : public BufferNode`. Both declare a field `addr`; on a pointer to
the derived type the name means the socket address, and the payload is `base.addr`. -/
structure UdpBufferNode where
  base : BufferNode
  addr : Nat
  sock_len : Nat
  deriving DecidableEq, Repr

/-- The fields the handlers use. A callback field says whether the callback is set. -/
structure UdpSocket where
  fd_ : Int
  event_ : Mask
  closed_ : Bool
  buffer_list_ : List UdpBufferNode
  max_idle_time_ : Int
  message_buffer_ : MsgBuffer
  message_cb_ : Bool
  write_complete_cb_ : Bool
  close_cb_ : Bool

def message_buffer_size_ : Nat := 65535

/-- What the handlers use of their surroundings. Callback fields stand for the whole call
expression, the sender's address for `message_cb_` included. -/
structure UdpHost (σ Q A C M : Type) where
  self : Prog σ Q A C M UdpSocket
  update : (UdpSocket → UdpSocket) → Prog σ Q A C M Unit
  closeCallback : Prog σ Q A C M Unit
  messageCallback : Prog σ Q A C M Unit
  writeCompleteCallback : Prog σ Q A C M Unit
  -- descriptor, payload and its size, socket address and its length
  sendto : Int → Nat → Nat → Nat → Nat → Prog σ Q A C M Result
  recvfrom : Int → Nat → Prog σ Q A C M Result
  closeFd : Int → Prog σ Q A C M Unit
  enableWriting : Bool → Prog σ Q A C M Unit
  -- whether `timeout_entry_.lock()` finds the entry
  lockEntry : Prog σ Q A C M Bool
  insertEntry : Int → Prog σ Q A C M Unit
  onClose : Prog σ Q A C M Unit
  readLoop : Prog σ Q A C M Unit
  writeLoop : Prog σ Q A C M Unit

namespace UdpSocket

variable {σ Q A C M : Type} (H : UdpHost σ Q A C M)

def close : Prog σ Q A C M Unit := do
  let this ← H.self
  if this.fd_ > 0 then do
    H.closeFd this.fd_
    H.update fun c => { c with fd_ := -1 }

/-- Only a socket that is closed already is closed. -/
def onClose : Prog σ Q A C M Unit := do
  let this ← H.self
  if this.closed_ then do
    H.update fun c => { c with closed_ := true }
    if this.close_cb_ then H.closeCallback
    close H

def forceClose : Prog σ Q A C M Unit := H.onClose

def onError : Prog σ Q A C M Unit := H.onClose

/-- A timeout is logged and nothing else. -/
def onTimeout : Prog σ Q A C M Unit := pure ()

def entendLife : Prog σ Q A C M Unit := do
  let this ← H.self
  if (← H.lockEntry) then H.insertEntry this.max_idle_time_

/-- `recvfrom` writes at `beginWrite()`, then `hasWritten` moves the writer index. Past the
end of the vector this is undefined. -/
def received (data : List UInt8) (b : MsgBuffer) : Option MsgBuffer :=
  if data.length ≤ b.writableBytes then
    { b with buffer_ := MsgBuffer.copy data b.writerIndex_ b.buffer_ }.hasWritten data.length
  else none

def readLoop : Prog σ Q A C M Unit := do
  let this ← H.self
  let result ← H.recvfrom this.fd_ message_buffer_size_
  if result.ret > 0 then
    match received result.data this.message_buffer_ with
    | none => .fault
    | some filled => do
      H.update fun c => { c with message_buffer_ := filled }
      if this.message_cb_ then H.messageCallback
      H.update fun c => { c with message_buffer_ := c.message_buffer_.retrieveAll }
      H.readLoop
  else if result.ret < 0 then
    if fatal result.errno then H.onClose else pure ()
  else H.readLoop

def onRead : Prog σ Q A C M Unit := do
  let this ← H.self
  if this.closed_ then pure () else H.readLoop

def writeTurn : Prog σ Q A C M Unit := do
  let this ← H.self
  if this.buffer_list_ = [] then do
    if this.write_complete_cb_ then H.writeCompleteCallback
  else H.writeLoop

/-- One turn of the loop in `OnWrite`. The payload handed to `sendto` is `buf->addr`. -/
def writeLoop : Prog σ Q A C M Unit := do
  let this ← H.self
  match this.buffer_list_ with
  | [] => writeTurn H
  | buf :: _ => do
    let result ← H.sendto this.fd_ buf.addr buf.base.size buf.addr buf.sock_len
    if result.ret > 0 then do
      H.update fun c => { c with buffer_list_ := c.buffer_list_.tail }
      writeTurn H
    else if result.ret < 0 then
      if fatal result.errno then H.onClose else pure ()
    else writeTurn H

def onWrite : Prog σ Q A C M Unit := do
  let this ← H.self
  if this.closed_ then pure ()
  else do
    entendLife H
    H.writeLoop

def sendListInLoop (list : List UdpBufferNode) : Prog σ Q A C M Unit := do
  H.update fun c => { c with buffer_list_ := c.buffer_list_ ++ list }
  let this ← H.self
  if this.buffer_list_ ≠ [] then H.enableWriting true

/-- The end of `SendInLoop(const char *, size_t, sockaddr *, socklen_t)`. -/
def sendNode (buf size saddr len : Nat) : Prog σ Q A C M Unit := do
  H.update fun c => { c with buffer_list_ := c.buffer_list_ ++ [⟨⟨buf,size⟩,saddr,len⟩] }
  H.enableWriting true

def sendInLoop (buf size saddr len : Nat) : Prog σ Q A C M Unit := do
  let this ← H.self
  if this.buffer_list_ = [] then do
    let result ← H.sendto this.fd_ buf size saddr len
    if result.ret > 0 then pure () else sendNode H buf size saddr len
  else sendNode H buf size saddr len

inductive Query where
  | sendto (fd : Int) (buf size addr len : Nat)
  | recvfrom (fd : Int) (size : Nat)
  | close (fd : Int)
  | lockEntry
  | insertEntry (delay : Int)
  deriving DecidableEq

inductive Callback where
  | message
  | writeComplete
  | close
  deriving DecidableEq

/-- What can be called on a socket; the two loops call themselves. -/
inductive Method where
  | send (buf size addr len : Nat)
  | sendList (list : List UdpBufferNode)
  | onRead
  | readLoop
  | onWrite
  | writeLoop
  | onError
  | onTimeout
  | forceClose
  | onClose
  deriving DecidableEq

def body : Method → Prog σ Q A C M Unit
  | .send buf size addr len => sendInLoop H buf size addr len
  | .sendList list => sendListInLoop H list
  | .onRead => onRead H
  | .readLoop => readLoop H
  | .onWrite => onWrite H
  | .writeLoop => writeLoop H
  | .onError => onError H
  | .onTimeout => onTimeout
  | .forceClose => forceClose H
  | .onClose => onClose H

end UdpSocket
end Tmms.Network
