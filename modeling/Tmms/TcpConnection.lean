import Tmms.Event
import Tmms.ReentrantRules

/-! The handlers of a TCP connection, written once for any surroundings that give them a
socket, a loop and callbacks. All of them run on the loop's thread, where `RunInLoop`
calls its argument at once and `AssertInLoopThread` does nothing. -/
namespace Tmms.Network

open Reentrant

def EINTR : Nat := 4
def EBADF : Nat := 9
def EAGAIN : Nat := 11
def EWOULDBLOCK : Nat := 11

/-- `errno != EINTR && errno != EAGAIN && errno != EWOULDBLOCK` -/
def fatal (errno : Nat) : Bool := errno != EINTR && errno != EAGAIN && errno != EWOULDBLOCK

/-- What a system call gives back: its value, `errno`, and the bytes it delivered. -/
structure Result where
  ret : Int
  errno : Nat
  data : List UInt8
  deriving DecidableEq, Repr

def toSize (value : Int) : Nat := (value % 2^64).toNat

def subSize (a b : Nat) : Nat := (a + 2^64 - b) % 2^64

def addPtr (pointer offset : Nat) : Nat := (pointer + offset) % 2^64

structure IoVec where
  iov_base : Nat
  iov_len : Nat
  deriving DecidableEq, Repr

structure BufferNode where
  addr : Nat
  size : Nat
  deriving DecidableEq, Repr

/-- The fields the handlers use: of `message_buffer_` the readable bytes, of a callback whether it
is set. -/
structure TcpConnection where
  fd_ : Int
  event_ : Mask
  closed_ : Bool
  close_cb_ : Bool
  message_cb_ : Bool
  write_complete_cb_ : Bool
  message_buffer_ : List UInt8
  io_vec_li_ : List IoVec

/-- The inner loop of `OnWrite`: drop `ret` written bytes from the front of the queue.
`none` is `front()` of an empty vector. -/
def consume : List IoVec → Nat → Option (List IoVec)
  | queue,0 => some queue
  | [],_ + 1 => none
  | vec :: queue,ret + 1 =>
    if vec.iov_len > ret + 1 then
      some (⟨addPtr vec.iov_base (ret + 1),vec.iov_len - (ret + 1)⟩ :: queue)
    else consume queue (ret + 1 - vec.iov_len)

/-- What the handlers use of their surroundings. Callback fields stand for the whole call
expression, `shared_from_this()` included. -/
structure Host (σ Q A C M : Type) where
  self : Prog σ Q A C M TcpConnection
  update : (TcpConnection → TcpConnection) → Prog σ Q A C M Unit
  closeCallback : Prog σ Q A C M Unit
  messageCallback : Prog σ Q A C M Unit
  writeCompleteCallback : Prog σ Q A C M Unit
  write : Int → Nat → Nat → Prog σ Q A C M Result
  writev : Int → List IoVec → Prog σ Q A C M Result
  readFd : Int → Prog σ Q A C M Result
  closeFd : Int → Prog σ Q A C M Unit
  enableWriting : Bool → Prog σ Q A C M Unit
  onClose : Prog σ Q A C M Unit
  -- the next turn of the `while (true)` of `OnRead` and of `OnWrite`
  readLoop : Prog σ Q A C M Unit
  writeLoop : Prog σ Q A C M Unit

namespace TcpConnection

variable {σ Q A C M : Type} (H : Host σ Q A C M)

/-- `Event::Close` -/
def close : Prog σ Q A C M Unit := do
  let this ← H.self
  if this.fd_ > 0 then do
    H.closeFd this.fd_
    H.update fun c => { c with fd_ := -1 }

def onClose : Prog σ Q A C M Unit := do
  let this ← H.self
  if this.closed_ = false then do
    if this.close_cb_ then H.closeCallback
    H.update fun c => { c with closed_ := true }
    close H

def forceClose : Prog σ Q A C M Unit := H.onClose

def onError : Prog σ Q A C M Unit := H.onClose

def onTimeout : Prog σ Q A C M Unit := H.onClose

def readLoop : Prog σ Q A C M Unit := do
  let this ← H.self
  let result ← H.readFd this.fd_
  if result.ret > 0 then do
    H.update fun c => { c with message_buffer_ := c.message_buffer_ ++ result.data }
    let this ← H.self
    if this.message_cb_ then H.messageCallback
    H.readLoop
  else if result.ret = 0 then H.onClose
  else if fatal result.errno then H.onClose
  else pure ()

def onRead : Prog σ Q A C M Unit := do
  let this ← H.self
  if this.closed_ then pure () else H.readLoop

def writeComplete : Prog σ Q A C M Unit := do
  let this ← H.self
  if this.write_complete_cb_ then H.writeCompleteCallback

def writeLoop : Prog σ Q A C M Unit := do
  let this ← H.self
  let result ← H.writev this.fd_ this.io_vec_li_
  if result.ret ≥ 0 then
    match consume this.io_vec_li_ result.ret.toNat with
    | none => .fault
    | some queue => do
      H.update fun c => { c with io_vec_li_ := queue }
      if queue = [] then do
        H.enableWriting false
        writeComplete H
      else H.writeLoop
  else if fatal result.errno then H.onClose
  else pure ()

def onWrite : Prog σ Q A C M Unit := do
  let this ← H.self
  if this.closed_ then pure ()
  else if this.io_vec_li_ ≠ [] then H.writeLoop
  else do
    H.enableWriting false
    writeComplete H

def sendListInLoop (list : List BufferNode) : Prog σ Q A C M Unit := do
  let this ← H.self
  if this.closed_ then pure ()
  else do
    H.update fun c => { c with io_vec_li_ := c.io_vec_li_ ++ list.map fun l => ⟨l.addr,l.size⟩ }
    let this ← H.self
    if this.io_vec_li_ ≠ [] then H.enableWriting true

/-- The end of `SendInLoop(const char *, size_t)`, after `size -= send_len`. -/
def sendRest (buf send_len size : Nat) : Prog σ Q A C M Unit := do
  if size = 0 then writeComplete H
  else do
    H.update fun c => { c with io_vec_li_ := c.io_vec_li_ ++ [⟨addPtr buf send_len,size⟩] }
    H.enableWriting true

/-- `SendInLoop(const char *, size_t)`. The result of `write` is stored in a `size_t`
before it is compared with zero. -/
def sendInLoop (buf size : Nat) : Prog σ Q A C M Unit := do
  let this ← H.self
  if this.closed_ then pure ()
  else if this.io_vec_li_ = [] then do
    let result ← H.write this.fd_ buf size
    let send_len := toSize result.ret
    if send_len < 0 then
      if fatal result.errno then H.onClose else sendRest H buf 0 size
    else sendRest H buf send_len (subSize size send_len)
  else sendRest H buf 0 size

inductive Query where
  | write (fd : Int) (buf size : Nat)
  | writev (fd : Int) (vec : List IoVec)
  | readFd (fd : Int)
  | close (fd : Int)
  deriving DecidableEq

inductive Callback where
  | message
  | writeComplete
  | close
  deriving DecidableEq

/-- What can be called on a connection; the two loops call themselves. -/
inductive Method where
  | send (buf size : Nat)
  | sendList (list : List BufferNode)
  -- user code takes bytes out of the buffer it was given
  | retrieve (count : Nat)
  | onRead
  | readLoop
  | onWrite
  | writeLoop
  | onError
  | onTimeout
  | forceClose
  | onClose
  deriving DecidableEq

def body : Method → Prog σ Q A C M Unit
  | .send buf size => sendInLoop H buf size
  | .sendList list => sendListInLoop H list
  | .retrieve count => H.update fun c => { c with message_buffer_ := c.message_buffer_.drop count }
  | .onRead => onRead H
  | .readLoop => readLoop H
  | .onWrite => onWrite H
  | .writeLoop => writeLoop H
  | .onError => onError H
  | .onTimeout => onTimeout H
  | .forceClose => forceClose H
  | .onClose => onClose H

def closes : Method → Bool
  | .onError | .onTimeout | .forceClose | .onClose => true
  | _ => false

end TcpConnection
end Tmms.Network
