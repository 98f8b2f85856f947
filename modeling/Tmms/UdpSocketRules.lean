import Tmms.UdpSocket

/-! What the handlers of a UDP socket keep, whatever surrounds them. They touch the queue and
the receive buffer, make two callbacks, ask for their entry's life, and call `OnClose`. -/
namespace Tmms.Network

open Reentrant

variable {σ Q A C M : Type} {H : UdpHost σ Q A C M} {T : System σ Q A C M}
  {E : Environment σ Q A C M} {K : Contract σ Q C M} {ctx : List C} {I : σ → Prop}

namespace UdpSocket

def Plain (f : UdpSocket → UdpSocket) : Prop :=
  ∀ c, (f c).fd_ = c.fd_ ∧ (f c).closed_ = c.closed_ ∧ (f c).close_cb_ = c.close_cb_

end UdpSocket

structure UdpHost.Queues (H : UdpHost σ Q A C M) (T : System σ Q A C M) (E : Environment σ Q A C M)
    (K : Contract σ Q C M) (ctx : List C) (I : σ → Prop) : Prop where
  self : Kept T E K ctx I H.self fun _ => True
  queue : ∀ f : List UdpBufferNode → List UdpBufferNode,
    Kept T E K ctx I (H.update fun c => { c with buffer_list_ := f c.buffer_list_ }) fun _ => True
  sendto : ∀ fd buf size addr len, Kept T E K ctx I (H.sendto fd buf size addr len) fun _ => True
  enableWriting : ∀ on, Kept T E K ctx I (H.enableWriting on) fun _ => True

structure UdpHost.Drains (H : UdpHost σ Q A C M) (T : System σ Q A C M) (E : Environment σ Q A C M)
    (K : Contract σ Q C M) (ctx : List C) (I : σ → Prop) : Prop extends H.Queues T E K ctx I where
  writeCompleteCallback : Kept T E K ctx I H.writeCompleteCallback fun _ => True
  lockEntry : Kept T E K ctx I H.lockEntry fun _ => True
  insertEntry : ∀ delay, Kept T E K ctx I (H.insertEntry delay) fun _ => True
  onClose : Kept T E K ctx I H.onClose fun _ => True
  writeLoop : Kept T E K ctx I H.writeLoop fun _ => True

structure UdpHost.Sends (H : UdpHost σ Q A C M) (T : System σ Q A C M) (E : Environment σ Q A C M)
    (K : Contract σ Q C M) (ctx : List C) (I : σ → Prop) : Prop where
  self : Kept T E K ctx I H.self fun _ => True
  update : ∀ f, UdpSocket.Plain f → Kept T E K ctx I (H.update f) fun _ => True
  sendto : ∀ fd buf size addr len, Kept T E K ctx I (H.sendto fd buf size addr len) fun _ => True
  enableWriting : ∀ on, Kept T E K ctx I (H.enableWriting on) fun _ => True

/-- Each step of a handler keeps `I`; the receive buffer may overflow. -/
structure UdpHost.Keeps (H : UdpHost σ Q A C M) (T : System σ Q A C M) (E : Environment σ Q A C M)
    (K : Contract σ Q C M) (ctx : List C) (I : σ → Prop) : Prop extends H.Sends T E K ctx I where
  messageCallback : Kept T E K ctx I H.messageCallback fun _ => True
  writeCompleteCallback : Kept T E K ctx I H.writeCompleteCallback fun _ => True
  recvfrom : ∀ fd size, Kept T E K ctx I (H.recvfrom fd size) fun _ => True
  lockEntry : Kept T E K ctx I H.lockEntry fun _ => True
  insertEntry : ∀ delay, Kept T E K ctx I (H.insertEntry delay) fun _ => True
  onClose : Kept T E K ctx I H.onClose fun _ => True
  readLoop : Kept T E K ctx I H.readLoop fun _ => True
  writeLoop : Kept T E K ctx I H.writeLoop fun _ => True
  fault : K.mayFault

structure UdpHost.Receives (H : UdpHost σ Q A C M) (T : System σ Q A C M) (E : Environment σ Q A C M)
    (K : Contract σ Q C M) (ctx : List C) (I : σ → Prop) : Prop where
  self : Kept T E K ctx I H.self fun _ => True
  buffer : ∀ f : MsgBuffer → MsgBuffer,
    Kept T E K ctx I (H.update fun c => { c with message_buffer_ := f c.message_buffer_ }) fun _ => True
  messageCallback : Kept T E K ctx I H.messageCallback fun _ => True
  recvfrom : ∀ fd size, Kept T E K ctx I (H.recvfrom fd size) fun _ => True
  onClose : Kept T E K ctx I H.onClose fun _ => True
  readLoop : Kept T E K ctx I H.readLoop fun _ => True
  fault : K.mayFault

theorem UdpHost.Sends.queues (sends : H.Sends T E K ctx I) : H.Queues T E K ctx I where
  self := sends.self
  queue := fun _ => sends.update _ fun _ => ⟨rfl,rfl,rfl⟩
  sendto := sends.sendto
  enableWriting := sends.enableWriting

theorem UdpHost.Keeps.drains (keeps : H.Keeps T E K ctx I) : H.Drains T E K ctx I where
  toQueues := keeps.queues
  writeCompleteCallback := keeps.writeCompleteCallback
  lockEntry := keeps.lockEntry
  insertEntry := keeps.insertEntry
  onClose := keeps.onClose
  writeLoop := keeps.writeLoop

theorem UdpHost.Keeps.receives (keeps : H.Keeps T E K ctx I) : H.Receives T E K ctx I where
  self := keeps.self
  buffer := fun _ => keeps.update _ fun _ => ⟨rfl,rfl,rfl⟩
  messageCallback := keeps.messageCallback
  recvfrom := keeps.recvfrom
  onClose := keeps.onClose
  readLoop := keeps.readLoop
  fault := keeps.fault

namespace UdpSocket

section Queues
variable (queues : H.Queues T E K ctx I)
include queues

theorem sendListInLoop_kept (list : List UdpBufferNode) :
    Kept T E K ctx I (sendListInLoop H list) fun _ => True := by
  refine .bind (queues.queue (· ++ list)) fun _ _ => .bind queues.self fun _ _ => ?_
  exact .ite (fun _ => queues.enableWriting true) fun _ => .pure trivial

theorem sendNode_kept (buf size saddr len : Nat) :
    Kept T E K ctx I (sendNode H buf size saddr len) fun _ => True :=
  .bind (queues.queue (· ++ [⟨⟨buf,size⟩,saddr,len⟩])) fun _ _ => queues.enableWriting true

theorem sendInLoop_kept (buf size saddr len : Nat) :
    Kept T E K ctx I (sendInLoop H buf size saddr len) fun _ => True := by
  refine .bind queues.self fun _ _ => .ite (fun _ => ?_) fun _ => sendNode_kept queues _ _ _ _
  refine .bind (queues.sendto _ _ _ _ _) fun a _ => ?_
  exact .ite (fun _ => .pure trivial) fun _ => sendNode_kept queues _ _ _ _

end Queues

theorem entendLife_kept (self : Kept T E K ctx I H.self fun _ => True)
    (lockEntry : Kept T E K ctx I H.lockEntry fun _ => True)
    (insertEntry : ∀ delay, Kept T E K ctx I (H.insertEntry delay) fun _ => True) :
    Kept T E K ctx I (entendLife H) fun _ => True := by
  refine .bind self fun this _ => .bind lockEntry fun locked _ => ?_
  exact .ite (fun _ => insertEntry _) fun _ => .pure trivial

theorem onWrite_kept (self : Kept T E K ctx I H.self fun _ => True)
    (lockEntry : Kept T E K ctx I H.lockEntry fun _ => True)
    (insertEntry : ∀ delay, Kept T E K ctx I (H.insertEntry delay) fun _ => True)
    (writeLoop : Kept T E K ctx I H.writeLoop fun _ => True) : Kept T E K ctx I (onWrite H) fun _ => True := by
  refine .bind self fun _ _ => .ite (fun _ => .pure trivial) fun _ => ?_
  exact .bind (entendLife_kept self lockEntry insertEntry) fun _ _ => writeLoop

theorem writeTurn_kept (self : Kept T E K ctx I H.self fun _ => True)
    (writeCompleteCallback : Kept T E K ctx I H.writeCompleteCallback fun _ => True)
    (writeLoop : Kept T E K ctx I H.writeLoop fun _ => True) : Kept T E K ctx I (writeTurn H) fun _ => True := by
  refine .bind self fun this _ => .ite (fun _ => ?_) fun _ => writeLoop
  exact .ite (fun _ => writeCompleteCallback) fun _ => .pure trivial

theorem writeLoop_kept (drains : H.Drains T E K ctx I) : Kept T E K ctx I (writeLoop H) fun _ => True := by
  have turn := writeTurn_kept drains.self drains.writeCompleteCallback drains.writeLoop
  refine .bind drains.self fun this _ => ?_
  cases this.buffer_list_ with
  | nil => exact turn
  | cons buf rest =>
    refine .bind (drains.sendto _ _ _ _ _) fun a _ => .ite (fun _ => ?_) fun _ => .ite (fun _ => ?_) fun _ => turn
    · exact .bind (drains.queue List.tail) fun _ _ => turn
    · exact .ite (fun _ => drains.onClose) fun _ => .pure trivial

theorem close_kept (self : Kept T E K ctx I H.self fun _ => True)
    (closeFd : ∀ fd, Kept T E K ctx I (H.closeFd fd) fun _ => True)
    (gone : Kept T E K ctx I (H.update fun c => { c with fd_ := -1 }) fun _ => True) :
    Kept T E K ctx I (close H) fun _ => True := by
  refine .bind self fun this _ => .ite (fun _ => ?_) fun _ => .pure trivial
  exact .bind (closeFd this.fd_) fun _ _ => gone

theorem onClose_kept (self : Kept T E K ctx I H.self fun _ => True)
    (closeCallback : Kept T E K ctx I H.closeCallback fun _ => True)
    (closed : Kept T E K ctx I (H.update fun c => { c with closed_ := true }) fun _ => True)
    (close : Kept T E K ctx I (close H) fun _ => True) : Kept T E K ctx I (onClose H) fun _ => True := by
  refine .bind self fun this _ => .ite (fun _ => ?_) fun _ => .pure trivial
  refine .bind closed fun _ _ => .ite (fun _ => ?_) fun _ => close
  exact .bind closeCallback fun _ _ => close

theorem onRead_kept (self : Kept T E K ctx I H.self fun _ => True)
    (readLoop : Kept T E K ctx I H.readLoop fun _ => True) : Kept T E K ctx I (onRead H) fun _ => True :=
  .bind self fun _ _ => .ite (fun _ => .pure trivial) fun _ => readLoop

theorem readLoop_of_receives (receives : H.Receives T E K ctx I) :
    Kept T E K ctx I (readLoop H) fun _ => True := by
  have finish : Kept T E K ctx I (do
      H.update fun c => { c with message_buffer_ := c.message_buffer_.retrieveAll }
      H.readLoop) fun _ => True :=
    .bind (receives.buffer MsgBuffer.retrieveAll) fun _ _ => receives.readLoop
  refine .bind receives.self fun this _ => .bind (receives.recvfrom _ _) fun a _ => .ite (fun _ => ?_) fun _ => ?_
  · cases received a.data this.message_buffer_ with
    | none => exact fun _ _ => receives.fault
    | some filled =>
      refine .bind (receives.buffer fun _ => filled) fun _ _ => .ite (fun _ => ?_) fun _ => finish
      exact .bind receives.messageCallback fun _ _ => finish
  · refine .ite (fun _ => ?_) fun _ => receives.readLoop
    exact .ite (fun _ => receives.onClose) fun _ => .pure trivial

variable (keeps : H.Keeps T E K ctx I)
include keeps

theorem readLoop_kept : Kept T E K ctx I (readLoop H) fun _ => True := readLoop_of_receives keeps.receives

theorem body_kept (m : Method) (other : m ≠ .onClose) : Kept T E K ctx I (body H m) fun _ => True := by
  cases m with
  | send buf size addr len => exact sendInLoop_kept keeps.queues buf size addr len
  | sendList list => exact sendListInLoop_kept keeps.queues list
  | onRead => exact onRead_kept keeps.self keeps.readLoop
  | readLoop => exact readLoop_kept keeps
  | onWrite => exact onWrite_kept keeps.self keeps.lockEntry keeps.insertEntry keeps.writeLoop
  | writeLoop => exact writeLoop_kept keeps.drains
  | onTimeout => exact .pure trivial
  | onError | forceClose => exact keeps.onClose
  | onClose => contradiction

end UdpSocket

structure UdpHost.Steady (H : UdpHost σ Q A C M) (R : σ → σ → Prop) : Prop where
  self : H.self.Steady R
  update : ∀ f, (H.update f).Steady R
  closeCallback : H.closeCallback.Steady R
  messageCallback : H.messageCallback.Steady R
  writeCompleteCallback : H.writeCompleteCallback.Steady R
  sendto : ∀ fd buf size addr len, (H.sendto fd buf size addr len).Steady R
  recvfrom : ∀ fd size, (H.recvfrom fd size).Steady R
  closeFd : ∀ fd, (H.closeFd fd).Steady R
  enableWriting : ∀ on, (H.enableWriting on).Steady R
  lockEntry : H.lockEntry.Steady R
  insertEntry : ∀ delay, (H.insertEntry delay).Steady R
  onClose : H.onClose.Steady R
  readLoop : H.readLoop.Steady R
  writeLoop : H.writeLoop.Steady R

namespace UdpSocket

section Steady
variable {R : σ → σ → Prop} (steady : H.Steady R)
include steady

theorem onClose_steady : (onClose H).Steady R := by
  have finish : (close H).Steady R := by
    refine .bind steady.self fun this => .ite ?_ fun _ => trivial
    exact .bind (steady.closeFd _) fun _ => steady.update _
  refine .bind steady.self fun this => .ite (.bind (steady.update _) fun _ => .ite ?_ finish) fun _ => trivial
  exact .bind steady.closeCallback fun _ => finish

theorem readLoop_steady : (readLoop H).Steady R := by
  have finish := Prog.Steady.bind (steady.update fun c => { c with message_buffer_ := c.message_buffer_.retrieveAll })
    fun _ => steady.readLoop
  refine .bind steady.self fun this => .bind (steady.recvfrom _ _) fun a => .ite ?_ (.ite ?_ steady.readLoop)
  · cases received a.data this.message_buffer_ with
    | none => exact fun _ => trivial
    | some filled =>
      refine .bind (steady.update _) fun _ => .ite ?_ finish
      exact .bind steady.messageCallback fun _ => finish
  · exact .ite steady.onClose fun _ => trivial

theorem writeTurn_steady : (writeTurn H).Steady R := by
  refine .bind steady.self fun this => .ite ?_ steady.writeLoop
  exact .ite steady.writeCompleteCallback fun _ => trivial

theorem writeLoop_steady : (writeLoop H).Steady R := by
  have turn := writeTurn_steady steady
  refine .bind steady.self fun this => ?_
  cases this.buffer_list_ with
  | nil => exact turn
  | cons buf rest =>
    refine .bind (steady.sendto _ _ _ _ _) fun a => .ite ?_ (.ite ?_ turn)
    · exact .bind (steady.update _) fun _ => turn
    · exact .ite steady.onClose fun _ => trivial

theorem onWrite_steady : (onWrite H).Steady R := by
  have extends_ : (entendLife H).Steady R := by
    refine .bind steady.self fun this => .bind steady.lockEntry fun locked => ?_
    exact .ite (steady.insertEntry _) fun _ => trivial
  refine .bind steady.self fun this => .ite (fun _ => trivial) ?_
  exact .bind extends_ fun _ => steady.writeLoop

theorem sendNode_steady (buf size saddr len : Nat) : (sendNode H buf size saddr len).Steady R :=
  .bind (steady.update _) fun _ => steady.enableWriting true

theorem sendInLoop_steady (buf size saddr len : Nat) : (sendInLoop H buf size saddr len).Steady R := by
  have queues := sendNode_steady steady buf size saddr len
  refine .bind steady.self fun this => .ite ?_ queues
  exact .bind (steady.sendto _ _ _ _ _) fun a => .ite (fun _ => trivial) queues

theorem sendListInLoop_steady (list : List UdpBufferNode) : (sendListInLoop H list).Steady R := by
  refine .bind (steady.update _) fun _ => .bind steady.self fun this => ?_
  exact .ite (steady.enableWriting true) fun _ => trivial

theorem body_steady (m : Method) : (body H m).Steady R := by
  cases m with
  | send buf size addr len => exact sendInLoop_steady steady buf size addr len
  | sendList list => exact sendListInLoop_steady steady list
  | onRead => exact .bind steady.self fun this => .ite (fun _ => trivial) steady.readLoop
  | readLoop => exact readLoop_steady steady
  | onWrite => exact onWrite_steady steady
  | writeLoop => exact writeLoop_steady steady
  | onTimeout => exact fun _ => trivial
  | onError | forceClose => exact steady.onClose
  | onClose => exact onClose_steady steady

end Steady
end UdpSocket
end Tmms.Network
