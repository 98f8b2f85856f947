import Tmms.TcpConnection

/-! What the handlers keep, whatever surrounds them. They touch the connection's buffer,
queue and mask, make two callbacks, and close the connection on a few answers only; so an
invariant that each of these steps keeps is kept by every handler. -/
namespace Tmms.Network

open Reentrant

def total (vec : List IoVec) : Nat := (vec.map IoVec.iov_len).sum

def Result.ended (a : Result) : Prop := a.ret ≤ 0 ∧ (a.ret = 0 ∨ fatal a.errno = true)

def Result.failed (a : Result) : Prop := a.ret < 0 ∧ fatal a.errno = true

/-- Answers that make a handler close the connection. -/
def TcpConnection.ends (q : TcpConnection.Query) (a : Result) : Bool :=
  match q with
  | .readFd _ => decide (a.ret ≤ 0) && (a.ret == 0 || fatal a.errno)
  | .writev _ _ => decide (a.ret < 0) && fatal a.errno
  | _ => false

theorem Result.ended.ends {a : Result} (ended : a.ended) (fd : Int) :
    TcpConnection.ends (.readFd fd) a = true := by
  simpa [TcpConnection.ends,Result.ended] using ended

theorem Result.failed.ends {a : Result} (failed : a.failed) (fd : Int) (vec : List IoVec) :
    TcpConnection.ends (.writev fd vec) a = true := by
  simpa [TcpConnection.ends,Result.failed] using failed

/-- `consume` runs off the end of the queue only past its last byte. -/
theorem consume_total (queue : List IoVec) (ret : Nat) (bound : ret ≤ total queue) :
    ∃ rest, consume queue ret = some rest := by
  induction queue generalizing ret with
  | nil =>
    have none : ret = 0 := Nat.le_zero.mp bound
    subst none
    exact ⟨[],rfl⟩
  | cons vec queue ih =>
    cases ret with
    | zero => exact ⟨vec :: queue,rfl⟩
    | succ ret =>
      by_cases inside : vec.iov_len > ret + 1
      · exact ⟨_,if_pos inside⟩
      · have bounded : ret + 1 - vec.iov_len ≤ total queue := by
          simp only [total,List.map_cons,List.sum_cons] at bound ⊢
          omega
        obtain ⟨rest,consumed⟩ := ih (ret + 1 - vec.iov_len) bounded
        exact ⟨rest,(if_neg inside).trans consumed⟩

theorem consume_ne_none {queue : List IoVec} {ret : Nat} (bound : ret ≤ total queue) : consume queue ret ≠ none := by
  obtain ⟨rest,consumed⟩ := consume_total queue ret bound
  rw [consumed]
  exact Option.some_ne_none rest

theorem consume_empty {queue rest : List IoVec} {ret : Nat} (consumed : consume queue ret = some rest)
    (empty : queue = []) : rest = [] := by
  subst empty
  cases ret with
  | zero =>
    cases consumed
    rfl
  | succ ret => cases consumed

def Plain (f : TcpConnection → TcpConnection) : Prop :=
  ∀ c, (f c).fd_ = c.fd_ ∧ (f c).closed_ = c.closed_ ∧ (f c).event_ = c.event_ ∧ (f c).close_cb_ = c.close_cb_

variable {σ Q A C M : Type} {H : Host σ Q A C M} {T : System σ Q A C M}
  {E : Environment σ Q A C M} {K : Contract σ Q C M} {ctx : List C} {I : σ → Prop}
  {mayClose : σ → Prop}

structure Host.Sends (H : Host σ Q A C M) (T : System σ Q A C M) (E : Environment σ Q A C M)
    (K : Contract σ Q C M) (ctx : List C) (I : σ → Prop) : Prop where
  self : Kept T E K ctx I H.self fun _ => True
  update : ∀ f, Plain f → Kept T E K ctx I (H.update f) fun _ => True
  writeCompleteCallback : Kept T E K ctx I H.writeCompleteCallback fun _ => True
  write : ∀ fd buf size, Kept T E K ctx I (H.write fd buf size) fun _ => True
  enableWriting : ∀ on, Kept T E K ctx I (H.enableWriting on) fun _ => True

/-- Each step of a handler keeps `I`; a handler closes the connection only where `mayClose`. -/
structure Host.Keeps (H : Host σ Q A C M) (T : System σ Q A C M) (E : Environment σ Q A C M)
    (K : Contract σ Q C M) (ctx : List C) (I mayClose : σ → Prop) : Prop extends H.Sends T E K ctx I where
  messageCallback : Kept T E K ctx I H.messageCallback fun _ => True
  writev : ∀ fd vec, Triple T E K ctx I (H.writev fd vec) fun a after =>
    (a.ret ≤ total vec ∧ (a.failed → mayClose after)) ∧ I after
  readFd : ∀ fd, Triple T E K ctx I (H.readFd fd) fun a after => (a.ended → mayClose after) ∧ I after
  onClose : Triple T E K ctx (fun s => mayClose s ∧ I s) H.onClose fun _ after => True ∧ I after
  readLoop : Kept T E K ctx I H.readLoop fun _ => True
  writeLoop : Kept T E K ctx I H.writeLoop fun _ => True

structure Host.Reads (H : Host σ Q A C M) (T : System σ Q A C M) (E : Environment σ Q A C M)
    (K : Contract σ Q C M) (ctx : List C) (I mayClose : σ → Prop) : Prop where
  self : Kept T E K ctx I H.self fun _ => True
  append : ∀ data, Kept T E K ctx I
    (H.update fun c => { c with message_buffer_ := c.message_buffer_ ++ data }) fun _ => True
  messageCallback : Kept T E K ctx I H.messageCallback fun _ => True
  readFd : ∀ fd, Triple T E K ctx I (H.readFd fd) fun a after => (a.ended → mayClose after) ∧ I after
  onClose : Triple T E K ctx (fun s => mayClose s ∧ I s) H.onClose fun _ after => True ∧ I after
  readLoop : Kept T E K ctx I H.readLoop fun _ => True

structure Host.Writes (H : Host σ Q A C M) (T : System σ Q A C M) (E : Environment σ Q A C M)
    (K : Contract σ Q C M) (ctx : List C) (I mayClose : σ → Prop) : Prop extends H.Sends T E K ctx I where
  writev : ∀ fd vec, Triple T E K ctx I (H.writev fd vec) fun a after =>
    (a.ret ≤ total vec ∧ (a.failed → mayClose after)) ∧ I after
  onClose : Triple T E K ctx (fun s => mayClose s ∧ I s) H.onClose fun _ after => True ∧ I after
  writeLoop : Kept T E K ctx I H.writeLoop fun _ => True

theorem Host.Keeps.writes (keeps : H.Keeps T E K ctx I mayClose) : H.Writes T E K ctx I mayClose where
  toSends := keeps.toSends
  writev := keeps.writev
  onClose := keeps.onClose
  writeLoop := keeps.writeLoop

theorem Host.Keeps.reads (keeps : H.Keeps T E K ctx I mayClose) : H.Reads T E K ctx I mayClose where
  self := keeps.self
  append := fun _ => keeps.update _ fun _ => ⟨rfl,rfl,rfl,rfl⟩
  messageCallback := keeps.messageCallback
  readFd := keeps.readFd
  onClose := keeps.onClose
  readLoop := keeps.readLoop

namespace TcpConnection

theorem onClose_kept (self : Kept T E K ctx I H.self fun _ => True)
    (callback : Kept T E K ctx I H.closeCallback fun _ => True)
    (mark : Kept T E K ctx I (H.update fun c => { c with closed_ := true }) fun _ => True)
    (close : Kept T E K ctx I (close H) fun _ => True) :
    Kept T E K ctx I (onClose H) fun _ => True := by
  have finish := Kept.bind mark fun _ _ => close
  apply Kept.bind self
  intro this _
  apply Kept.ite
  · intro _
    apply Kept.ite
    · exact fun _ => Kept.bind callback fun _ _ => finish
    · exact fun _ => finish
  · exact fun _ => Kept.pure trivial

theorem close_kept (self : Kept T E K ctx I H.self fun _ => True)
    (closeFd : ∀ fd, Kept T E K ctx I (H.closeFd fd) fun _ => True)
    (forget : Kept T E K ctx I (H.update fun c => { c with fd_ := -1 }) fun _ => True) :
    Kept T E K ctx I (close H) fun _ => True := by
  apply Kept.bind self
  intro this _
  apply Kept.ite
  · exact fun _ => Kept.bind (closeFd this.fd_) fun _ _ => forget
  · exact fun _ => Kept.pure trivial

section Sends
variable (sends : H.Sends T E K ctx I)
include sends

theorem writeComplete_kept : Kept T E K ctx I (writeComplete H) fun _ => True := by
  apply Kept.bind sends.self
  intro this _
  apply Kept.ite
  · exact fun _ => sends.writeCompleteCallback
  · exact fun _ => Kept.pure trivial

theorem sendListInLoop_kept (list : List BufferNode) :
    Kept T E K ctx I (sendListInLoop H list) fun _ => True := by
  apply Kept.bind sends.self
  intro this _
  apply Kept.ite
  · exact fun _ => Kept.pure trivial
  · intro _
    refine Kept.bind (sends.update _ ?_) ?_
    · exact fun _ => ⟨rfl,rfl,rfl,rfl⟩
    intro _ _
    apply Kept.bind sends.self
    intro this _
    apply Kept.ite
    · exact fun _ => sends.enableWriting true
    · exact fun _ => Kept.pure trivial

theorem sendRest_kept (buf send_len size : Nat) :
    Kept T E K ctx I (sendRest H buf send_len size) fun _ => True := by
  apply Kept.ite
  · exact fun _ => writeComplete_kept sends
  · intro _
    refine Kept.bind (sends.update _ ?_) ?_
    · exact fun _ => ⟨rfl,rfl,rfl,rfl⟩
    exact fun _ _ => sends.enableWriting true

/-- The branch for a fatal error is dead: an unsigned length is never negative. -/
theorem sendInLoop_kept (buf size : Nat) :
    Kept T E K ctx I (sendInLoop H buf size) fun _ => True := by
  apply Kept.bind sends.self
  intro this _
  apply Kept.ite
  · exact fun _ => Kept.pure trivial
  · intro _
    apply Kept.ite
    · intro _
      apply Kept.bind (sends.write this.fd_ buf size)
      intro a _
      apply Kept.ite
      · exact fun negative => absurd negative (Nat.not_lt_zero _)
      · exact fun _ => sendRest_kept sends buf _ _
    · exact fun _ => sendRest_kept sends buf 0 size

end Sends

section Reads
variable (reads : H.Reads T E K ctx I mayClose)
include reads

theorem readLoop_of_reads : Kept T E K ctx I (readLoop H) fun _ => True := by
  apply Kept.bind reads.self
  intro this _
  have deliver : Kept T E K ctx I (do
      let this ← H.self
      if this.message_cb_ then H.messageCallback
      H.readLoop) fun _ => True := by
    apply Kept.bind reads.self
    intro this _
    apply Kept.ite
    · exact fun _ => Kept.bind reads.messageCallback fun _ _ => reads.readLoop
    · exact fun _ => reads.readLoop
  apply Triple.bind (reads.readFd this.fd_)
  intro a
  apply Triple.ite
  · intro _
    exact Triple.mono (Kept.bind (reads.append a.data) fun _ _ => deliver) (fun _ read => read.2) fun _ _ => id
  · intro unread
    have nonpositive : a.ret ≤ 0 := by omega
    apply Triple.ite
    · intro eof
      exact reads.onClose.mono (fun _ read => ⟨read.1 ⟨nonpositive,Or.inl eof⟩,read.2⟩) fun _ _ => id
    · intro _
      apply Triple.ite
      · intro fails
        exact reads.onClose.mono (fun _ read => ⟨read.1 ⟨nonpositive,Or.inr fails⟩,read.2⟩) fun _ _ => id
      · exact fun _ _ read => ⟨trivial,read.2⟩

end Reads

section Writes
variable (writes : H.Writes T E K ctx I mayClose)
include writes

theorem writeLoop_of_writes : Kept T E K ctx I (writeLoop H) fun _ => True := by
  apply Kept.bind writes.self
  intro this _
  apply Triple.bind (writes.writev this.fd_ this.io_vec_li_)
  intro a
  apply Triple.ite
  · intro written s wrote
    obtain ⟨queue,consumed⟩ := consume_total this.io_vec_li_ a.ret.toNat (by omega)
    have finish : Kept T E K ctx I (if queue = [] then do
          H.enableWriting false
          writeComplete H
        else H.writeLoop) fun _ => True := by
      apply Kept.ite
      · exact fun _ => Kept.bind (writes.enableWriting false) fun _ _ => writeComplete_kept writes.toSends
      · exact fun _ => writes.writeLoop
    rw [consumed]
    refine Kept.bind (writes.update _ ?_) (fun _ _ => finish) s wrote.2
    exact fun _ => ⟨rfl,rfl,rfl,rfl⟩
  · intro refused
    apply Triple.ite
    · intro fails
      exact writes.onClose.mono (fun _ wrote => ⟨wrote.1.2 ⟨by omega,fails⟩,wrote.2⟩) fun _ _ => id
    · exact fun _ _ wrote => ⟨trivial,wrote.2⟩

theorem onWrite_of_writes : Kept T E K ctx I (onWrite H) fun _ => True := by
  apply Kept.bind writes.self
  intro this _
  apply Kept.ite
  · exact fun _ => Kept.pure trivial
  · intro _
    apply Kept.ite
    · exact fun _ => writes.writeLoop
    · exact fun _ => Kept.bind (writes.enableWriting false) fun _ _ => writeComplete_kept writes.toSends

end Writes

theorem onRead_of_readLoop (self : Kept T E K ctx I H.self fun _ => True)
    (readLoop : Kept T E K ctx I H.readLoop fun _ => True) : Kept T E K ctx I (onRead H) fun _ => True := by
  apply Kept.bind self
  intro this _
  apply Kept.ite
  · exact fun _ => Kept.pure trivial
  · exact fun _ => readLoop

variable (keeps : H.Keeps T E K ctx I mayClose)
include keeps

theorem readLoop_kept : Kept T E K ctx I (readLoop H) fun _ => True := readLoop_of_reads keeps.reads

theorem onRead_kept : Kept T E K ctx I (onRead H) fun _ => True :=
  onRead_of_readLoop keeps.self keeps.readLoop

theorem writeLoop_kept : Kept T E K ctx I (writeLoop H) fun _ => True := writeLoop_of_writes keeps.writes

theorem onWrite_kept : Kept T E K ctx I (onWrite H) fun _ => True := onWrite_of_writes keeps.writes

theorem body_kept (m : Method) (other : m ≠ .onClose) (s : σ) (holds : I s)
    (closing : closes m = true → mayClose s) :
    wp T E K ctx (body H m) (fun _ after => I after) s := by
  cases m with
  | send buf size => exact (sendInLoop_kept keeps.toSends buf size).wp s holds
  | sendList list => exact (sendListInLoop_kept keeps.toSends list).wp s holds
  | retrieve count =>
    apply (keeps.update (fun c => { c with message_buffer_ := c.message_buffer_.drop count }) _).wp s holds
    exact fun _ => ⟨rfl,rfl,rfl,rfl⟩
  | onRead => exact (onRead_kept keeps).wp s holds
  | readLoop => exact (readLoop_kept keeps).wp s holds
  | onWrite => exact (onWrite_kept keeps).wp s holds
  | writeLoop => exact (writeLoop_kept keeps).wp s holds
  | onError | onTimeout | forceClose =>
    exact wp_mono (keeps.onClose s ⟨closing rfl,holds⟩) fun _ _ kept => kept.2
  | onClose => contradiction

end TcpConnection

structure Host.Steady (H : Host σ Q A C M) (R : σ → σ → Prop) : Prop where
  self : H.self.Steady R
  update : ∀ f, Plain f → (H.update f).Steady R
  mark : (H.update fun c => { c with closed_ := true }).Steady R
  forget : (H.update fun c => { c with fd_ := -1 }).Steady R
  closeCallback : H.closeCallback.Steady R
  messageCallback : H.messageCallback.Steady R
  writeCompleteCallback : H.writeCompleteCallback.Steady R
  write : ∀ fd buf size, (H.write fd buf size).Steady R
  writev : ∀ fd vec, (H.writev fd vec).Steady R
  readFd : ∀ fd, (H.readFd fd).Steady R
  closeFd : ∀ fd, (H.closeFd fd).Steady R
  enableWriting : ∀ on, (H.enableWriting on).Steady R
  onClose : H.onClose.Steady R
  readLoop : H.readLoop.Steady R
  writeLoop : H.writeLoop.Steady R

namespace TcpConnection

section Steady
variable {R : σ → σ → Prop} (steady : H.Steady R)
include steady

theorem close_steady : (close H).Steady R := by
  refine .bind steady.self fun this => .ite ?_ fun _ => trivial
  exact .bind (steady.closeFd _) fun _ => steady.forget

theorem onClose_steady : (onClose H).Steady R := by
  have finish := Prog.Steady.bind steady.mark fun _ => close_steady steady
  refine .bind steady.self fun this => .ite (.ite ?_ finish) fun _ => trivial
  exact .bind steady.closeCallback fun _ => finish

theorem readLoop_steady : (readLoop H).Steady R := by
  refine .bind steady.self fun this => .bind (steady.readFd _) fun a => .ite ?_ ?_
  · refine .bind (steady.update _ fun _ => ⟨rfl,rfl,rfl,rfl⟩) fun _ => .bind steady.self fun this => .ite ?_ steady.readLoop
    exact .bind steady.messageCallback fun _ => steady.readLoop
  · exact .ite steady.onClose (.ite steady.onClose fun _ => trivial)

theorem onRead_steady : (onRead H).Steady R :=
  .bind steady.self fun _ => .ite (fun _ => trivial) steady.readLoop

theorem writeComplete_steady : (writeComplete H).Steady R :=
  .bind steady.self fun _ => .ite steady.writeCompleteCallback fun _ => trivial

theorem writeLoop_steady : (writeLoop H).Steady R := by
  have finish := Prog.Steady.bind (steady.enableWriting false) fun _ => writeComplete_steady steady
  refine .bind steady.self fun this => .bind (steady.writev _ _) fun a => .ite ?_ ?_
  · cases consume this.io_vec_li_ a.ret.toNat with
    | none => exact fun _ => trivial
    | some queue =>
      exact .bind (steady.update _ fun _ => ⟨rfl,rfl,rfl,rfl⟩) fun _ => .ite finish steady.writeLoop
  · exact .ite steady.onClose fun _ => trivial

theorem onWrite_steady : (onWrite H).Steady R := by
  refine .bind steady.self fun _ => .ite (fun _ => trivial) (.ite steady.writeLoop ?_)
  exact .bind (steady.enableWriting false) fun _ => writeComplete_steady steady

theorem sendListInLoop_steady (list : List BufferNode) : (sendListInLoop H list).Steady R := by
  refine .bind steady.self fun _ => .ite (fun _ => trivial) ?_
  refine .bind (steady.update _ fun _ => ⟨rfl,rfl,rfl,rfl⟩) fun _ => .bind steady.self fun _ => ?_
  exact .ite (steady.enableWriting true) fun _ => trivial

theorem sendRest_steady (buf send_len size : Nat) : (sendRest H buf send_len size).Steady R := by
  refine .ite (writeComplete_steady steady) ?_
  exact .bind (steady.update _ fun _ => ⟨rfl,rfl,rfl,rfl⟩) fun _ => steady.enableWriting true

theorem sendInLoop_steady (buf size : Nat) : (sendInLoop H buf size).Steady R := by
  refine .bind steady.self fun _ => .ite (fun _ => trivial) (.ite ?_ (sendRest_steady steady _ _ _))
  refine .bind (steady.write _ _ _) fun a => .ite (.ite steady.onClose ?_) ?_
  · exact sendRest_steady steady _ _ _
  · exact sendRest_steady steady _ _ _

theorem body_steady (m : Method) : (body H m).Steady R := by
  cases m with
  | send buf size => exact sendInLoop_steady steady buf size
  | sendList list => exact sendListInLoop_steady steady list
  | retrieve count => exact steady.update _ fun _ => ⟨rfl,rfl,rfl,rfl⟩
  | onRead => exact onRead_steady steady
  | readLoop => exact readLoop_steady steady
  | onWrite => exact onWrite_steady steady
  | writeLoop => exact writeLoop_steady steady
  | onError | onTimeout | forceClose => exact steady.onClose
  | onClose => exact onClose_steady steady

end Steady
end TcpConnection
end Tmms.Network
