import Tmms.ReentrantSimulation
import Tmms.TcpConnectionRules

/-! The handlers seen through their host: where each thing a host does is seen as what another host
does, each handler on the first is seen as the same handler on the second. -/
namespace Tmms.Network

open Reentrant

variable {σ τ Q R A B C D M N : Type}

structure Host.SeenAs (V : View σ τ Q R A B C D M N) (T : System σ Q A C M) (H : Host σ Q A C M)
    (G : Host τ R B D N) : Prop where
  self : Prog.SeenAs V T H.self G.self
  -- the mask is changed by `enableWriting` alone
  update : ∀ f, (∀ c, (f c).event_ = c.event_) → Prog.SeenAs V T (H.update f) (G.update f)
  closeCallback : Prog.SeenAs V T H.closeCallback G.closeCallback
  messageCallback : Prog.SeenAs V T H.messageCallback G.messageCallback
  writeCompleteCallback : Prog.SeenAs V T H.writeCompleteCallback G.writeCompleteCallback
  write : ∀ fd buf size, Prog.SeenAs V T (H.write fd buf size) (G.write fd buf size)
  writev : ∀ fd vec, Prog.SeenAs V T (H.writev fd vec) (G.writev fd vec)
  readFd : ∀ fd, Prog.SeenAs V T (H.readFd fd) (G.readFd fd)
  closeFd : ∀ fd, Prog.SeenAs V T (H.closeFd fd) (G.closeFd fd)
  enableWriting : ∀ on, Prog.SeenAs V T (H.enableWriting on) (G.enableWriting on)
  onClose : Prog.SeenAs V T H.onClose G.onClose
  readLoop : Prog.SeenAs V T H.readLoop G.readLoop
  writeLoop : Prog.SeenAs V T H.writeLoop G.writeLoop

namespace TcpConnection

section Seen
variable {V : View σ τ Q R A B C D M N} {T : System σ Q A C M} {H : Host σ Q A C M} {G : Host τ R B D N}
  (seen : H.SeenAs V T G)
include seen

theorem close_seen : Prog.SeenAs V T (close H) (close G) := by
  refine seen.self.bind fun this => .ite ?_ (.pure _)
  exact (seen.closeFd _).bind fun _ => seen.update _ fun _ => rfl

theorem onClose_seen : Prog.SeenAs V T (onClose H) (onClose G) := by
  have finish := (seen.update (fun c => { c with closed_ := true }) fun _ => rfl).bind fun _ => close_seen seen
  refine seen.self.bind fun this => .ite (.ite ?_ finish) (.pure _)
  exact seen.closeCallback.bind fun _ => finish

theorem readLoop_seen : Prog.SeenAs V T (readLoop H) (readLoop G) := by
  refine seen.self.bind fun this => (seen.readFd _).bind fun a => .ite ?_ ?_
  · refine Prog.SeenAs.bind (seen.update _ fun _ => rfl) fun _ => seen.self.bind fun this => .ite ?_ seen.readLoop
    exact seen.messageCallback.bind fun _ => seen.readLoop
  · exact .ite seen.onClose (.ite seen.onClose (.pure _))

theorem onRead_seen : Prog.SeenAs V T (onRead H) (onRead G) :=
  seen.self.bind fun _ => .ite (.pure _) seen.readLoop

theorem writeComplete_seen : Prog.SeenAs V T (writeComplete H) (writeComplete G) :=
  seen.self.bind fun _ => .ite seen.writeCompleteCallback (.pure _)

theorem writeLoop_seen : Prog.SeenAs V T (writeLoop H) (writeLoop G) := by
  have finish := (seen.enableWriting false).bind fun _ => writeComplete_seen seen
  refine seen.self.bind fun this => (seen.writev _ _).bind fun a => .ite ?_ (.ite seen.onClose (.pure _))
  cases consume this.io_vec_li_ a.ret.toNat with
  | none => exact fun _ => trivial
  | some queue => exact Prog.SeenAs.bind (seen.update _ fun _ => rfl) fun _ => .ite finish seen.writeLoop

theorem onWrite_seen : Prog.SeenAs V T (onWrite H) (onWrite G) := by
  refine seen.self.bind fun _ => .ite (.pure _) (.ite seen.writeLoop ?_)
  exact (seen.enableWriting false).bind fun _ => writeComplete_seen seen

theorem sendListInLoop_seen (list : List BufferNode) :
    Prog.SeenAs V T (sendListInLoop H list) (sendListInLoop G list) := by
  refine seen.self.bind fun _ => .ite (.pure _) ?_
  refine Prog.SeenAs.bind (seen.update _ fun _ => rfl) fun _ => seen.self.bind fun _ => ?_
  exact .ite (seen.enableWriting true) (.pure _)

theorem sendRest_seen (buf send_len size : Nat) :
    Prog.SeenAs V T (sendRest H buf send_len size) (sendRest G buf send_len size) := by
  refine .ite (writeComplete_seen seen) ?_
  exact Prog.SeenAs.bind (seen.update _ fun _ => rfl) fun _ => seen.enableWriting true

theorem sendInLoop_seen (buf size : Nat) : Prog.SeenAs V T (sendInLoop H buf size) (sendInLoop G buf size) := by
  refine seen.self.bind fun _ => .ite (.pure _) (.ite ?_ (sendRest_seen seen _ _ _))
  refine (seen.write _ _ _).bind fun a => .ite (.ite seen.onClose ?_) ?_
  · exact sendRest_seen seen _ _ _
  · exact sendRest_seen seen _ _ _

theorem body_seen (m : Method) : Prog.SeenAs V T (body H m) (body G m) := by
  cases m with
  | send buf size => exact sendInLoop_seen seen buf size
  | sendList list => exact sendListInLoop_seen seen list
  | retrieve count => exact seen.update _ fun _ => rfl
  | onRead => exact onRead_seen seen
  | readLoop => exact readLoop_seen seen
  | onWrite => exact onWrite_seen seen
  | writeLoop => exact writeLoop_seen seen
  | onError | onTimeout | forceClose => exact seen.onClose
  | onClose => exact onClose_seen seen

end Seen
end TcpConnection

section Within
variable {ω : Type} (L : Place ω σ Q R A B M N)

def Host.within (H : Host ω Q A C M) : Host σ R B C N where
  self := H.self.within L
  update := fun f => (H.update f).within L
  closeCallback := H.closeCallback.within L
  messageCallback := H.messageCallback.within L
  writeCompleteCallback := H.writeCompleteCallback.within L
  write := fun fd buf size => (H.write fd buf size).within L
  writev := fun fd vec => (H.writev fd vec).within L
  readFd := fun fd => (H.readFd fd).within L
  closeFd := fun fd => (H.closeFd fd).within L
  enableWriting := fun on => (H.enableWriting on).within L
  onClose := H.onClose.within L
  readLoop := H.readLoop.within L
  writeLoop := H.writeLoop.within L

variable {L} {V : View σ ω R Q B A C C N M} {T : System σ R B C N}

theorem Host.within_seen (seen : L.SeenIn V) (H : Host ω Q A C M) : (H.within L).SeenAs V T H where
  self := Reentrant.within_seen seen _
  update := fun _ _ => Reentrant.within_seen seen _
  closeCallback := Reentrant.within_seen seen _
  messageCallback := Reentrant.within_seen seen _
  writeCompleteCallback := Reentrant.within_seen seen _
  write := fun _ _ _ => Reentrant.within_seen seen _
  writev := fun _ _ => Reentrant.within_seen seen _
  readFd := fun _ => Reentrant.within_seen seen _
  closeFd := fun _ => Reentrant.within_seen seen _
  enableWriting := fun _ => Reentrant.within_seen seen _
  onClose := Reentrant.within_seen seen _
  readLoop := Reentrant.within_seen seen _
  writeLoop := Reentrant.within_seen seen _

theorem Host.within_steady {S : ω → ω → Prop} {large : σ → σ → Prop} (get_put : ∀ w s, L.get (L.put w s) = w)
    (kept : ∀ s after, S (L.get s) after → large s (L.put after s)) {H : Host ω Q A C M} (steady : H.Steady S) :
    (H.within L).Steady large where
  self := Reentrant.within_steady get_put kept steady.self
  update := fun f plain => Reentrant.within_steady get_put kept (steady.update f plain)
  mark := Reentrant.within_steady get_put kept steady.mark
  forget := Reentrant.within_steady get_put kept steady.forget
  closeCallback := Reentrant.within_steady get_put kept steady.closeCallback
  messageCallback := Reentrant.within_steady get_put kept steady.messageCallback
  writeCompleteCallback := Reentrant.within_steady get_put kept steady.writeCompleteCallback
  write := fun fd buf size => Reentrant.within_steady get_put kept (steady.write fd buf size)
  writev := fun fd vec => Reentrant.within_steady get_put kept (steady.writev fd vec)
  readFd := fun fd => Reentrant.within_steady get_put kept (steady.readFd fd)
  closeFd := fun fd => Reentrant.within_steady get_put kept (steady.closeFd fd)
  enableWriting := fun on => Reentrant.within_steady get_put kept (steady.enableWriting on)
  onClose := Reentrant.within_steady get_put kept steady.onClose
  readLoop := Reentrant.within_steady get_put kept steady.readLoop
  writeLoop := Reentrant.within_steady get_put kept steady.writeLoop

/-- A host inside changes nothing around it. -/
theorem Host.within_apart {large : σ → σ → Prop} (get_put : ∀ w s, L.get (L.put w s) = w)
    (kept : ∀ s after, large s (L.put after s)) (H : Host ω Q A C M) : (H.within L).Steady large where
  self := Reentrant.within_apart get_put kept _
  update := fun _ _ => Reentrant.within_apart get_put kept _
  mark := Reentrant.within_apart get_put kept _
  forget := Reentrant.within_apart get_put kept _
  closeCallback := Reentrant.within_apart get_put kept _
  messageCallback := Reentrant.within_apart get_put kept _
  writeCompleteCallback := Reentrant.within_apart get_put kept _
  write := fun _ _ _ => Reentrant.within_apart get_put kept _
  writev := fun _ _ => Reentrant.within_apart get_put kept _
  readFd := fun _ => Reentrant.within_apart get_put kept _
  closeFd := fun _ => Reentrant.within_apart get_put kept _
  enableWriting := fun _ => Reentrant.within_apart get_put kept _
  onClose := Reentrant.within_apart get_put kept _
  readLoop := Reentrant.within_apart get_put kept _
  writeLoop := Reentrant.within_apart get_put kept _

end Within
end Tmms.Network
