import Tmms.AcceptorExhaustion
import Tmms.TcpExhaustion
import Tmms.UdpExhaustion

/-! The five handlers that work an edge-triggered descriptor off, and what makes each of them
leave something on it. -/
namespace Tmms.Network.EdgeHandlers

open Reentrant Exhaustion

/-- A handler is called for a descriptor its object holds, and comes back. -/
inductive Call : EdgeHandler → Type where
  | tcp {h : EdgeHandler} {kind : TcpExhaustion.Kind} {m : TcpClient.Method}
      (found : TcpExhaustion.handler? h = some (kind,m)) (s after : TcpExhaustion.World)
      (dispatched : TcpExhaustion.Dispatched s) (returns : TcpExhaustion.Returns kind m s after) : Call h
  | acceptor (s after : Acceptor.World) (dispatched : Acceptor.Dispatched s)
      (returns : Acceptor.Returns .onRead s after) : Call .acceptorOnRead
  | udp (kind : UdpExhaustion.Kind) (s after : UdpExhaustion.World) (dispatched : UdpExhaustion.Dispatched s)
      (returns : UdpExhaustion.Returns kind (.io .onRead) s after) : Call .udpOnRead

namespace Call

def history {h : EdgeHandler} : Call h → List Happening
  | .tcp _ _ after _ _ => after.tenure.history
  | .acceptor _ after _ _ => after.tenure.history
  | .udp _ _ after _ _ => after.tenure.history

def HoldsWhen {h : EdgeHandler} : Call h → Prop
  | .tcp _ s after _ _ => TcpExhaustion.HoldsWhen h s after.tenure.history
  | .acceptor _ after _ _ => ¬Interrupted after.tenure.history
  | .udp _ s after _ _ => s.socket.closed_ = false ∧ UdpExhaustion.Received after.tenure.history

end Call

/-- Each handler leaves nothing on its descriptor exactly under its condition, whatever its
calls give and its callbacks do. -/
theorem exhausts_iff (h : EdgeHandler) (call : Call h) : Exhausted h call.history ↔ call.HoldsWhen := by
  cases call with
  | tcp found s after dispatched returns => exact TcpExhaustion.returns_iff h _ _ found s after dispatched returns
  | acceptor s after dispatched returns => exact Acceptor.accept_returns_iff s after dispatched returns
  | udp kind s after dispatched returns =>
    exact UdpExhaustion.receive_returns_iff kind s after dispatched returns

def connected : TcpExhaustion.World where
  tcp := { Reconnect.unconnected with
    connection := ⟨5,kEventRead,false,true,true,true,[],[]⟩
    status_ := TcpClient.kTcpConStatusConnected }
  tenure := .start 5

def connecting : TcpExhaustion.World :=
  { connected with tcp := { connected.tcp with status_ := TcpClient.kTcpConStatusConnecting } }

def listening : Acceptor.World := ⟨⟨6,kEventRead⟩,some 6,true,⟨∅,⟨[6],fun _ => none⟩⟩,.start 6⟩

def receiving : UdpExhaustion.World := ⟨UdpClose.idle.socket,true,true,⟨∅,⟨[7],fun _ => none⟩⟩,.start 7⟩

/-- Three bytes are read, one connection is accepted and one empty datagram received, and then
there is nothing more. -/
theorem exhausts_iff_drained :
    (∃ after : TcpExhaustion.World, after.tcp.connection.message_buffer_ = [1,2,3] ∧
      Exhausted .clientOnRead after.tenure.history) ∧
    (∃ after : Acceptor.World, after.tenure.history = [.outcome ⟨8,0,[]⟩,.outcome ⟨-1,EAGAIN,[]⟩] ∧
      Exhausted .acceptorOnRead after.tenure.history) ∧
    ∃ after : UdpExhaustion.World, after.tenure.history = [.outcome ⟨0,0,[]⟩,.outcome ⟨-1,EAGAIN,[]⟩] ∧
      Exhausted .udpOnRead after.tenure.history := by
  refine ⟨?_,?_,?_⟩
  · have returns := (TcpExhaustion.system .client).play_exec (TcpExhaustion.application .client) 40
      [.advance,.answer ⟨3,0,[1,2,3]⟩,.leave,.answer ⟨-1,EAGAIN,[]⟩]
      ((TcpExhaustion.system .client).started ⟨connected,[]⟩ (.connection .onRead) []) _ rfl
    have exhausted := exhausts_iff .clientOnRead (.tcp rfl connected _ ⟨by decide,rfl⟩ returns)
    exact ⟨_,rfl,exhausted.mpr (Or.inl ⟨rfl,rfl,by decide⟩)⟩
  · have returns := Acceptor.system.play_exec Acceptor.application 40
      [.advance,.answer ⟨8,0,[]⟩,.leave,.answer ⟨-1,EAGAIN,[]⟩]
      (Acceptor.system.started ⟨listening,[]⟩ .onRead []) _ rfl
    have exhausted := exhausts_iff .acceptorOnRead (.acceptor listening _ ⟨by decide,rfl,rfl⟩ returns)
    have calm : ¬Interrupted [.outcome ⟨8,0,[]⟩,.outcome ⟨-1,EAGAIN,[]⟩] := by decide
    exact ⟨_,rfl,exhausted.mpr calm⟩
  · have returns := (UdpExhaustion.system .udpServer).play_exec (UdpExhaustion.application .udpServer) 40
      [.advance,.answer ⟨0,0,[]⟩,.answer ⟨-1,EAGAIN,[]⟩]
      ((UdpExhaustion.system .udpServer).started ⟨receiving,[]⟩ (.io .onRead) []) _ rfl
    have exhausted := exhausts_iff .udpOnRead (.udp .udpServer receiving _ ⟨by decide,rfl⟩ returns)
    have received : UdpExhaustion.Received [.outcome ⟨0,0,[]⟩,.outcome ⟨-1,EAGAIN,[]⟩] := by decide
    exact ⟨_,rfl,exhausted.mpr ⟨rfl,received⟩⟩

/-- A connection whose first read is interrupted, a client that is told it is connected by bytes
that have come already, and a socket that fails for good: each returns with its input unread. -/
theorem input_left :
    (∃ after, TcpExhaustion.Returns .connection (.connection .onRead) connected after ∧
      after.tenure.history = [.outcome ⟨-1,EINTR,[]⟩] ∧ ¬Exhausted .tcpOnRead after.tenure.history) ∧
    (∃ after, TcpExhaustion.Returns .client (.connection .onRead) connecting after ∧
      after.tcp.status_ = TcpClient.kTcpConStatusConnected ∧ ¬Exhausted .clientOnRead after.tenure.history) ∧
    ∃ after, UdpExhaustion.Returns .udpServer (.io .onRead) receiving after ∧
      after.socket.fd_ = 7 ∧ ¬Exhausted .udpOnRead after.tenure.history := by
  refine ⟨?_,?_,?_⟩
  · have returns := (TcpExhaustion.system .connection).play_exec (TcpExhaustion.application .connection) 40
      [.advance,.answer ⟨-1,EINTR,[]⟩]
      ((TcpExhaustion.system .connection).started ⟨connected,[]⟩ (.connection .onRead) []) _ rfl
    exact ⟨_,returns,rfl,by decide⟩
  · have returns := (TcpExhaustion.system .client).play_exec (TcpExhaustion.application .client) 40
      [.advance,.answer ⟨0,0,[]⟩,.leave]
      ((TcpExhaustion.system .client).started ⟨connecting,[]⟩ (.connection .onRead) []) _ rfl
    exact ⟨_,returns,rfl,by decide⟩
  · have returns := (UdpExhaustion.system .udpServer).play_exec (UdpExhaustion.application .udpServer) 40
      [.advance,.answer ⟨-1,12,[]⟩]
      ((UdpExhaustion.system .udpServer).started ⟨receiving,[]⟩ (.io .onRead) []) _ rfl
    exact ⟨_,returns,rfl,by decide⟩

end Tmms.Network.EdgeHandlers
