import Tmms.MessageChannel
import Tmms.PolledInput
import Tmms.PolledSender

/-! Messages from one connection to another, each on a loop that polls. The sender writes when its loop
hears of room, the receiver reads when its loop hears of bytes, and the network brings what has been
accepted, as much of it and in such pieces as it likes. -/
namespace Tmms.Network.PolledChannel

open Reentrant

abbrev Sender := Config PolledSender.World OutputReadiness.Query OutputReadiness.Answer TcpConnection.Callback
  OutputReadiness.Method
abbrev Receiver := Config PolledReceiver.World OutputReadiness.Query PolledReceiver.Answer MessageReceiver.Callback
  PolledReceiver.Method
abbrev Step := Channel.Move
  (Move PolledSender.World OutputReadiness.Query OutputReadiness.Answer TcpConnection.Callback OutputReadiness.Method)
  (Move PolledReceiver.World OutputReadiness.Query PolledReceiver.Answer MessageReceiver.Callback
    PolledReceiver.Method)

def carried (sender : Sender) (receiver : Receiver) : Bool :=
  receiver.state.arrived.isPrefixOf sender.state.accepted

def step (memory : Nat → UInt8) : Sender × Receiver → Step → Option (Sender × Receiver) :=
  Channel.step ((PolledSender.system memory).step PolledSender.environment)
    (PolledReceiver.system.step PolledReceiver.environment) carried

def start (s : PolledSender.World) (r : PolledReceiver.World) : Sender × Receiver := (⟨s,[]⟩,⟨r,[]⟩)

section Run
variable {memory : Nat → UInt8} {s : PolledSender.World} {r : PolledReceiver.World} {t : Sender × Receiver}
  {moves : List Step}

theorem sender_reachable (run : Transition.exec (step memory) moves (start s r) = some t) :
    (PolledSender.system memory).Reachable PolledSender.environment s t.1 :=
  ⟨_,((PolledSender.system memory).exec_eq _ _ _).trans (Channel.exec_sides run).1⟩

theorem receiver_reachable (run : Transition.exec (step memory) moves (start s r) = some t) :
    PolledReceiver.system.Reachable PolledReceiver.environment r t.2 :=
  ⟨_,(PolledReceiver.system.exec_eq _ _ _).trans (Channel.exec_sides run).2⟩

theorem arrived_first (empty : r.arrived = []) (run : Transition.exec (step memory) moves (start s r) = some t) :
    t.2.state.arrived <+: t.1.state.accepted := by
  rw [← List.isPrefixOf_iff_prefix]
  refine exec_carried (PolledSender.accepted_steady memory) id (fun _ move _ took => .inr ⟨move,took⟩) ?_ run rfl ?_
  · intro sender next receiver grows fits
    rw [carried,List.isPrefixOf_iff_prefix] at fits ⊢
    exact fits.trans grows
  · rw [start,carried,empty]
    rfl

end Run

structure Quiet (t : Sender × Receiver) : Prop where
  sender : PolledSender.Blocked t.1
  receiver : PolledReceiver.Blocked t.2
  network : t.1.state.accepted.length ≤ t.2.state.arrived.length

/-- In every run of both ends within their surroundings: where both loops are about to block, with room in
the sender's socket and nothing in the network, every message sent has been handed over, in order
and once, and the receiver's buffer is empty, unless the last message is empty. -/
theorem quiet_delivered (memory : Nat → UInt8) (s : PolledSender.World) (sender : PolledSender.Fresh s)
    (r : PolledReceiver.World) (receiver : PolledReceiver.Fresh r) (moves : List Step) (t : Sender × Receiver)
    (run : Transition.exec (step memory) moves (start s r) = some t) (quiet : Quiet t) (bodies : List (List UInt8))
    (framed : TestContext.frames.Framed bodies t.1.state.sent) (last : bodies.getLast? ≠ some []) :
    t.2.state.receiver.delivered = bodies ∧ t.2.state.receiver.message_buffer_.readable = [] := by
  have accepted := PolledSender.blocked_accepted sender (sender_reachable run) quiet.sender
  have whole : t.2.state.arrived = t.1.state.accepted :=
    (arrived_first receiver.arrived run).eq_of_length_le quiet.network
  rw [← accepted,← whole] at framed
  exact PolledReceiver.blocked_delivered receiver (receiver_reachable run) quiet.receiver bodies framed last

def frame (address : Nat) : UInt8 := ([0,0,0,2,65,66] : List UInt8).getD address 0

def running {μ : Type} (advance : μ) (moves : List (μ × Nat)) : List μ :=
  moves.flatMap fun move => move.1 :: List.replicate move.2 advance

def sentPart : List Step :=
  (running .advance [(.enter (.handler (.send 0 6)),1),(.answer ⟨⟨2,0,[]⟩,[],true⟩,7),
    (.answer ⟨⟨0,0,[]⟩,[],false⟩,1)]).map .left

def heardPart : List Step :=
  (running .advance [(.enter (.happen (.data [0,0])),1),(.enter .poll,3),(.enter .dispatch,7)]).map .right

def sentRest : List Step :=
  (running .advance [(.enter (.rise EPOLLOUT),4),(.enter .poll,4),(.enter .dispatch,8),
    (.answer ⟨⟨4,0,[]⟩,[],false⟩,7),(.answer ⟨⟨0,0,[]⟩,[],false⟩,2),(.leave,3)]).map .left

def readAll : List Step :=
  (running .advance [(.answer ⟨⟨2,0,[0,0]⟩,[],false⟩,13),
    (.answer ⟨⟨4,0,[0,2,65,66]⟩,[.data [0,2,65,66]],false⟩,19),(.leave,10),(.answer ⟨⟨-1,EAGAIN,[]⟩,[],false⟩,5),
    (.enter .poll,3)]).map .right

def inParts : List Step := sentPart ++ heardPart ++ sentRest ++ readAll

theorem quiet_delivered_frame :
    ∃ t, Transition.exec (step frame) inParts (start PolledSender.idle PolledReceiver.idle) = some t ∧
      t.1.state.sent = [0,0,0,2,65,66] ∧ t.2.state.receiver.delivered = [[65,66]] ∧
        t.2.state.receiver.message_buffer_.readable = [] := by
  have framed : TestContext.frames.Framed [[65,66]] ([0,0,0,2] ++ ([65,66] ++ [])) :=
    .cons rfl (TestContext.frames_size.mpr (by decide)) .nil
  refine ⟨_,rfl,rfl,quiet_delivered frame PolledSender.idle PolledSender.idle_fresh PolledReceiver.idle
    PolledReceiver.idle_fresh inParts _ rfl ⟨⟨rfl,rfl,rfl,rfl,rfl⟩,⟨rfl,rfl,rfl,rfl⟩,?_⟩ _ framed (by decide)⟩
  decide

end Tmms.Network.PolledChannel
