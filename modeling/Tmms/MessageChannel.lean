import Tmms.Channel
import Tmms.ConnectionStream
import Tmms.MessageReceiver

/-! Length-prefixed messages from one connection to another. The sender's socket, the network and the
receiver's socket together deliver in order what the first has accepted, as much of it and in such
pieces as they like; both ends go on at their own pace. -/
namespace Tmms.Network.MessageChannel

open Reentrant TcpConnection

abbrev Sender := Config Connection.World Query Result TcpConnection.Callback TcpConnection.Method
abbrev Receiver := Config MessageReceiver.World Query Result MessageReceiver.Callback MessageReceiver.Method
abbrev Step := Channel.Move (Move Connection.World Query Result TcpConnection.Callback TcpConnection.Method)
  (Move MessageReceiver.World Query Result MessageReceiver.Callback MessageReceiver.Method)

def carried (sender : Sender) (receiver : Receiver) : Bool :=
  receiver.state.received.isPrefixOf sender.state.accepted

def step (memory : Nat → UInt8) : Sender × Receiver → Step → Option (Sender × Receiver) :=
  Channel.step ((Connection.system memory).step Connection.carrying)
    (MessageReceiver.system.step MessageReceiver.environment) carried

def start (s : Connection.World) (r : MessageReceiver.World) : Sender × Receiver := (⟨s,[]⟩,⟨r,[]⟩)

section Run
variable {memory : Nat → UInt8} {s : Connection.World} {r : MessageReceiver.World} {t : Sender × Receiver}
  {moves : List Step}

theorem sender_reachable (run : Transition.exec (step memory) moves (start s r) = some t) :
    (Connection.system memory).Reachable Connection.carrying s t.1 :=
  ⟨_,((Connection.system memory).exec_eq _ _ _).trans (Channel.exec_sides run).1⟩

theorem receiver_reachable (run : Transition.exec (step memory) moves (start s r) = some t) :
    MessageReceiver.system.Reachable MessageReceiver.environment r t.2 :=
  ⟨_,(MessageReceiver.system.exec_eq _ _ _).trans (Channel.exec_sides run).2⟩

/-- What has been received has been accepted, in that order. -/
theorem received_first (empty : r.received = [])
    (run : Transition.exec (step memory) moves (start s r) = some t) : t.2.state.received <+: t.1.state.accepted := by
  rw [← List.isPrefixOf_iff_prefix]
  refine exec_carried (Connection.accepted_steady memory) id (fun _ move _ took => .inr ⟨move,took⟩) ?_ run rfl ?_
  · intro sender next receiver grows fits
    rw [carried,List.isPrefixOf_iff_prefix] at fits ⊢
    exact fits.trans grows
  · rw [start,carried,empty]
    rfl

end Run

/-- At every step of every run of both ends: the callback has been given, in order and each once,
first messages of the byte stream handed to `Send`, and nothing else. -/
theorem delivered_first (memory : Nat → UInt8) (s : Connection.World) (sender : Connection.Fresh s)
    (r : MessageReceiver.World) (receiver : MessageReceiver.Fresh r) (moves : List Step) (t : Sender × Receiver)
    (run : Transition.exec (step memory) moves (start s r) = some t) :
    t.2.state.delivered <+: TestContext.frames.decode t.1.state.sent ∧
      ∀ bodies, TestContext.frames.Framed bodies t.1.state.sent → t.2.state.delivered <+: bodies := by
  have accepted := Connection.accepted_first memory s sender t.1 (sender_reachable run)
  obtain ⟨rest,sent⟩ := (received_first receiver.received run).trans accepted
  have decoded := MessageReceiver.delivered_decoded r receiver t.2 (receiver_reachable run) rest
  rw [sent] at decoded
  refine ⟨decoded,fun bodies framed => ?_⟩
  rw [framed.decode_all] at decoded
  exact decoded

def frame (address : Nat) : UInt8 := ([0,0,0,2,65,66] : List UInt8).getD address 0

def carriedOver : List Step :=
  [.left (.enter (.send 0 6)),.left .advance,.left (.answer ⟨6,0,[]⟩),.left .advance,.left .advance,
    .left .leave,.left .advance,.right (.enter (.handler .onRead))] ++ List.replicate 3 (.right .advance) ++
  [.right (.answer ⟨6,0,[0,0,0,2,65,66]⟩)] ++ List.replicate 15 (.right .advance) ++ [.right .leave] ++
  List.replicate 9 (.right .advance) ++ [.right (.answer ⟨-1,EAGAIN,[]⟩)] ++ List.replicate 3 (.right .advance)

theorem delivered_first_frame :
    ∃ t, Transition.exec (step frame) carriedOver (start Connection.idle MessageReceiver.idle) = some t ∧
      t.2.state.delivered = [[65,66]] ∧ t.2.state.delivered <+: TestContext.frames.decode t.1.state.sent :=
  ⟨_,rfl,rfl,(delivered_first frame Connection.idle Connection.idle_fresh MessageReceiver.idle
    MessageReceiver.idle_fresh carriedOver _ rfl).1⟩

/-- The sender has nothing left to write, the network nothing left to deliver and the receiver
nothing left to do. -/
structure Quiet (t : Sender × Receiver) : Prop where
  controlled : t.1.controlled
  opened : t.1.state.connection.closed_ = false
  queue : t.1.state.connection.io_vec_li_ = []
  network : t.2.state.received = t.1.state.accepted
  idle : t.2.stack = []

/-- Whenever everything has come to rest, all messages have been given to the callback and the
receiver's buffer is empty, unless the last of them is empty. -/
theorem delivered_all (memory : Nat → UInt8) (s : Connection.World) (sender : Connection.Fresh s)
    (r : MessageReceiver.World) (receiver : MessageReceiver.Fresh r) (moves : List Step) (t : Sender × Receiver)
    (run : Transition.exec (step memory) moves (start s r) = some t) (quiet : Quiet t) (bodies : List (List UInt8))
    (framed : TestContext.frames.Framed bodies t.1.state.sent) (last : bodies.getLast? ≠ some []) :
    t.2.state.delivered = bodies ∧ t.2.state.message_buffer_.readable = [] := by
  have queued := Connection.accepted_queued memory s sender t.1 (sender_reachable run) quiet.controlled quiet.opened
  rw [quiet.queue,Connection.described_nil,List.append_nil,← quiet.network] at queued
  rw [← queued] at framed
  exact MessageReceiver.idle_delivered r receiver t.2 (receiver_reachable run) quiet.idle bodies framed last

theorem delivered_all_frame :
    ∃ t, Transition.exec (step frame) carriedOver (start Connection.idle MessageReceiver.idle) = some t ∧
      t.1.state.sent = [0,0,0,2,65,66] ∧ t.2.state.delivered = [[65,66]] ∧
        t.2.state.message_buffer_.readable = [] := by
  have framed : TestContext.frames.Framed [[65,66]] ([0,0,0,2] ++ ([65,66] ++ [])) :=
    .cons rfl (TestContext.frames_size.mpr (by decide)) .nil
  exact ⟨_,rfl,rfl,delivered_all frame Connection.idle Connection.idle_fresh MessageReceiver.idle
    MessageReceiver.idle_fresh carriedOver _ rfl ⟨trivial,rfl,rfl,rfl,rfl⟩ _ framed (by decide)⟩

end Tmms.Network.MessageChannel
