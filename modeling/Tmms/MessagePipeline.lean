import Tmms.MessageChannel
import Tmms.PostedSends

/-! Messages from many threads to one callback: through the functor queue of the sender's loop, its
connection, the network, and the receiver's connection and parser. -/
namespace Tmms.Network.MessagePipeline

open Reentrant TcpConnection

abbrev Step := Channel.Move PostedSends.Step
  (Move MessageReceiver.World Query Result MessageReceiver.Callback MessageReceiver.Method)

def carried (sender : PostedSends.Loop) (receiver : MessageChannel.Receiver) : Bool :=
  MessageChannel.carried sender.object receiver

def step (memory : Nat → UInt8) (method : FunctorQueue.Func → Method) :
    PostedSends.Loop × MessageChannel.Receiver → Step → Option (PostedSends.Loop × MessageChannel.Receiver) :=
  Channel.step (PostedSends.step memory method) (MessageReceiver.system.step MessageReceiver.environment) carried

def start (s : Connection.World) (r : MessageReceiver.World) : PostedSends.Loop × MessageChannel.Receiver :=
  (LoopObject.start s,⟨r,[]⟩)

section Run
variable {memory : Nat → UInt8} {method : FunctorQueue.Func → Method} {s : Connection.World}
  {r : MessageReceiver.World} {moves : List Step} {t : PostedSends.Loop × MessageChannel.Receiver}

theorem carried_first (empty : r.received = [])
    (run : Transition.exec (step memory method) moves (start s r) = some t) :
    t.2.state.received <+: t.1.object.state.accepted := by
  rw [← List.isPrefixOf_iff_prefix]
  refine exec_carried (E := Connection.carrying) (Connection.accepted_steady memory) LoopObject.State.object ?_ ?_
    run rfl ?_
  · intro sender move next stepped
    cases LoopObject.step_cases stepped with
    | queued => exact .inl rfl
    | front f rest queue object _ _ _ entered => exact .inr ⟨_,entered⟩
    | object move object _ took => exact .inr ⟨move,took⟩
  · intro sender next receiver grows fits
    rw [carried,MessageChannel.carried,List.isPrefixOf_iff_prefix] at fits ⊢
    exact fits.trans grows
  · rw [start,carried,MessageChannel.carried,empty]
    rfl

/-- Buffers of whole frames are a stream of their frames. -/
theorem framed_taken (message : Method → List (List UInt8)) (taken : List (LoopObject.Origin × Method))
    (framed : ∀ call ∈ taken, TestContext.frames.Framed (message call.2) (PostedSends.payload memory call.2)) :
    TestContext.frames.Framed (taken.flatMap fun call => message call.2)
      (taken.flatMap fun call => PostedSends.payload memory call.2) := by
  induction taken with
  | nil => exact .nil
  | cons call taken ih =>
    rw [List.flatMap_cons,List.flatMap_cons]
    exact (framed call List.mem_cons_self).append (ih fun other among => framed other (List.mem_cons_of_mem _ among))

end Run

/-- Every buffer sent holds whole messages. Then the receiver's callback has been given, in order and
each once, first messages of the buffers the connection took; and those of them that other threads
posted are the ones pushed first, in the order of the pushes. This holds at every step of every run
of all threads, both loops and the network, with any errors and closes. -/
theorem messages_in_order (memory : Nat → UInt8) (method : FunctorQueue.Func → Method) (s : Connection.World)
    (sender : Connection.Fresh s) (r : MessageReceiver.World) (receiver : MessageReceiver.Fresh r)
    (moves : List Step) (t : PostedSends.Loop × MessageChannel.Receiver)
    (run : Transition.exec (step memory method) moves (start s r) = some t) (message : Method → List (List UInt8))
    (framed : ∀ call ∈ t.1.taken, TestContext.frames.Framed (message call.2) (PostedSends.payload memory call.2)) :
    (t.2.state.delivered <+: t.1.taken.flatMap fun call => message call.2) ∧
      LoopObject.postedOf t.1.taken <+: t.1.queue.pushed.map method := by
  obtain ⟨left,right⟩ := Channel.exec_sides run
  obtain ⟨stream,posted⟩ := PostedSends.posted_stream memory method s sender _ t.1 left
  refine ⟨?_,posted⟩
  have reached : MessageReceiver.system.Reachable MessageReceiver.environment r t.2 :=
    ⟨_,(MessageReceiver.system.exec_eq _ _ _).trans right⟩
  obtain ⟨rest,sent⟩ := (carried_first receiver.received run).trans stream
  have decoded := MessageReceiver.delivered_decoded r receiver t.2 reached rest
  rw [sent,(framed_taken message t.1.taken framed).decode_all] at decoded
  exact decoded

def frame (address : Nat) : UInt8 := ([0,0,0,1,65,0,0,0,0,0,0,1,66] : List UInt8).getD address 0

def sendFrame : FunctorQueue.Func → Method
  | .mk id _ => .send (8 * id) 5

def post (n id : Nat) : List Step :=
  [.call (.other n) (.mk id []),.lock n,.push n,.wakeUp n,.unlock n].map fun move => .left (.other move)

def sendOne : List Step :=
  [.front,.object .advance,.object (.answer ⟨5,0,[]⟩),.object .advance,.object .advance,.object .leave,
    .object .advance,.loop .finish,.loop .pop].map fun move => .left move

/-- The second frame is posted first; both are read at once. -/
def twoThreads : List Step :=
  post 1 1 ++ post 0 0 ++ [.left (.loop .runFunctions),.left (.loop .lockLoop)] ++ sendOne ++ sendOne ++
  [.left (.loop .unlockLoop),.right (.enter (.handler .onRead))] ++ List.replicate 3 (.right .advance) ++
  [.right (.answer ⟨10,0,[0,0,0,1,66,0,0,0,1,65]⟩)] ++ List.replicate 15 (.right .advance) ++ [.right .leave] ++
  List.replicate 11 (.right .advance) ++ [.right .leave]

theorem messages_in_order_two :
    ∃ t, Transition.exec (step frame sendFrame) twoThreads (start Connection.idle MessageReceiver.idle) = some t ∧
      t.2.state.delivered = [[66],[65]] ∧
      (t.2.state.delivered <+: t.1.taken.flatMap fun call => if call.2 = .send 8 5 then [[66]] else [[65]]) ∧
      LoopObject.postedOf t.1.taken <+: t.1.queue.pushed.map sendFrame := by
  refine ⟨_,rfl,rfl,messages_in_order frame sendFrame Connection.idle Connection.idle_fresh MessageReceiver.idle
    MessageReceiver.idle_fresh twoThreads _ rfl (fun m => if m = .send 8 5 then [[66]] else [[65]]) ?_⟩
  have first : TestContext.frames.Framed [[66]] ([0,0,0,1] ++ ([66] ++ [])) :=
    .cons rfl (TestContext.frames_size.mpr (by decide)) .nil
  have second : TestContext.frames.Framed [[65]] ([0,0,0,1] ++ ([65] ++ [])) :=
    .cons rfl (TestContext.frames_size.mpr (by decide)) .nil
  intro call among
  rcases List.mem_cons.mp among with same | among
  · subst same
    exact first
  · rw [List.mem_singleton.mp among]
    exact second

end Tmms.Network.MessagePipeline
