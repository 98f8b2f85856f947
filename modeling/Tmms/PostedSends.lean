import Tmms.ConnectionStream
import Tmms.LoopObject

/-! A connection that any number of threads send on. Each `Send` goes through the functor queue of the
connection's loop, between events and sends of the loop's own thread; so the stream is made of whole
buffers, and those of other threads come in the order in which they were pushed. -/
namespace Tmms.Network.PostedSends

open Reentrant TcpConnection Connection LoopObject

abbrev Loop := LoopObject.State World Query Result Callback Method
abbrev Step := LoopObject.Move World Query Result Callback Method

/-- A closed connection drops what it is given. -/
def takes (s : World) : Bool := !s.connection.closed_

/-- The bytes a method adds to the stream. -/
def payload (memory : Nat → UInt8) : Method → List UInt8
  | .send buf size => bytes memory buf size
  | .sendList list => described memory (nodes list)
  | _ => []

def step (memory : Nat → UInt8) (method : FunctorQueue.Func → Method) : Loop → Step → Option Loop :=
  LoopObject.step (Connection.system memory) carrying method takes

/-- What the code of the connection writes: not the records, and it never opens a closed connection. -/
def Lasting (s after : World) : Prop :=
  (after.accepted,after.sent) = (s.accepted,s.sent) ∧ (takes after = true → takes s = true)

theorem query_lasting (q : Query) : (Prog.query q : Code Result).Steady Lasting :=
  fun _ _ _ => trivial

theorem host_lasting : host.Steady Lasting where
  self := fun _ => trivial
  update := fun f plain => .modify fun s => ⟨rfl,by simp only [takes,(plain s.connection).2.1]; exact id⟩
  mark := .modify fun _ => ⟨rfl,fun open_ => nomatch open_⟩
  forget := .modify fun _ => ⟨rfl,id⟩
  closeCallback := fun _ _ => trivial
  messageCallback := fun _ _ => trivial
  writeCompleteCallback := fun _ _ => trivial
  write := fun _ _ _ => query_lasting _
  writev := fun _ _ => query_lasting _
  readFd := fun _ => query_lasting _
  closeFd := fun _ => .bind (query_lasting _) fun _ _ => trivial
  enableWriting := fun on => .modify fun s => by simp [Lasting,takes]
  onClose := fun _ _ => trivial
  readLoop := fun _ _ => trivial
  writeLoop := fun _ _ => trivial

section Steps
variable {memory : Nat → UInt8} {c next : Config World Query Result Callback Method}
  {move : Reentrant.Move World Query Result Callback Method}

theorem lasting_step (steady : SteadyStack Lasting c.stack c.state)
    (took : (Connection.system memory).step carrying c move = some next) : SteadyStack Lasting next.stack next.state :=
  stack_steady_step (body_steady host_lasting) c next move steady took

theorem effect_takes {s after : World} {begins : Option Method}
    (effect : Effect (Connection.system memory) carrying Lasting s begins after) (open_ : takes after = true) :
    takes s = true := by
  cases effect with
  | own after steady => exact steady.2 open_
  | answered ctx q a =>
    have same : ((Connection.system memory).answered q a s).connection = s.connection := by cases q <;> rfl
    rwa [takes,same] at open_
  | began m =>
    have same : ((Connection.system memory).began m s).connection = s.connection := began_connection memory m s
    rwa [takes,same] at open_
  | invoked t =>
    have same : ((Connection.system memory).invoked t s).connection = s.connection := by cases t <;> rfl
    rwa [takes,same] at open_

/-- Only a method that begins adds to what is sent. -/
theorem effect_sent {s after : World} {begins : Option Method}
    (effect : Effect (Connection.system memory) carrying Lasting s begins after) :
    after.sent = s.sent ++ if takes s then begins.toList.flatMap (payload memory) else [] := by
  cases effect with
  | own after steady =>
    rw [(Prod.mk.inj steady.1).2]
    simp
  | answered ctx q a =>
    have same : ((Connection.system memory).answered q a s).sent = s.sent := by cases q <;> rfl
    rw [same]
    simp
  | began m =>
    have adds : (began memory m s).sent = s.sent ++ if takes s then payload memory m else [] := by
      cases closed : s.connection.closed_ <;> cases m <;> simp [began,takes,payload,closed]
    rw [Option.toList_some,List.flatMap_singleton]
    exact adds
  | invoked t =>
    have same : ((Connection.system memory).invoked t s).sent = s.sent := by cases t <;> rfl
    rw [same]
    simp

theorem step_lasting (steady : SteadyStack Lasting c.stack c.state)
    (took : (Connection.system memory).step carrying c move = some next) :
    Effect (Connection.system memory) carrying Lasting c.state (beginning c move) next.state :=
  step_effect (fun _ => ⟨rfl,id⟩) c next move steady took

end Steps

section Run
variable {memory : Nat → UInt8} {method : FunctorQueue.Func → Method} {s : Loop} {moves : List Step} {initial : World}

theorem sent_taken (fresh : Fresh initial)
    (run : Transition.exec (step memory method) moves (start initial) = some s) :
    s.object.state.sent = s.taken.flatMap fun call => payload memory call.2 := by
  have reached : Transition.Reachable (step memory method) (fun _ => True) (start initial) s :=
    ⟨moves,fun _ _ => trivial,run⟩
  have all := reached.invariant (fun s => SteadyStack Lasting s.object.stack s.object.state ∧
    s.object.state.sent = s.taken.flatMap fun call => payload memory call.2) ?_ ⟨trivial,fresh.sent⟩
  · exact all.2
  rintro s move next _ ⟨steady,sent⟩ stepped
  have record : ∀ origin m, (s.record takes origin m).flatMap (fun call => payload memory call.2) =
      s.object.state.sent ++ if takes s.object.state then m.toList.flatMap (payload memory) else [] := by
    intro origin m
    rw [LoopObject.State.record,sent]
    split
    · cases m <;> simp
    · simp
  cases step_cases stepped with
  | queued => exact ⟨steady,sent⟩
  | front f rest queue object _ idle _ entered =>
    refine ⟨lasting_step steady entered,?_⟩
    have begins : beginning s.object (.enter (method f)) = some (method f) := by
      rw [beginning]
    rw [record,effect_sent (step_lasting steady entered),begins]
  | object move object _ took => exact ⟨lasting_step steady took,by rw [record,effect_sent (step_lasting steady took)]⟩

end Run

/-- However threads, events, callbacks, errors and closes interleave: what the socket has accepted
is the beginning of whole buffers one behind the other, and those among them that other threads
gave to `Send` are the ones pushed first, in the order of the pushes and each once. -/
theorem posted_stream (memory : Nat → UInt8) (method : FunctorQueue.Func → Method) (initial : World)
    (fresh : Fresh initial) (moves : List Step) (s : Loop)
    (run : Transition.exec (step memory method) moves (start initial) = some s) :
    (s.object.state.accepted <+: s.taken.flatMap fun call => payload memory call.2) ∧
      postedOf s.taken <+: s.queue.pushed.map method := by
  constructor
  · rw [← sent_taken fresh run]
    exact accepted_first memory initial fresh s.object (object_reachable run)
  · refine posted_first (fun c => SteadyStack Lasting c.stack c.state) ?_ trivial run
    exact fun c move next steady took => ⟨lasting_step steady took,effect_takes (step_lasting steady took)⟩

def sendFive : FunctorQueue.Func → Method
  | .mk id _ => .send (8 * id) 5

def posting (n id : Nat) : List Step :=
  [.call (.other n) (.mk id []),.lock n,.push n,.wakeUp n,.unlock n].map .other

def runSend (sent : Nat) (after : List Step) : List Step :=
  [.front,.object .advance,.object (.answer ⟨sent,0,[]⟩)] ++ after ++ [.loop .finish,.loop .pop]

def twoSends : List Step :=
  posting 1 1 ++ posting 0 0 ++ [.loop .runFunctions,.loop .lockLoop] ++
  runSend 5 [.object .advance,.object .advance,.object .leave,.object .advance] ++
  runSend 3 (List.replicate 5 (.object .advance)) ++ [.loop .unlockLoop]

theorem twoSends_runs : (Transition.exec (step (fun n => n.toUInt8) sendFive) twoSends (start idle)).map
    (fun s => s.object.state.accepted) = some [8,9,10,11,12,0,1,2] := by
  decide +kernel

theorem posted_stream_two : ∃ s : Loop, s.object.state.accepted = [8,9,10,11,12,0,1,2] ∧
    (s.object.state.accepted <+: s.taken.flatMap fun call => payload (fun n => n.toUInt8) call.2) ∧
      postedOf s.taken <+: s.queue.pushed.map sendFive := by
  obtain ⟨s,run,accepted⟩ := Option.map_eq_some_iff.mp twoSends_runs
  exact ⟨s,accepted,posted_stream _ sendFive idle idle_fresh twoSends s run⟩

end Tmms.Network.PostedSends
