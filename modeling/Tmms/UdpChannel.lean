import Tmms.Channel
import Tmms.ReentrantRecords
import Tmms.UdpInput
import Tmms.UdpOutput

/-! Datagrams from one UDP socket to another. The network between them may lose, repeat and
reorder what the first socket has put on its descriptor; it delivers a datagram whole, or as much
of it as the second one has offered room for. -/
namespace Tmms.Network.UdpChannel

open Reentrant UdpSocket
open Connection (bytes)

abbrev Sender := Config UdpOutput.World Query Result UdpSocket.Callback UdpSocket.Method
abbrev Receiver := Config UdpInput.World Query Result UdpSocket.Callback UdpInput.Method
abbrev Step := Channel.Move (Move UdpOutput.World Query Result UdpSocket.Callback UdpSocket.Method)
  (Move UdpInput.World Query Result UdpSocket.Callback UdpInput.Method)

def carried (address : List UInt8) (sender : Sender) (receiver : Receiver) : Bool :=
  receiver.state.datagrams.all fun data => sender.state.accepted.any fun datagram =>
    datagram.address = address && data = datagram.payload.take message_buffer_size_

def step (memory : Nat → UInt8) (address : List UInt8) : Sender × Receiver → Step → Option (Sender × Receiver) :=
  Channel.step ((UdpOutput.system memory).step UdpOutput.sending)
    (UdpInput.system.step UdpInput.environment) (carried address)

def start (s : UdpOutput.World) (r : UdpInput.World) : Sender × Receiver := (⟨s,[]⟩,⟨r,[]⟩)

section Records
variable (memory : Nat → UInt8)

def Quiet (s after : UdpOutput.World) : Prop := after.accepted = s.accepted

theorem query_quiet (q : Query) : (Prog.query q : UdpOutput.Code Result).Steady Quiet :=
  fun _ _ _ => trivial

theorem host_quiet : UdpOutput.host.Steady Quiet where
  self := fun _ => trivial
  update := fun _ => .modify fun _ => rfl
  closeCallback := fun _ _ => trivial
  messageCallback := fun _ _ => trivial
  writeCompleteCallback := fun _ _ => trivial
  sendto := fun _ _ _ _ _ => query_quiet _
  recvfrom := fun _ _ => query_quiet _
  closeFd := fun _ => .bind (query_quiet _) fun _ _ => trivial
  enableWriting := fun on => .modify fun s => by
    unfold UdpOutput.enableEventWriting
    split <;> rfl
  lockEntry := .bind (query_quiet _) fun _ _ => trivial
  insertEntry := fun _ => .bind (query_quiet _) fun _ _ => trivial
  onClose := fun _ _ => trivial
  readLoop := fun _ _ => trivial
  writeLoop := fun _ _ => trivial

theorem accepted_steady : (UdpOutput.system memory).Steady fun s after => s.accepted <+: after.accepted where
  refl := fun _ => List.prefix_rfl
  trans := fun _ _ _ => List.IsPrefix.trans
  body := fun m s => (body_steady host_quiet m s).mono fun s after same => by
    rw [Quiet] at same
    rw [same]
  answered := by
    intro q a s
    cases q with
    | sendto fd buf size addr len =>
      simp only [UdpOutput.system,UdpOutput.answered]
      split
      · exact List.prefix_append _ _
      · exact List.prefix_rfl
    | _ => exact List.prefix_rfl
  began := by
    intro m s
    cases m with
    | _ => exact List.prefix_rfl
  invoked := fun _ _ => List.prefix_rfl

end Records

section Run
variable {memory : Nat → UInt8} {address : List UInt8} {s : UdpOutput.World} {r : UdpInput.World}
  {t : Sender × Receiver} {moves : List Step}

/-- What has been received has been accepted before. -/
theorem received_accepted (empty : r.datagrams = [])
    (run : Transition.exec (step memory address) moves (start s r) = some t) :
    ∀ data ∈ t.2.state.datagrams, ∃ datagram ∈ t.1.state.accepted,
      datagram.address = address ∧ data = datagram.payload.take message_buffer_size_ := by
  have fits : carried address t.1 t.2 = true := by
    refine exec_carried (accepted_steady memory) id (fun _ move _ took => .inr ⟨move,took⟩) ?_ run rfl ?_
    · intro sender next receiver grows fits
      simp only [carried,List.all_eq_true,List.any_eq_true] at fits ⊢
      intro data among
      obtain ⟨datagram,inside,same⟩ := fits data among
      exact ⟨datagram,grows.subset inside,same⟩
    · rw [start,carried,empty]
      rfl
  intro data among
  simp only [carried,List.all_eq_true,List.any_eq_true,Bool.and_eq_true,decide_eq_true_eq] at fits
  exact fits data among

end Run

/-- What the kernel has accepted has been sent to that address, at that size; the payload is the one
that was sent unless it came from the queue with other bytes at its socket address. -/
theorem accepted_sent {memory : Nat → UInt8} {passed : List UdpOutput.Passed} {pending : List UdpBufferNode}
    {s : UdpOutput.World} (accounts : UdpOutput.Accounts memory passed pending s) :
    ∀ datagram ∈ s.accepted, ∃ sent ∈ s.sent, datagram.address = sent.address ∧
      datagram.payload.length = sent.payload.length ∧
      ((∀ node ∈ s.fromQueue, bytes memory node.addr node.base.size = bytes memory node.base.addr node.base.size) →
        datagram = sent) := by
  intro datagram among
  rw [accounts.accepted] at among
  obtain ⟨p,inside,rfl⟩ := List.mem_map.mp among
  refine ⟨UdpOutput.meant memory p.node,?_,?_⟩
  · rw [accounts.sent]
    exact List.mem_map_of_mem (List.mem_append_left _ (List.mem_map_of_mem inside))
  · rw [UdpOutput.Passed.datagram]
    split
    · next waited =>
      refine ⟨rfl,by simp [UdpOutput.queued,UdpOutput.meant],fun agree => ?_⟩
      apply (UdpOutput.queued_meant memory p.node).mpr
      apply agree
      rw [accounts.fromQueue]
      exact List.mem_map_of_mem (List.mem_filter.mpr ⟨inside,waited⟩)
    · exact ⟨rfl,rfl,fun _ => rfl⟩

/-- Whatever the network does, each datagram given to the callback has been sent to this address: the
whole of it, up to the size of the receive buffer, and with the payload that was meant if each
datagram that the sender has taken from its queue had its payload's bytes at its socket address. -/
theorem datagrams_carried (memory : Nat → UInt8) (address : List UInt8) (s : UdpOutput.World)
    (sender : UdpOutput.Fresh s) (r : UdpInput.World) (receiver : UdpInput.Fresh r) (moves : List Step)
    (t : Sender × Receiver) (run : Transition.exec (step memory address) moves (start s r) = some t)
    (settled : UdpOutput.Settled t.1) (controlled : t.2.controlled) (set : t.2.state.socket.message_cb_ = true) :
    ∀ data ∈ t.2.state.delivered, ∃ sent ∈ t.1.state.sent, sent.address = address ∧
      data.length = min message_buffer_size_ sent.payload.length ∧
      ((∀ node ∈ t.1.state.fromQueue,
          bytes memory node.addr node.base.size = bytes memory node.base.addr node.base.size) →
        data = sent.payload.take message_buffer_size_) := by
  obtain ⟨first,second⟩ := Channel.exec_sides run
  have sends : (UdpOutput.system memory).Reachable UdpOutput.sending s t.1 :=
    ⟨_,((UdpOutput.system memory).exec_eq _ _ _).trans first⟩
  have receives : UdpInput.system.Reachable UdpInput.environment r t.2 :=
    ⟨_,(UdpInput.system.exec_eq _ _ _).trans second⟩
  have start : UdpInput.Whole [] r := by
    refine ⟨by rw [receiver.buffer]; exact UdpInput.initial_roomy,fun _ => ?_,fun _ => ?_⟩
    · rw [receiver.buffer]
      exact ⟨rfl,rfl⟩
    · rw [receiver.delivered,receiver.datagrams]
  have whole : UdpInput.Whole (active t.2.stack) t.2.state :=
    reachable_invariant UdpInput.input_sound r t.2 start receives controlled
  obtain ⟨passed,pending,accounts⟩ := UdpOutput.reachable_accounted memory s t.1 sender sends settled
  intro data among
  rw [whole.delivered set] at among
  obtain ⟨datagram,inside,here,same⟩ := received_accepted receiver.datagrams run data among
  obtain ⟨sent,before,address_,length,equal⟩ := accepted_sent accounts datagram inside
  refine ⟨sent,before,address_ ▸ here,?_,fun agree => ?_⟩
  · rw [same,List.length_take,length]
  · rw [same,equal agree]

section Example

theorem input_host_steady : UdpInput.host.Steady fun s after => after.datagrams = s.datagrams where
  self := fun _ => trivial
  update := fun _ => .modify fun _ => rfl
  closeCallback := fun _ _ => trivial
  messageCallback := fun _ _ => trivial
  writeCompleteCallback := fun _ _ => trivial
  sendto := fun _ _ _ _ _ _ _ _ => trivial
  recvfrom := fun _ _ _ _ _ => trivial
  closeFd := fun _ => .bind (fun _ _ _ => trivial) fun _ _ => trivial
  enableWriting := fun on => .modify fun s => by
    unfold UdpInput.enableEventWriting
    split <;> rfl
  lockEntry := .bind (fun _ _ _ => trivial) fun _ _ => trivial
  insertEntry := fun _ => .bind (fun _ _ _ => trivial) fun _ _ => trivial
  onClose := fun _ _ => trivial
  readLoop := fun _ _ => trivial
  writeLoop := fun _ _ => trivial

theorem datagrams_steady : UdpInput.system.Steady fun s after => s.datagrams <+: after.datagrams where
  refl := fun _ => List.prefix_rfl
  trans := fun _ _ _ => List.IsPrefix.trans
  body := by
    have same : ∀ m, (UdpInput.system.body m).Steady fun s after => after.datagrams = s.datagrams := by
      intro m
      cases m with
      | socket m => exact body_steady input_host_steady m
      | edit how =>
        refine .bind (fun _ => trivial) fun s => ?_
        cases how.run s.socket.message_buffer_ with
        | none => exact fun _ => trivial
        | some after => exact .modify fun _ => rfl
    exact fun m s => (same m s).mono fun s after equal => by rw [equal]
  answered := by
    intro q a s
    cases q with
    | recvfrom fd size =>
      simp only [UdpInput.system,UdpInput.answered]
      split
      · exact List.prefix_append _ _
      · exact List.prefix_rfl
    | _ => exact List.prefix_rfl
  began := fun _ _ => List.prefix_rfl
  invoked := by
    intro c s
    cases c with
    | _ => exact List.prefix_rfl

theorem received_kept (address : List UInt8) (sender : Sender) (receiver : Receiver)
    (move : Move UdpInput.World Query Result UdpSocket.Callback UdpInput.Method) (next : Receiver)
    (steady : SteadyStack (fun s after => s.datagrams <+: after.datagrams) receiver.stack receiver.state)
    (stepped : UdpInput.system.step UdpInput.environment receiver move = some next) :
    SteadyStack (fun s after => s.datagrams <+: after.datagrams) next.stack next.state ∧
      (carried address sender next = true → carried address sender receiver = true) := by
  obtain ⟨grows,kept⟩ := steady_step datagrams_steady receiver next move steady stepped
  refine ⟨kept,fun fits => ?_⟩
  rw [carried,List.all_eq_true] at fits ⊢
  exact fun data among => fits data (grows.subset among)

theorem receives_two : ∃ moves, ∃ receiver : Receiver,
    Transition.exec (UdpInput.system.step UdpInput.environment) moves ⟨UdpInput.idle,[]⟩ = some receiver ∧
      receiver.controlled ∧ receiver.state.socket.message_cb_ = true ∧ receiver.state.datagrams = [[97,98]] ∧
        receiver.state.delivered = [[97,98]] := by
  obtain ⟨filled,takes,_,readable⟩ := UdpInput.initial_roomy.received ⟨rfl,rfl⟩ [97,98] (by decide)
  have completes := @UdpInput.onRead_completes UdpInput.idle filled rfl rfl takes
  have started : (⟨UdpInput.idle,[]⟩ : Receiver).controlled := trivial
  obtain ⟨moves,ran⟩ := System.completes_enter (m := .socket .onRead) started rfl completes
  rw [System.exec_eq] at ran
  exact ⟨moves,_,ran,trivial,rfl,rfl,congrArg ([] ++ [·]) readable⟩

/-- Two bytes, sent at once and received at once. -/
theorem datagrams_carried_two :
    ∃ moves t, Transition.exec (step UdpOutput.letters [107,108]) moves (start UdpOutput.idle UdpInput.idle) = some t ∧
      t.2.state.delivered = [[97,98]] ∧ ∀ data ∈ t.2.state.delivered, ∃ sent ∈ t.1.state.sent,
        sent.address = [107,108] ∧ data.length = min message_buffer_size_ sent.payload.length := by
  obtain ⟨sender,played,settled,accepted⟩ : ∃ c, (UdpOutput.system UdpOutput.letters).play UdpOutput.sending 40
      [.enter (.send 0 2 10 2),.answer ⟨2,0,[]⟩] ⟨UdpOutput.idle,[]⟩ = some c ∧ UdpOutput.Settled c ∧
        c.state.accepted = [⟨[97,98],[107,108]⟩] := ⟨_,rfl,Or.inl trivial,by decide⟩
  obtain ⟨first,sends⟩ := (UdpOutput.system UdpOutput.letters).play_reachable UdpOutput.sending 40 _ _ _ played
  obtain ⟨second,receiver,receives,controlled,set,datagrams,delivered⟩ := receives_two
  rw [System.exec_eq] at sends
  have fits : carried [107,108] sender receiver = true := by
    rw [carried,datagrams,accepted]
    decide
  have left : Transition.exec (step UdpOutput.letters [107,108]) (first.map .left)
      (start UdpOutput.idle UdpInput.idle) = some (sender,⟨UdpInput.idle,[]⟩) := Channel.exec_left _ sends
  have right : Transition.exec (step UdpOutput.letters [107,108]) (second.map .right)
      (sender,⟨UdpInput.idle,[]⟩) = some (sender,receiver) :=
    (Channel.exec_right sender _ (received_kept [107,108] sender) receives trivial fits).1
  have run : Transition.exec (step UdpOutput.letters [107,108]) (first.map .left ++ second.map .right)
      (start UdpOutput.idle UdpInput.idle) = some (sender,receiver) := by
    rw [Transition.exec_append,left]
    exact right
  refine ⟨_,_,run,delivered,fun data among => ?_⟩
  obtain ⟨sent,before,here,length,_⟩ := datagrams_carried UdpOutput.letters [107,108] UdpOutput.idle
    UdpOutput.idle_fresh UdpInput.idle UdpInput.idle_fresh _ _ run settled controlled set data among
  exact ⟨sent,before,here,length⟩

end Example
end Tmms.Network.UdpChannel
