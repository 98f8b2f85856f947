import Tmms.Connection
import Tmms.UdpSocket

/-! The datagrams a UDP socket puts on its descriptor. The direct call of `SendInLoop` and
the queued one of `OnWrite` keep one order and agree on sizes and destinations; the queued
one takes the payload from where the destination is. -/
namespace Tmms.Network.UdpOutput

open Reentrant UdpSocket
open Connection (bytes bytes_length)

structure Datagram where
  payload : List UInt8
  address : List UInt8
  deriving DecidableEq

/-- A socket, how epoll has it, and the datagrams the kernel has accepted and those given to `Send`,
oldest first. -/
structure World where
  socket : UdpSocket
  registered : Bool
  interest : Mask
  accepted : List Datagram
  sent : List Datagram
  -- the nodes that were accepted from the queue
  fromQueue : List UdpBufferNode

abbrev Code := Prog World Query Result Callback Method

def enableEventWriting (on : Bool) (s : World) : World :=
  if s.registered then
    let mask := s.socket.event_.enable kEventWrite on
    { s with socket := { s.socket with event_ := mask }, interest := mask }
  else s

def host : UdpHost World Query Result Callback Method where
  self := do return (← Prog.read).socket
  update := fun f => .modify fun s => { s with socket := f s.socket }
  closeCallback := .invoke .close
  messageCallback := .invoke .message
  writeCompleteCallback := .invoke .writeComplete
  sendto := fun fd buf size addr len => .query (.sendto fd buf size addr len)
  recvfrom := fun fd size => .query (.recvfrom fd size)
  closeFd := fun fd => do let _ ← Prog.query (.close fd)
  enableWriting := fun on => .modify (enableEventWriting on)
  lockEntry := do return (← Prog.query .lockEntry).ret ≠ 0
  insertEntry := fun delay => do let _ ← Prog.query (.insertEntry delay)
  onClose := .run .onClose
  readLoop := .run .readLoop
  writeLoop := .run .writeLoop

section Memory
variable (memory : Nat → UInt8)

/-- What the application means to send with a node, and what `OnWrite` sends for it. -/
def meant (node : UdpBufferNode) : Datagram :=
  ⟨bytes memory node.base.addr node.base.size,bytes memory node.addr node.sock_len⟩

def queued (node : UdpBufferNode) : Datagram :=
  ⟨bytes memory node.addr node.base.size,bytes memory node.addr node.sock_len⟩

/-- The kernel takes a datagram whole: the bytes it is shown, for the address it is shown.
`sendto` is called for the front of the queue, or with an empty queue. -/
def taken (buf size addr len : Nat) (s : World) : World :=
  { s with
    accepted := s.accepted ++ [⟨bytes memory buf size,bytes memory addr len⟩]
    fromQueue := s.fromQueue ++ s.socket.buffer_list_.head?.toList }

@[simp] theorem taken_socket (buf size addr len : Nat) (s : World) :
    (taken memory buf size addr len s).socket = s.socket := rfl

def answered : Query → Result → World → World
  | .sendto _ buf size addr len,a,s => if a.ret > 0 then taken memory buf size addr len s else s
  | _,_,s => s

def began : Method → World → World
  | .send buf size addr len,s => { s with sent := s.sent ++ [meant memory ⟨⟨buf,size⟩,addr,len⟩] }
  | .sendList list,s => { s with sent := s.sent ++ list.map (meant memory) }
  | _,s => s

def system : System World Query Result Callback Method where
  body := body host
  answered := answered memory
  began := began memory
  invoked := fun _ s => s

/-- Sends of at least one byte and write events in any order, sends from inside callbacks
too; the kernel takes a datagram whole or refuses it for the time being. -/
def sending : Environment World Query Result Callback Method where
  admits := fun _ _ q a =>
    match q with
    | .sendto _ _ size _ _ => decide (a.ret = size) || (a.ret == -1 && !fatal a.errno)
    | .lockEntry | .insertEntry _ => true
    | _ => false
  enters := fun _ _ m =>
    match m with
    | .send _ size _ _ => decide (1 ≤ size)
    | .sendList list => list.all fun node => decide (1 ≤ node.base.size)
    | .onWrite => true
    | _ => false

/-- A node that the kernel has taken, and whether from the queue. -/
structure Passed where
  node : UdpBufferNode
  waited : Bool

def Passed.datagram (passed : Passed) : Datagram :=
  if passed.waited then queued memory passed.node else meant memory passed.node

structure Accounts (passed : List Passed) (pending : List UdpBufferNode) (s : World) : Prop where
  sent : s.sent = (passed.map Passed.node ++ pending).map (meant memory)
  accepted : s.accepted = passed.map (Passed.datagram memory)
  fromQueue : s.fromQueue = (passed.filter Passed.waited).map Passed.node

def Accounted (pending : List UdpBufferNode) (s : World) : Prop :=
  ∃ passed, Accounts memory passed pending s

def Waiting (s : World) : Prop := Accounted memory s.socket.buffer_list_ s

def outputContract : Contract World Query Callback Method where
  inv := fun _ s => Waiting memory s
  rely := fun _ _ _ => True
  pre := fun _ m s =>
    match m with
    | .send _ _ _ _ | .sendList _ | .onWrite | .writeLoop => Waiting memory s
    | _ => False
  post := fun _ _ _ after => Waiting memory after
  asks := fun _ _ s => ∃ pending, Accounted memory pending s
  mayFault := False

section Steps
variable {memory} {passed : List Passed} {pending : List UdpBufferNode} {s : World}

theorem Accounts.append (accounts : Accounts memory passed pending s) (list : List UdpBufferNode) :
    Accounts memory passed (pending ++ list) { s with sent := s.sent ++ list.map (meant memory) } := by
  constructor
  · simp [accounts.sent]
  · exact accounts.accepted
  · exact accounts.fromQueue

/-- The kernel takes a datagram straight from `SendInLoop`: the queue is empty. -/
theorem Accounts.direct {buf size addr len : Nat}
    (accounts : Accounts memory passed [⟨⟨buf,size⟩,addr,len⟩] s)
    (empty : s.socket.buffer_list_ = []) :
    Accounts memory (passed ++ [⟨⟨⟨buf,size⟩,addr,len⟩,false⟩]) [] (taken memory buf size addr len s) := by
  constructor
  · simp [taken,accounts.sent]
  · simp [taken,accounts.accepted,Passed.datagram,meant]
  · simp [taken,accounts.fromQueue,empty]

/-- The kernel takes what `OnWrite` shows it of the front of the queue. -/
theorem Accounts.front {node : UdpBufferNode} (accounts : Accounts memory passed (node :: pending) s)
    (waiting : s.socket.buffer_list_ = node :: pending) :
    Accounts memory (passed ++ [⟨node,true⟩]) pending
      (taken memory node.addr node.base.size node.addr node.sock_len s) := by
  constructor
  · simp [taken,accounts.sent]
  · simp [taken,accounts.accepted,Passed.datagram,queued]
  · simp [taken,accounts.fromQueue,waiting]

end Steps

section Bodies
variable {s : World} (ctx : List Callback)

theorem waiting_enable (on : Bool) (holds : Waiting memory s) :
    Waiting memory (enableEventWriting on s) := by
  obtain ⟨passed,accounts⟩ := holds
  unfold enableEventWriting
  split
  · exact ⟨passed,accounts.sent,accounts.accepted,accounts.fromQueue⟩
  · exact ⟨passed,accounts⟩

theorem sendNode_waiting (buf size addr len : Nat)
    (accounted : Accounted memory (s.socket.buffer_list_ ++ [⟨⟨buf,size⟩,addr,len⟩]) s) :
    wp (system memory) sending (outputContract memory) ctx (sendNode host buf size addr len)
      (fun _ after => Waiting memory after) s := by
  obtain ⟨passed,accounts⟩ := accounted
  simp only [sendNode,host,wp_bind,wp_modify]
  exact waiting_enable memory true ⟨passed,accounts.sent,accounts.accepted,accounts.fromQueue⟩

/-- `sendto` takes the datagram or leaves everything as it is. -/
theorem wp_sendto {fd : Int} {buf size addr len : Nat} {pending : List UdpBufferNode} {goal : Result → World → Prop}
    (accounted : Accounted memory pending s)
    (took : ∀ a : Result, a.ret > 0 → goal a (taken memory buf size addr len s))
    (refused : ∀ a : Result, ¬a.ret > 0 → (a.ret < 0 → fatal a.errno = false) → goal a s) :
    wp (system memory) sending (outputContract memory) ctx
      (Prog.query (.sendto fd buf size addr len)) goal s := by
  rw [wp_query]
  constructor
  · exact ⟨pending,accounted⟩
  intro a admitted
  by_cases positive : a.ret > 0
  · have same : (system memory).answered (.sendto fd buf size addr len) a s = taken memory buf size addr len s :=
      if_pos positive
    rw [same]
    exact took a positive
  · have same : (system memory).answered (.sendto fd buf size addr len) a s = s := if_neg positive
    rw [same]
    apply refused a positive
    intro negative
    simp only [sending,Bool.or_eq_true,Bool.and_eq_true,decide_eq_true_eq,Bool.not_eq_true'] at admitted
    rcases admitted with whole | again
    · omega
    · exact again.2

theorem send_waiting (buf size addr len : Nat) (holds : Waiting memory s) :
    wp (system memory) sending (outputContract memory) ctx (body host (.send buf size addr len))
      (fun _ after => Waiting memory after) (began memory (.send buf size addr len) s) := by
  obtain ⟨passed,accounts⟩ := holds
  have started := accounts.append [⟨⟨buf,size⟩,addr,len⟩]
  change Accounts memory passed _ (began memory (.send buf size addr len) s) at started
  have same : (began memory (.send buf size addr len) s).socket = s.socket := rfl
  rw [← same] at started
  generalize began memory (.send buf size addr len) s = begun at started
  simp only [body,sendInLoop,host,wp_bind,wp_read,wp_pure,wp_ite]
  constructor
  · intro empty
    rw [empty,List.nil_append] at started
    apply wp_sendto memory ctx ⟨passed,started⟩
    · intro a took
      have gone := started.direct empty
      rw [if_pos took,wp_pure,Waiting,taken_socket,empty]
      exact ⟨_,gone⟩
    · intro a refused _
      rw [if_neg refused]
      apply sendNode_waiting
      rw [empty]
      exact ⟨passed,started⟩
  · intro _
    exact sendNode_waiting memory ctx buf size addr len ⟨passed,started⟩

theorem sendList_waiting (list : List UdpBufferNode) (holds : Waiting memory s) :
    wp (system memory) sending (outputContract memory) ctx (body host (.sendList list))
      (fun _ after => Waiting memory after) (began memory (.sendList list) s) := by
  obtain ⟨passed,accounts⟩ := holds
  obtain ⟨sent,accepted,fromQueue⟩ := accounts.append list
  simp only [body,sendListInLoop,host,wp_bind,wp_read,wp_pure,wp_ite,wp_modify]
  constructor
  · exact fun _ => waiting_enable memory true ⟨passed,sent,accepted,fromQueue⟩
  · exact fun _ => ⟨passed,sent,accepted,fromQueue⟩

theorem writeTurn_waiting (holds : Waiting memory s) :
    wp (system memory) sending (outputContract memory) ctx (writeTurn host)
      (fun _ after => Waiting memory after) s := by
  simp only [writeTurn,host,wp_bind,wp_read,wp_pure,wp_ite,wp_invoke,wp_run]
  constructor
  · exact fun _ => ⟨fun _ => ⟨holds,fun _ _ inv => inv⟩,fun _ => holds⟩
  · exact fun _ => ⟨holds,fun _ done => done⟩

theorem writeLoop_waiting (holds : Waiting memory s) :
    wp (system memory) sending (outputContract memory) ctx (body host .writeLoop)
      (fun _ after => Waiting memory after) s := by
  obtain ⟨passed,accounts⟩ := holds
  simp only [body,writeLoop,host,wp_bind,wp_read,wp_pure]
  cases queue : s.socket.buffer_list_ with
  | nil => exact writeTurn_waiting memory ctx ⟨passed,accounts⟩
  | cons node rest =>
    rw [queue] at accounts
    rw [wp_bind]
    apply wp_sendto memory ctx ⟨passed,accounts⟩
    · intro a took
      obtain ⟨sent,accepted,fromQueue⟩ := accounts.front queue
      rw [if_pos took,wp_bind,wp_modify]
      apply writeTurn_waiting
      simp only [Waiting,taken_socket,queue,List.tail_cons]
      exact ⟨_,sent,accepted,fromQueue⟩
    · intro a refused passing
      have kept : Waiting memory s := ⟨passed,by rw [queue]; exact accounts⟩
      rw [if_neg refused]
      split
      · next negative =>
        rw [passing negative]
        exact kept
      · exact writeTurn_waiting memory ctx kept

theorem onWrite_waiting (holds : Waiting memory s) :
    wp (system memory) sending (outputContract memory) ctx (body host .onWrite)
      (fun _ after => Waiting memory after) s := by
  have turn : wp (system memory) sending (outputContract memory) ctx (Prog.run .writeLoop)
      (fun _ after => Waiting memory after) s := ⟨holds,fun _ done => done⟩
  simp only [body,onWrite,entendLife,host,wp_bind,wp_read,wp_pure,wp_ite,wp_query]
  constructor
  · exact fun _ => holds
  intro _
  constructor
  · exact ⟨_,holds⟩
  intro a _
  constructor
  · exact fun _ => ⟨⟨_,holds⟩,fun _ _ => turn⟩
  · exact fun _ => turn

end Bodies

theorem output_sound : (outputContract memory).Sound (system memory) sending where
  rely_refl := fun _ _ => trivial
  rely_trans := fun _ _ _ _ _ _ => trivial
  body := by
    intro ctx m s pre
    cases m with
    | send buf size addr len => exact send_waiting memory ctx buf size addr len pre
    | sendList list => exact sendList_waiting memory ctx list pre
    | onWrite => exact onWrite_waiting memory ctx pre
    | writeLoop => exact writeLoop_waiting memory ctx pre
    | _ => exact pre.elim
  enter := by
    intro ctx m s inv allowed
    cases m with
    | send | sendList | onWrite => exact inv
    | _ => simp [sending] at allowed
  leave := fun _ _ _ _ _ _ done => ⟨done,trivial⟩

structure Fresh (s : World) : Prop where
  queue : s.socket.buffer_list_ = []
  accepted : s.accepted = []
  sent : s.sent = []
  fromQueue : s.fromQueue = []

def Settled (c : Config World Query Result Callback Method) : Prop :=
  c.controlled ∨ ∃ q next rest, c.stack = .code (.ask q next) :: rest

theorem reachable_accounted (s : World) (c : Config World Query Result Callback Method) (fresh : Fresh s)
    (reached : (system memory).Reachable sending s c) (settled : Settled c) :
    ∃ passed pending, Accounts memory passed pending c.state := by
  have start : Waiting memory s := by
    refine ⟨[],?_,?_,?_⟩
    · simp [fresh.sent,fresh.queue]
    · simp [fresh.accepted]
    · simp [fresh.fromQueue]
  rcases settled with controlled | ⟨q,next,rest,top⟩
  · obtain ⟨passed,accounts⟩ := reachable_invariant (output_sound memory) s c start reached controlled
    exact ⟨passed,_,accounts⟩
  · obtain ⟨pending,passed,accounts⟩ := reachable_asks (output_sound memory) s c start reached top
    exact ⟨passed,pending,accounts⟩

/-- A datagram from the queue is the one that was sent where the socket address starts with
the bytes of the payload. -/
theorem queued_meant (node : UdpBufferNode) :
    queued memory node = meant memory node ↔
      bytes memory node.addr node.base.size = bytes memory node.base.addr node.base.size := by
  simp [queued,meant]

theorem Accounts.prefix_iff {memory : Nat → UInt8} {passed : List Passed} {pending : List UdpBufferNode}
    {s : World} (accounts : Accounts memory passed pending s) :
    s.accepted <+: s.sent ↔ ∀ node ∈ s.fromQueue,
      bytes memory node.addr node.base.size = bytes memory node.base.addr node.base.size := by
  have length : s.accepted.length = (passed.map fun p => meant memory p.node).length := by
    simp [accounts.accepted]
  have sent : s.sent = (passed.map fun p => meant memory p.node) ++ pending.map (meant memory) := by
    simp [accounts.sent]
  have same : s.accepted <+: s.sent ↔ s.accepted = passed.map fun p => meant memory p.node := by
    rw [sent]
    constructor
    · intro before
      exact List.IsPrefix.eq_of_length (List.prefix_of_prefix_length_le before
        (List.prefix_append _ _) (Nat.le_of_eq length)) length
    · intro eq
      rw [eq]
      exact List.prefix_append _ _
  rw [same,accounts.accepted,accounts.fromQueue,List.map_inj_left]
  constructor
  · intro agree node member
    obtain ⟨p,among,rfl⟩ := List.mem_map.mp member
    obtain ⟨inside,waited⟩ := List.mem_filter.mp among
    have eq := agree p inside
    rw [Passed.datagram,if_pos waited] at eq
    exact (queued_meant memory p.node).mp eq
  · intro agree p inside
    rw [Passed.datagram]
    split
    · next waited =>
      have member := List.mem_map_of_mem (f := Passed.node) (List.mem_filter.mpr ⟨inside,waited⟩)
      exact (queued_meant memory p.node).mpr (agree p.node member)
    · rfl

/-- In every run the datagrams the kernel has accepted are the first of those sent exactly
if each that came from the queue has its payload's bytes at its socket address. -/
theorem datagrams_intact (s : World) (c : Config World Query Result Callback Method) (fresh : Fresh s)
    (reached : (system memory).Reachable sending s c) (settled : Settled c) :
    c.state.accepted <+: c.state.sent ↔ ∀ node ∈ c.state.fromQueue,
      bytes memory node.addr node.base.size = bytes memory node.base.addr node.base.size := by
  obtain ⟨passed,pending,accounts⟩ := reachable_accounted memory s c fresh reached settled
  exact accounts.prefix_iff

/-- Order, sizes and destinations are right in every run. -/
theorem datagrams_in_order (s : World) (c : Config World Query Result Callback Method) (fresh : Fresh s)
    (reached : (system memory).Reachable sending s c) (settled : Settled c) :
    (c.state.accepted.map fun d => (d.payload.length,d.address)) <+:
      c.state.sent.map fun d => (d.payload.length,d.address) := by
  obtain ⟨passed,pending,accounts⟩ := reachable_accounted memory s c fresh reached settled
  have alike : passed.map ((fun d => (d.payload.length,d.address)) ∘ Passed.datagram memory) =
      passed.map (((fun d => (d.payload.length,d.address)) ∘ meant memory) ∘ Passed.node) := by
    apply List.map_congr_left
    intro p _
    simp only [Function.comp_apply,Passed.datagram]
    split
    · simp [queued,meant]
    · rfl
  rw [accounts.accepted,accounts.sent,List.map_append,List.map_append,List.map_map,List.map_map,List.map_map,
    alike]
  exact List.prefix_append _ _

end Memory

def idle : World where
  socket := ⟨7,kEventRead,false,[],30,.initial message_buffer_size_,true,true,true⟩
  registered := true
  interest := kEventRead
  accepted := []
  sent := []
  fromQueue := []

theorem idle_fresh : Fresh idle := ⟨rfl,rfl,rfl,rfl⟩

def letters (address : Nat) : UInt8 := UInt8.ofNat (97 + address)

/-- One datagram goes out at once; the next two are refused first and go out later, and their
payloads are what stands at their socket addresses. -/
theorem datagrams_intact_direct :
    ∃ c, Settled c ∧ c.state.accepted.length = 2 ∧
      (c.state.accepted <+: c.state.sent ↔ ∀ node ∈ c.state.fromQueue,
        bytes letters node.addr node.base.size = bytes letters node.base.addr node.base.size) := by
  have reached := (system letters).play_reachable sending 40
    [.enter (.send 1 2 10 2),.answer ⟨2,0,[]⟩,.enter (.send 10 1 10 2),.answer ⟨-1,EAGAIN,[]⟩,
      .enter .onWrite,.answer ⟨0,0,[]⟩,.answer ⟨1,0,[]⟩] idle _ rfl
  refine ⟨_,?_,?_,datagrams_intact letters idle _ idle_fresh reached ?_⟩
  · exact Or.inl trivial
  · rfl
  · exact Or.inl trivial

/-- A refused datagram leaves the queue with the first byte of its destination for payload. -/
theorem datagram_corrupted :
    ∃ c, (system letters).Reachable sending idle c ∧ c.controlled ∧
      c.state.sent = [⟨[98],[107,108]⟩] ∧ c.state.accepted = [⟨[107],[107,108]⟩] ∧
      ¬c.state.accepted <+: c.state.sent := by
  have reached := (system letters).play_reachable sending 40
    [.enter (.send 1 1 10 2),.answer ⟨-1,EAGAIN,[]⟩,.enter .onWrite,.answer ⟨0,0,[]⟩,.answer ⟨1,0,[]⟩]
    idle _ rfl
  refine ⟨_,reached,trivial,by decide,by decide,?_⟩
  decide

end Tmms.Network.UdpOutput
