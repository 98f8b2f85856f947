import Mathlib.Data.List.AList
import Mathlib.Data.List.Nodup
import Tmms.TcpConnectionRules

/-! Registration of descriptors and dispatch of ready events. The loop keeps `events_` by
number, the kernel keeps the open numbers and the interest list of `epoll_fd_`, and each
event object keeps its own `fd_` and `event_`. The handlers a batch calls are user code. -/
namespace Tmms.Network

open Reentrant

/-- An event object, by what it is. -/
inductive EventPtr where
  | acceptor (n : Nat)
  | connection (n : Nat)
  deriving DecidableEq, Repr

structure Event where
  fd_ : Int
  event_ : Mask
  deriving DecidableEq

structure Kernel where
  opened : List Int
  interest : Int → Option Mask

namespace Kernel

/-- The first number that is not in use. -/
def firstUnused (opened : List Int) : Option Nat :=
  (List.range (opened.length + 1)).find? fun n => decide ((n : Int) ∉ opened)

def lowestUnused (opened : List Int) : Int := ((firstUnused opened).getD 0 : Nat)

def opens (fd : Int) (k : Kernel) : Kernel := { k with opened := fd :: k.opened }

def close (fd : Int) (k : Kernel) : Kernel where
  opened := k.opened.filter (· ≠ fd)
  interest := Function.update k.interest fd none

/-- `EPOLL_CTL_ADD`, refused with `EBADF` or `EEXIST`. -/
def epollAdd (fd : Int) (events : Mask) (k : Kernel) : Kernel :=
  if fd ∈ k.opened ∧ k.interest fd = none then
    { k with interest := Function.update k.interest fd (some events) }
  else k

/-- `EPOLL_CTL_MOD`, refused with `ENOENT`. -/
def epollMod (fd : Int) (events : Mask) (k : Kernel) : Kernel :=
  if k.interest fd = none then k
  else { k with interest := Function.update k.interest fd (some events) }

def epollDel (fd : Int) (k : Kernel) : Kernel :=
  { k with interest := Function.update k.interest fd none }

@[simp] theorem epollAdd_opened (fd : Int) (events : Mask) (k : Kernel) :
    (k.epollAdd fd events).opened = k.opened := by
  unfold epollAdd; split <;> rfl

@[simp] theorem epollMod_opened (fd : Int) (events : Mask) (k : Kernel) :
    (k.epollMod fd events).opened = k.opened := by
  unfold epollMod; split <;> rfl

@[simp] theorem epollDel_opened (fd : Int) (k : Kernel) : (k.epollDel fd).opened = k.opened := rfl

/-- The number handed out is free, and every smaller one is in use. -/
theorem lowestUnused_spec (opened : List Int) :
    0 ≤ lowestUnused opened ∧ lowestUnused opened ∉ opened ∧
      ∀ n, 0 ≤ n → n < lowestUnused opened → n ∈ opened := by
  cases found : firstUnused opened with
  | none =>
    rw [firstUnused,List.find?_eq_none] at found
    have inside : (List.range (opened.length + 1)).map Nat.cast ⊆ opened := by
      intro n among
      obtain ⟨m,small,rfl⟩ := List.mem_map.mp among
      simpa using found m small
    have distinct : ((List.range (opened.length + 1)).map (Nat.cast : Nat → Int)).Nodup :=
      List.nodup_range.map Nat.cast_injective
    have crowded := (distinct.subperm inside).length_le
    rw [List.length_map,List.length_range] at crowded
    omega
  | some n =>
    obtain ⟨free,k,bound,at_k,before⟩ := List.find?_eq_some_iff_getElem.mp found
    rw [List.getElem_range] at at_k
    subst at_k
    simp only [lowestUnused,found,Option.getD_some]
    refine ⟨by simp,by simpa using free,?_⟩
    intro m nonneg smaller
    obtain ⟨j,rfl⟩ := Int.eq_ofNat_of_zero_le nonneg
    have under : j < k := by simpa using smaller
    simpa using before j under

end Kernel

structure EventLoop where
  events_ : AList fun _ : Int => EventPtr
  kernel : Kernel

namespace EventLoop

/-- `EventLoop::AddEvent`. The object's mask changes too. -/
def addEvent (event : EventPtr) (e : Event) (l : EventLoop) : Event × EventLoop :=
  match l.events_.lookup e.fd_ with
  | some _ => (e,l)
  | none =>
    let e := { e with event_ := e.event_ ||| kEventRead }
    (e,⟨l.events_.insert e.fd_ event,l.kernel.epollAdd e.fd_ e.event_⟩)

def delEvent (e : Event) (l : EventLoop) : EventLoop :=
  match l.events_.lookup e.fd_ with
  | none => l
  | some _ => ⟨l.events_.erase e.fd_,l.kernel.epollDel e.fd_⟩

/-- `EventLoop::EnableEventWriting` and `EventLoop::EnableEventReading`; `none` where they
return false. -/
def enableEvent (bits : Mask) (e : Event) (enable : Bool) (l : EventLoop) :
    Option (Event × EventLoop) :=
  match l.events_.lookup e.fd_ with
  | none => none
  | some _ =>
    let e := { e with event_ := e.event_.enable bits enable }
    some (e,{ l with kernel := l.kernel.epollMod e.fd_ e.event_ })

section Lookup
variable (event : EventPtr) (e : Event) (l : EventLoop) (fd : Int)

theorem addEvent_lookup (absent : l.events_.lookup e.fd_ = none) :
    (l.addEvent event e).2.events_.lookup fd = if fd = e.fd_ then some event else l.events_.lookup fd := by
  simp only [addEvent,absent]
  by_cases here : fd = e.fd_
  · rw [if_pos here,here,AList.lookup_insert]
  · rw [if_neg here,AList.lookup_insert_ne here]

theorem addEvent_opened : (l.addEvent event e).2.kernel.opened = l.kernel.opened := by
  unfold addEvent
  split
  · rfl
  · exact Kernel.epollAdd_opened _ _ _

theorem delEvent_lookup :
    (l.delEvent e).events_.lookup fd = if fd = e.fd_ then none else l.events_.lookup fd := by
  unfold delEvent
  split
  · next absent =>
    by_cases here : fd = e.fd_
    · rw [if_pos here,here,absent]
    · rw [if_neg here]
  · by_cases here : fd = e.fd_
    · rw [if_pos here,here,AList.lookup_erase]
    · rw [if_neg here,AList.lookup_erase_ne here]

theorem delEvent_opened : (l.delEvent e).kernel.opened = l.kernel.opened := by
  unfold delEvent
  split <;> rfl

/-- Changing a mask changes neither the entries nor the open numbers. -/
theorem enableEvent_same {bits : Mask} {on : Bool} {changed : Event} {after : EventLoop}
    (enabled : l.enableEvent bits e on = some (changed,after)) :
    after.events_ = l.events_ ∧ after.kernel.opened = l.kernel.opened := by
  unfold enableEvent at enabled
  split at enabled
  · cases enabled
  · cases enabled
    exact ⟨rfl,Kernel.epollMod_opened _ _ _⟩

end Lookup
end EventLoop

structure EpollEvent where
  fd : Int
  events : Mask

inductive Handler where
  | onError
  | onClose
  | onRead
  | onWrite
  deriving DecidableEq

/-- The handler the loop chooses; an error goes before a hang-up, a hang-up with nothing left
to read before a read, and a read before a write. -/
def EpollEvent.handler (ev : EpollEvent) : Option Handler :=
  if ev.events.has EPOLLERR then some .onError
  else if ev.events.has EPOLLHUP && !ev.events.has EPOLLIN then some .onClose
  else if ev.events.has (EPOLLIN ||| EPOLLPRI) then some .onRead
  else if ev.events.has EPOLLOUT then some .onWrite
  else none

/-- An effective `AddEvent`, numbered in the order in which they happen. -/
structure Registration where
  event : EventPtr
  serial : Nat
  deriving DecidableEq

/-- A handler called by the loop: the entry's number, the registration found under it, the
one that was there when `epoll_wait` returned, and how many there had been by then. -/
structure Delivery where
  fd : Int
  found : Option Registration
  polled : Option Registration
  since : Nat

namespace EventLoop

/-- A loop, acceptors, and connections numbered in the order they were made in. -/
structure World where
  loop : EventLoop
  acceptors : Nat → Event
  connections : Nat → TcpConnection
  made : Nat
  -- registrations so far, the last one under each number, those in force when `epoll_wait` last
  -- returned, and what has been delivered
  serial : Nat
  serials : Int → Nat
  polled : Int → Option Registration
  since : Nat
  deliveries : List Delivery

namespace World
variable (s : World)

def event : EventPtr → Event
  | .acceptor n => s.acceptors n
  | .connection n => ⟨(s.connections n).fd_,(s.connections n).event_⟩

def setEvent (event : EventPtr) (e : Event) : World :=
  match event with
  | .acceptor n => { s with acceptors := Function.update s.acceptors n e }
  | .connection n =>
    let c := { s.connections n with fd_ := e.fd_, event_ := e.event_ }
    { s with connections := Function.update s.connections n c }

def update (n : Nat) (f : TcpConnection → TcpConnection) : World :=
  { s with connections := Function.update s.connections n (f (s.connections n)) }

def registration (fd : Int) : Option Registration :=
  (s.loop.events_.lookup fd).map fun event => ⟨event,s.serials fd⟩

/-- The history of an `AddEvent` under `fd`. -/
def noted (fd : Int) : World :=
  if (s.loop.events_.lookup fd).isNone then
    { s with serial := s.serial + 1, serials := Function.update s.serials fd s.serial }
  else s

def addEvent (event : EventPtr) : World :=
  let added := s.loop.addEvent event (s.event event)
  { (s.noted (s.event event).fd_).setEvent event added.1 with loop := added.2 }

def delEvent (event : EventPtr) : World := { s with loop := s.loop.delEvent (s.event event) }

def enableEvent (bits : Mask) (event : EventPtr) (enable : Bool) : World :=
  match s.loop.enableEvent bits (s.event event) enable with
  | none => s
  | some (e,loop) => { s.setEvent event e with loop := loop }

end World

inductive Query where
  | io (q : TcpConnection.Query)
  | socket
  | accept

inductive Callback where
  | close (n : Nat)
  | message (n : Nat)
  | writeComplete (n : Nat)
  -- a virtual call of the loop, and the numbers still ahead in the batch
  | handle (fd : Int) (handler : Handler) (ahead : List Int)
  deriving DecidableEq

inductive Method where
  | start (n : Nat)
  | stop (n : Nat)
  | acceptorOnClose (n : Nat)
  -- one connection accepted, with these callbacks set
  | accept (close_cb_ message_cb_ write_complete_cb_ : Bool)
  | addEvent (event : EventPtr)
  | delEvent (event : EventPtr)
  | enableReading (event : EventPtr) (enable : Bool)
  | enableWriting (event : EventPtr) (enable : Bool)
  | close (event : EventPtr)
  | connection (n : Nat) (m : TcpConnection.Method)
  | dispatch (batch : List EpollEvent)

abbrev Code := Prog World Query Result Callback Method

def host (n : Nat) : Host World Query Result Callback Method where
  self := do return (← Prog.read).connections n
  update := fun f => .modify (·.update n f)
  closeCallback := .invoke (.close n)
  messageCallback := .invoke (.message n)
  writeCompleteCallback := .invoke (.writeComplete n)
  write := fun fd buf size => .query (.io (.write fd buf size))
  writev := fun fd vec => .query (.io (.writev fd vec))
  readFd := fun fd => .query (.io (.readFd fd))
  closeFd := fun fd => do let _ ← Prog.query (.io (.close fd))
  enableWriting := fun on => .modify (·.enableEvent kEventWrite (.connection n) on)
  onClose := .run (.connection n .onClose)
  readLoop := .run (.connection n .readLoop)
  writeLoop := .run (.connection n .writeLoop)

def closeAcceptor (n : Nat) : Code Unit := do
  let s ← Prog.read
  let e := s.acceptors n
  if e.fd_ > 0 then do
    let _ ← Prog.query (.io (.close e.fd_))
    Prog.modify (·.setEvent (.acceptor n) { e with fd_ := -1 })

/-- `Acceptor::Open`. Without a socket the process ends. -/
def openAcceptor (n : Nat) : Code Unit := do
  closeAcceptor n
  let socket ← Prog.query .socket
  Prog.modify fun s => s.setEvent (.acceptor n) { s.acceptors n with fd_ := socket.ret }
  if socket.ret < 0 then .fault
  else Prog.modify (·.addEvent (.acceptor n))

def accept (close_cb_ message_cb_ write_complete_cb_ : Bool) : Code Unit := do
  let socket ← Prog.query .accept
  if socket.ret ≥ 0 then
    Prog.modify fun s =>
      let c := ⟨socket.ret,0,false,close_cb_,message_cb_,write_complete_cb_,[],[]⟩
      { s with connections := Function.update s.connections s.made c, made := s.made + 1 }

/-- The body of the `for` loop over a batch. -/
def deliver (ev : EpollEvent) (ahead : List Int) : Code Unit := do
  let s ← Prog.read
  if ev.fd > 0 ∧ (s.loop.events_.lookup ev.fd).isSome then
    match ev.handler with
    | some handler => Prog.invoke (.handle ev.fd handler ahead)
    | none => pure ()

def walk : List EpollEvent → Code Unit
  | [] => pure ()
  | ev :: batch => do
    deliver ev (batch.map EpollEvent.fd)
    walk batch

def body : Method → Code Unit
  | .start n => openAcceptor n
  | .stop n => Prog.modify (·.delEvent (.acceptor n))
  | .acceptorOnClose n => do
    Prog.modify (·.delEvent (.acceptor n))
    openAcceptor n
  | .accept close_cb_ message_cb_ write_complete_cb_ => accept close_cb_ message_cb_ write_complete_cb_
  | .addEvent event => Prog.modify (·.addEvent event)
  | .delEvent event => Prog.modify (·.delEvent event)
  | .enableReading event enable => Prog.modify (·.enableEvent kEventRead event enable)
  | .enableWriting event enable => Prog.modify (·.enableEvent kEventWrite event enable)
  | .close (.acceptor n) => closeAcceptor n
  | .close (.connection n) => TcpConnection.close (host n)
  | .connection n m => TcpConnection.body (host n) m
  | .dispatch batch => walk batch

def World.onKernel (f : Kernel → Kernel) (s : World) : World :=
  { s with loop := { s.loop with kernel := f s.loop.kernel } }

def answered : Query → Result → World → World
  | .io (.close fd),_,s => s.onKernel (.close fd)
  | .io _,_,s => s
  | .socket,a,s | .accept,a,s => if 0 ≤ a.ret then s.onKernel (.opens a.ret) else s

def began : Method → World → World
  | .dispatch _,s => { s with polled := s.registration, since := s.serial }
  | _,s => s

def invoked : Callback → World → World
  | .handle fd _ _,s =>
    { s with deliveries := s.deliveries ++ [⟨fd,s.registration fd,s.polled fd,s.since⟩] }
  | _,s => s

def system : System World Query Result Callback Method := ⟨body,answered,began,invoked⟩

def World.constructed (s : World) : EventPtr → Bool
  | .acceptor _ => true
  | .connection n => decide (n < s.made)

/-- The loop's thread: operations in any order and from inside any callback or handler,
batches one at a time, and a kernel that hands out the lowest unused number. -/
def anyUse : Environment World Query Result Callback Method where
  admits := fun _ s q a =>
    match q with
    | .socket | .accept => a.ret == Kernel.lowestUnused s.loop.kernel.opened || decide (a.ret < 0)
    | .io (.writev _ vec) => decide (a.ret ≤ total vec)
    | .io _ => true
  enters := fun ctx s m =>
    match m with
    | .addEvent event | .delEvent event | .enableReading event _ | .enableWriting event _
      | .close event => s.constructed event
    | .connection _ .readLoop | .connection _ .writeLoop => false
    | .connection n _ => decide (n < s.made)
    | .dispatch _ => ctx.isEmpty
    | _ => true

structure Fresh (s : World) : Prop where
  events_ : s.loop.events_ = ∅
  interest : s.loop.kernel.interest = fun _ => none
  acceptors : ∀ n, (s.acceptors n).fd_ = -1
  connections : ∀ n, (s.connections n).fd_ = -1
  polled : s.polled = fun _ => none
  since : s.since = 0
  deliveries : s.deliveries = []

/-- The standard streams and `epoll_fd_` are open. -/
def start : World where
  loop := ⟨∅,⟨[0,1,2,3],fun _ => none⟩⟩
  acceptors := fun _ => ⟨-1,0⟩
  connections := fun _ => ⟨-1,0,false,false,false,false,[],[]⟩
  made := 0
  serial := 0
  serials := fun _ => 0
  polled := fun _ => none
  since := 0
  deliveries := []

theorem start_fresh : Fresh start := ⟨rfl,rfl,fun _ => rfl,fun _ => rfl,rfl,rfl,rfl⟩

end EventLoop
end Tmms.Network
