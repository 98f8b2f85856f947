import Tmms.EventLoop

/-! The connections of a server and who owns them. `connections_`, `events_` and the
temporaries of running calls hold shared pointers; when the last one goes, the object is
destroyed at once. The application keeps no pointer of its own, so its callbacks only see
connections that a running call holds, or reach them without owning them. -/
namespace Tmms.Network.TcpServer

open Reentrant

/-- A server and the connections it has accepted, numbered in that order. -/
structure World where
  loop : EventLoop
  connections : Nat → TcpConnection
  made : Nat
  connections_ : Nat → Bool
  -- shared pointers held by running calls
  temporaries : Nat → Nat
  destroyed : Nat → Bool
  new_connection_cb_ : Bool
  message_cb_ : Bool
  write_complete_cb_ : Bool
  destory_connection_cb : Bool

namespace World
variable (s : World) (c : Nat)

def event : Event := ⟨(s.connections c).fd_,(s.connections c).event_⟩

def update (f : TcpConnection → TcpConnection) : World :=
  { s with connections := Function.update s.connections c (f (s.connections c)) }

def setMask (mask : Mask) : World := s.update c fun this => { this with event_ := mask }

def setTemporaries (count : Nat) : World :=
  { s with temporaries := Function.update s.temporaries c count }

/-- Whether any shared pointer to the connection is left. -/
def owned : Bool :=
  s.connections_ c || decide (0 < s.temporaries c) ||
    s.loop.events_.entries.any fun entry => entry.2 == EventPtr.connection c

def enableWriting (on : Bool) : World :=
  match s.loop.enableEvent kEventWrite (s.event c) on with
  | none => s
  | some (e,loop) => { s.setMask c e.event_ with loop := loop }

def addEvent : World :=
  let added := s.loop.addEvent (.connection c) (s.event c)
  { s.setMask c added.1.event_ with loop := added.2 }

/-- `std::make_shared<TcpConnection>` and the callbacks `OnAccept` sets on it. -/
def construct (fd : Int) : World where
  loop := s.loop
  connections := Function.update s.connections s.made
    ⟨fd,0,false,true,s.message_cb_,s.write_complete_cb_,[],[]⟩
  made := s.made + 1
  connections_ := s.connections_
  temporaries := Function.update s.temporaries s.made 1
  destroyed := s.destroyed
  new_connection_cb_ := s.new_connection_cb_
  message_cb_ := s.message_cb_
  write_complete_cb_ := s.write_complete_cb_
  destory_connection_cb := s.destory_connection_cb

end World

structure Query where
  connection : Nat
  call : TcpConnection.Query

inductive Callback where
  | newConnection (c : Nat)
  | message (c : Nat)
  | writeComplete (c : Nat)
  | destoryConnection (c : Nat)
  deriving DecidableEq

inductive Method where
  | onAccept (fd : Int)
  | connection (c : Nat) (m : TcpConnection.Method)
  -- `~TimeoutEntry` and `~TcpConnection`
  | expire (c : Nat)
  | destructor (c : Nat)

abbrev Code := Prog World Query Result Callback Method

/-- A shared pointer to `c` has gone. -/
def dropped (c : Nat) : Code Unit := do
  let s ← Prog.read
  if s.owned c = false then Prog.run (.destructor c)

/-- `shared_from_this()` for a call; it throws when nobody owns the object. -/
def acquire (c : Nat) : Code Unit := do
  let s ← Prog.read
  if s.owned c then Prog.modify fun s => s.setTemporaries c (s.temporaries c + 1)
  else .fault

def release (c : Nat) : Code Unit := do
  Prog.modify fun s => s.setTemporaries c (s.temporaries c - 1)
  dropped c

def eraseConnection (c : Nat) : Code Unit := do
  let s ← Prog.read
  if s.connections_ c then do
    Prog.modify fun s => { s with connections_ := Function.update s.connections_ c false }
    dropped c

/-- `loop_->DelEvent(con)`: whatever is registered under the number loses an owner. -/
def delEvent (c : Nat) : Code Unit := do
  let s ← Prog.read
  let found := s.loop.events_.lookup (s.event c).fd_
  Prog.modify fun s => { s with loop := s.loop.delEvent (s.event c) }
  match found with
  | some (.connection d) => dropped d
  | _ => pure ()

def onConnectionClose (c : Nat) : Code Unit := do
  eraseConnection c
  delEvent c
  let s ← Prog.read
  if s.destory_connection_cb then Prog.invoke (.destoryConnection c)

def host (c : Nat) : Host World Query Result Callback Method where
  self := do
    let s ← Prog.read
    if s.destroyed c then .fault else return s.connections c
  update := fun f => .modify (·.update c f)
  closeCallback := do acquire c; onConnectionClose c; release c
  messageCallback := do acquire c; Prog.invoke (.message c); release c
  writeCompleteCallback := do acquire c; Prog.invoke (.writeComplete c); release c
  write := fun fd buf size => .query ⟨c,.write fd buf size⟩
  writev := fun fd vec => .query ⟨c,.writev fd vec⟩
  readFd := fun fd => .query ⟨c,.readFd fd⟩
  closeFd := fun fd => do let _ ← Prog.query ⟨c,.close fd⟩
  enableWriting := fun on => .modify (·.enableWriting c on)
  onClose := .run (.connection c .onClose)
  readLoop := .run (.connection c .readLoop)
  writeLoop := .run (.connection c .writeLoop)

/-- The entry in the timing wheel holds a weak pointer. -/
def enableCheckIdleTimeout (c : Nat) : Code Unit := do
  acquire c
  release c

def onAccept (fd : Int) : Code Unit := do
  let c := (← Prog.read).made
  Prog.modify (·.construct fd)
  Prog.modify fun s => { s with connections_ := Function.update s.connections_ c true }
  Prog.modify (·.addEvent c)
  enableCheckIdleTimeout c
  let s ← Prog.read
  if s.new_connection_cb_ then Prog.invoke (.newConnection c)
  release c

/-- `lock` gives no pointer once nobody owns the connection. -/
def expire (c : Nat) : Code Unit := do
  let s ← Prog.read
  if s.owned c then do
    acquire c
    Prog.run (.connection c .onTimeout)
    release c

/-- `~TcpConnection`, then `~Event`. -/
def destructor (c : Nat) : Code Unit := do
  TcpConnection.onClose (host c)
  TcpConnection.close (host c)
  Prog.modify fun s => { s with destroyed := Function.update s.destroyed c true }

def body : Method → Code Unit
  | .onAccept fd => onAccept fd
  | .connection c m => TcpConnection.body (host c) m
  | .expire c => expire c
  | .destructor c => destructor c

def answered (q : Query) (_ : Result) (s : World) : World :=
  match q.call with
  | .close fd => { s with loop := { s.loop with kernel := s.loop.kernel.close fd } }
  | _ => s

def system : System World Query Result Callback Method :=
  ⟨body,answered,fun _ s => s,fun _ s => s⟩

/-- The loop dispatches to any connection, runs functors and timers, and accepts; callbacks
may do the same, `Send` and `ForceClose` included. -/
def anyServer : Environment World Query Result Callback Method where
  admits := fun _ _ q a =>
    match q.call with
    | .writev _ vec => decide (a.ret ≤ total vec)
    | _ => true
  enters := fun _ s m =>
    match m with
    | .onAccept _ => true
    | .expire c => decide (c < s.made)
    | .connection _ .readLoop | .connection _ .writeLoop | .connection _ .onTimeout => false
    | .connection c _ => decide (c < s.made) && !s.destroyed c
    | .destructor _ => false

structure Fresh (s : World) : Prop where
  made : s.made = 0
  events_ : ∀ fd c, s.loop.events_.lookup fd ≠ some (.connection c)

def listening : World where
  loop := ⟨AList.insert 4 (.acceptor 0) ∅,⟨[0,1,2,3,4],Function.update (fun _ => none) 4 (some kEventRead)⟩⟩
  connections := fun _ => ⟨-1,0,false,false,false,false,[],[]⟩
  made := 0
  connections_ := fun _ => false
  temporaries := fun _ => 0
  destroyed := fun _ => false
  new_connection_cb_ := true
  message_cb_ := true
  write_complete_cb_ := true
  destory_connection_cb := true

theorem listening_fresh : Fresh listening := by
  constructor
  · rfl
  intro fd c found
  by_cases here : fd = 4
  · subst here
    cases found
  · rw [listening,AList.lookup_insert_ne here] at found
    cases found

end Tmms.Network.TcpServer
