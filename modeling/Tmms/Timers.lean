import Tmms.TcpConnectionRules
import Tmms.TimingWheel

/-! A loop's timing wheel at work. Timers and idle checks are set between ticks and from
inside the callbacks of a tick; an entry acts when the last pointer to it goes away, and
`PopUp` lets go of a slot's pointers one after another, in no particular order. -/
namespace Tmms.Network.Timers

open Reentrant TcpConnection

inductive Query where
  -- which pointer of the popped slot is let go of next
  | pick
  | io (conn : Nat) (query : TcpConnection.Query)
  deriving DecidableEq

inductive Answer where
  | entry (e : EntryPtr)
  | result (r : Result)

def Answer.toResult : Answer → Result
  | .result r => r
  | .entry _ => ⟨0,0,[]⟩

inductive Callback where
  | action (e : EntryPtr)
  | handler (conn : Nat) (callback : TcpConnection.Callback)
  deriving DecidableEq

inductive Method where
  | insertEntry (delay : Nat) (entryPtr : EntryPtr)
  | runAfter (delay cb : Nat)
  | runEvery (interval cb : Nat)
  | onTimer (now : Int)
  | popUp (type : TImingType)
  -- the rest of `~WheelEntry` for the popped slot
  | clear
  -- a pointer goes away
  | drop (e : EntryPtr)
  | destroy (e : EntryPtr)
  | enableCheckIdleTimeout (conn max_time : Nat)
  | extendLife (conn : Nat)
  | handler (conn : Nat) (method : TcpConnection.Method)
  -- the last owner of a connection goes away
  | expire (conn : Nat)
  deriving DecidableEq

structure Client where
  connection : TcpConnection
  registered : Bool
  alive : Bool
  timeout_entry_ : Option EntryPtr
  max_idle_time_ : Nat

/-- A call of `InsertEntry`: at which tick, and how often the ring for its delay had turned
by then. -/
structure Insertion where
  id : Nat
  entry : EntryPtr
  at_ : Nat
  delay : Nat
  turns : Nat
  deriving DecidableEq

/-- A destruction. `alive` says whether the connection of a `TimeoutEntry` was there. -/
structure Release where
  entry : EntryPtr
  at_ : Nat
  alive : Bool
  deriving DecidableEq

/-- What a destructor calls. -/
inductive Act where
  | callback (e : EntryPtr)
  | onTimeout (conn : Nat)
  deriving DecidableEq

/-- The wheel with the local `tmp` of `PopUp` while it is destroyed, and how many entries have been
made. The rest is what has happened, latest first: turns of each ring, calls of `InsertEntry`,
destructions of other entries than the coarse rings' own, what destructors have called and at which
tick, calls of `OnTimeout`, and reads and writes that moved bytes. -/
structure World where
  wheel : TimingWheel
  tmp : List EntryPtr
  made : Nat
  clients : Nat → Client
  turns : TImingType → Nat
  insertions : List Insertion
  released : List Release
  acts : List (Act × Nat)
  timeouts : List Nat
  activity : List (Nat × Nat)

abbrev Code := Prog World Query Answer Callback Method

namespace World

/-- Whether a slot or the popped slot still has a pointer that keeps `e` alive. -/
def owned (s : World) (e : EntryPtr) : Bool :=
  [.kTimingTypeSecond,.kTimingTypeMinute,.kTimingTypeHour,.kTimingTypeDay].any
    (fun type => (s.wheel.Wheels_ type).any fun slot => slot.any (·.holds e)) ||
  s.tmp.any (·.holds e)

def updateClient (conn : Nat) (f : Client → Client) (s : World) : World :=
  { s with clients := Function.update s.clients conn (f (s.clients conn)) }

end World

def io (conn : Nat) (query : TcpConnection.Query) : Code Result := do
  return (← Prog.query (.io conn query)).toResult

def host (conn : Nat) : Host World Query Answer Callback Method where
  self := do return ((← Prog.read).clients conn).connection
  update := fun f => .modify (·.updateClient conn fun c => { c with connection := f c.connection })
  closeCallback := .invoke (.handler conn .close)
  messageCallback := .invoke (.handler conn .message)
  writeCompleteCallback := .invoke (.handler conn .writeComplete)
  write := fun fd buf size => io conn (.write fd buf size)
  writev := fun fd vec => io conn (.writev fd vec)
  readFd := fun fd => io conn (.readFd fd)
  closeFd := fun fd => do let _ ← io conn (.close fd)
  enableWriting := fun on => .modify (·.updateClient conn fun c =>
    if c.registered then
      { c with connection := { c.connection with event_ := c.connection.event_.enable kEventWrite on } }
    else c)
  onClose := .run (.handler conn .onClose)
  readLoop := .run (.handler conn .readLoop)
  writeLoop := .run (.handler conn .writeLoop)

/-- `TimingWheel::InsertEntry`, after which the caller lets go of its own pointer. -/
def insertEntry (delay : Nat) (entryPtr : EntryPtr) : Code Unit := do
  let s ← Prog.read
  match s.wheel.insertEntry s.made delay entryPtr with
  | none => .fault
  | some wheel => do
    Prog.modify fun s => { s with wheel := wheel, made := s.made + 1 }
    Prog.run (.drop entryPtr)

def runAfter (delay cb : Nat) : Code Unit := do
  let s ← Prog.read
  Prog.modify fun s => { s with made := s.made + 1 }
  Prog.run (.insertEntry delay (.after s.made cb))

def runEvery (interval cb : Nat) : Code Unit := do
  let s ← Prog.read
  Prog.modify fun s => { s with made := s.made + 1 }
  Prog.run (.insertEntry interval (.every s.made interval cb))

def onTimer (now : Int) : Code Unit := do
  Prog.modify fun s =>
    if s.wheel.last_ts_ = 0 then { s with wheel := { s.wheel with last_ts_ := now } } else s
  let s ← Prog.read
  if now - s.wheel.last_ts_ < 1000 then pure ()
  else do
    Prog.modify fun s =>
      { s with wheel := { s.wheel with last_ts_ := now, tick_ := s.wheel.tick_ + 1 } }
    Prog.run (.popUp .kTimingTypeSecond)
    let s ← Prog.read
    if s.wheel.tick_ % kTimingMinute = 0 then Prog.run (.popUp .kTimingTypeMinute)
    else if s.wheel.tick_ % kTimingHour = 0 then Prog.run (.popUp .kTimingTypeHour)
    else if s.wheel.tick_ % kTimingDay = 0 then Prog.run (.popUp .kTimingTypeDay)

def popUp (type : TImingType) : Code Unit := do
  Prog.modify fun s => { s with wheel := (s.wheel.popUp type).2, tmp := (s.wheel.popUp type).1 }
  Prog.run .clear

def clear : Code Unit := do
  let s ← Prog.read
  if s.tmp = [] then pure ()
  else
    match ← Prog.query .pick with
    | .entry e => do
      Prog.modify fun s => { s with tmp := s.tmp.filter (· ≠ e) }
      Prog.run (.drop e)
      Prog.run .clear
    | .result _ => .fault

def drop (e : EntryPtr) : Code Unit := do
  let s ← Prog.read
  if s.owned e then pure () else Prog.run (.destroy e)

/-- `~CallBackEntry` and `~TimeoutEntry`. What a coarse ring's entry has captured is let go
of after the call. -/
def destroy (e : EntryPtr) : Code Unit :=
  match e with
  | .object _ => .invoke (.action e)
  | .after _ _ => .invoke (.action e)
  | .every _ interval cb => do
    Prog.invoke (.action e)
    Prog.run (.runEvery interval cb)
  | .cascade _ second entry => .run (.insertEntry second entry)
  | .timeout _ conn => do
    let s ← Prog.read
    if (s.clients conn).alive then Prog.run (.handler conn .onTimeout)

def enableCheckIdleTimeout (conn max_time : Nat) : Code Unit := do
  let s ← Prog.read
  let tp := EntryPtr.timeout s.made conn
  Prog.modify fun s => { s with made := s.made + 1 }
  Prog.modify (·.updateClient conn fun c =>
    { c with max_idle_time_ := max_time, timeout_entry_ := some tp })
  Prog.run (.insertEntry max_time tp)

/-- Private, and not called by any of the handlers. -/
def extendLife (conn : Nat) : Code Unit := do
  let s ← Prog.read
  match (s.clients conn).timeout_entry_ with
  | none => pure ()
  | some tp => if s.owned tp then Prog.run (.insertEntry (s.clients conn).max_idle_time_ tp)

def expire (conn : Nat) : Code Unit := do
  Prog.modify (·.updateClient conn fun c => { c with alive := false })
  Prog.run (.handler conn .onClose)

def body : Method → Code Unit
  | .insertEntry delay e => insertEntry delay e
  | .runAfter delay cb => runAfter delay cb
  | .runEvery interval cb => runEvery interval cb
  | .onTimer now => onTimer now
  | .popUp type => popUp type
  | .clear => clear
  | .drop e => drop e
  | .destroy e => destroy e
  | .enableCheckIdleTimeout conn max_time => enableCheckIdleTimeout conn max_time
  | .extendLife conn => extendLife conn
  | .handler conn m => TcpConnection.body (host conn) m
  | .expire conn => expire conn

/-- Reads and writes that move bytes are noted. -/
def answered : Query → Answer → World → World
  | .io conn (.readFd _),.result r,s | .io conn (.writev _ _),.result r,s =>
    if 0 < r.ret then { s with activity := (conn,s.wheel.tick_) :: s.activity } else s
  | _,_,s => s

def began : Method → World → World
  | .insertEntry delay e,s =>
    { s with insertions :=
      ⟨s.made,e,s.wheel.tick_,delay,s.turns (TimingWheel.ringOf delay)⟩ :: s.insertions }
  | .popUp type,s => { s with turns := Function.update s.turns type (s.turns type + 1) }
  | .destroy (.cascade _ _ _),s => s
  | .destroy (.timeout id conn),s =>
    { s with released := ⟨.timeout id conn,s.wheel.tick_,(s.clients conn).alive⟩ :: s.released }
  | .destroy e,s => { s with released := ⟨e,s.wheel.tick_,true⟩ :: s.released }
  | .handler conn .onTimeout,s =>
    { s with timeouts := conn :: s.timeouts, acts := (.onTimeout conn,s.wheel.tick_) :: s.acts }
  | _,s => s

def invoked : Callback → World → World
  | .action e,s => { s with acts := (.callback e,s.wheel.tick_) :: s.acts }
  | .handler _ _,s => s

def system : System World Query Answer Callback Method where
  body := body
  answered := answered
  began := began
  invoked := invoked

/-- Any use of timers with the given delays, and of connections, between ticks and from
inside callbacks. A destroyed entry cannot be inserted again; a connection that dies has
been closed. -/
def environment (delays : Nat → Bool) : Environment World Query Answer Callback Method where
  admits := fun _ s q a =>
    match q,a with
    | .pick,.entry e => s.tmp.contains e
    | .io _ (.writev _ vec),.result r => decide (r.ret ≤ total vec)
    | .io _ _,.result _ => true
    | _,_ => false
  enters := fun ctx s m =>
    match m with
    | .insertEntry delay (.object id) =>
      delays delay && decide (delay < 2^32) && !s.released.any (·.entry == .object id)
    | .runAfter delay _ | .runEvery delay _ => delays delay && decide (delay < 2^32)
    | .onTimer _ => ctx.isEmpty
    | .enableCheckIdleTimeout conn max_time =>
      delays max_time && decide (1 ≤ max_time ∧ max_time < 60) && (s.clients conn).alive
    | .handler _ .onTimeout | .handler _ .readLoop | .handler _ .writeLoop => false
    | .handler conn _ => (s.clients conn).alive
    | .expire conn => (s.clients conn).alive && (s.clients conn).connection.closed_
    | _ => false

structure Fresh (s : World) : Prop where
  wheel : s.wheel = .initial
  tmp : s.tmp = []
  turns : s.turns = fun _ => 0
  insertions : s.insertions = []
  released : s.released = []
  acts : s.acts = []
  timeouts : s.timeouts = []

end Tmms.Network.Timers
