import Tmms.EventLoop
import Tmms.TcpClient

/-! A TCP client that connects, closes and connects again. `closed_` is never reset, and a
`Connect` inside the close callback replaces a descriptor that is still held; so the client's
state is coherent as long as neither happens. -/
namespace Tmms.Network.Reconnect

open Reentrant TcpClient

structure World where
  connection : TcpConnection
  -- not initialised by the constructor
  status_ : Int
  connect_cb_ : Bool
  loop : EventLoop
  opened : List Int
  closed : List Int

def client : EventPtr := .connection 0

namespace World
variable (s : World)

def event : Event := ⟨s.connection.fd_,s.connection.event_⟩

def update (f : TcpConnection → TcpConnection) : World := { s with connection := f s.connection }

def setMask (mask : Mask) : World := s.update fun c => { c with event_ := mask }

def enableWriting (on : Bool) : World :=
  match s.loop.enableEvent kEventWrite s.event on with
  | none => s
  | some (e,loop) => { s.setMask e.event_ with loop := loop }

def addEvent : World :=
  let added := s.loop.addEvent client s.event
  { s.setMask added.1.event_ with loop := added.2 }

def delEvent : World := { s with loop := s.loop.delEvent s.event }

end World

abbrev Code := Prog World Query Result Callback Method

def host : ClientHost World Query Result Callback Method where
  connection := {
    self := do return (← Prog.read).connection
    update := fun f => .modify (·.update f)
    closeCallback := .invoke (.connection .close)
    messageCallback := .invoke (.connection .message)
    writeCompleteCallback := .invoke (.connection .writeComplete)
    write := fun fd buf size => .query (.connection (.write fd buf size))
    writev := fun fd vec => .query (.connection (.writev fd vec))
    readFd := fun fd => .query (.connection (.readFd fd))
    closeFd := fun fd => do let _ ← Prog.query (.connection (.close fd))
    enableWriting := fun on => .modify (·.enableWriting on)
    onClose := .run (.connection .onClose)
    readLoop := .run (.connection .readLoop)
    writeLoop := .run (.connection .writeLoop) }
  status_ := do return (← Prog.read).status_
  setStatus := fun status => .modify fun s => { s with status_ := status }
  connect_cb_ := do return (← Prog.read).connect_cb_
  connectCallback := .invoke .connect
  socket := .query .socket
  connect := fun fd => .query (.connect fd)
  getsockopt := fun fd => .query (.getsockopt fd)
  addEvent := .modify (·.addEvent)
  delEvent := .modify (·.delEvent)

def answered (q : Query) (a : Result) (s : World) : World :=
  match q with
  | .socket =>
    if a.ret < 0 then s
    else { s with loop := { s.loop with kernel := s.loop.kernel.opens a.ret },opened := s.opened ++ [a.ret] }
  | .connection (.close fd) =>
    { s with loop := { s.loop with kernel := s.loop.kernel.close fd },closed := s.closed ++ [fd] }
  | _ => s

def system : System World Query Result Callback Method :=
  ⟨body host,answered,fun _ s => s,fun _ s => s⟩

/-- The loop finds the client under some number it dispatches. -/
def dispatched (s : World) : Bool :=
  s.loop.events_.entries.any fun entry => entry.2 == client && decide (0 < entry.1)

/-- Events while the client is registered, sends and closes at any time, and `Connect` for the
first time, after a close, or inside the close callback; with any answers of the system.
`socket` gives a number nobody uses. -/
def anyUse : Environment World Query Result Callback Method where
  admits := fun _ s q a =>
    match q with
    | .connection (.writev _ vec) => decide (a.ret ≤ total vec)
    | .socket => a.ret == -1 || (decide (0 ≤ a.ret) && decide (a.ret ∉ s.loop.kernel.opened) &&
        (s.loop.events_.lookup a.ret).all (· == client))
    | _ => true
  enters := fun ctx s m =>
    match m with
    | .connect => s.opened.isEmpty || s.status_ == kTcpConStatusDisConnected ||
        ctx.contains (.connection .close)
    | .connection .onRead | .connection .onWrite | .connection .onError | .connection .onClose => dispatched s
    | .connection .readLoop | .connection .writeLoop => false
    | _ => true

/-- The same, where `Connect` is called with no descriptor held, and a descriptor is only had
on a client that was not closed and while no close callback runs. -/
def onceOpened : Environment World Query Result Callback Method where
  admits := fun ctx s q a => anyUse.admits ctx s q a &&
    (q != .socket || decide (a.ret < 0) || (!s.connection.closed_ && !ctx.contains (.connection .close)))
  enters := fun ctx s m => anyUse.enters ctx s m && (m != .connect || s.connection.fd_ == -1)

structure Constructed (s : World) : Prop where
  descriptor : s.connection.fd_ = -1
  closed_ : s.connection.closed_ = false
  opened : s.opened = []
  closed : s.closed = []
  events_ : ∀ fd, s.loop.events_.lookup fd ≠ some client

/-- A connected client is open and registered, and each descriptor it was given and does not
hold has been closed once for each time it was given. -/
structure Coherent (s : World) : Prop where
  connected : s.status_ = kTcpConStatusConnected → s.connection.closed_ = false ∧
    s.connection.fd_ ∈ s.loop.kernel.opened ∧ s.loop.events_.lookup s.connection.fd_ = some client
  descriptors : ∀ fd, 0 ≤ fd →
    s.opened.count fd = s.closed.count fd + if s.connection.fd_ = fd then 1 else 0

structure Live (s : World) : Prop where
  status_ : s.status_ = kTcpConStatusConnecting ∨ s.status_ = kTcpConStatusConnected
  closed_ : s.connection.closed_ = false
  descriptor : 0 ≤ s.connection.fd_
  opened : s.connection.fd_ ∈ s.loop.kernel.opened
  events_ : s.loop.events_.lookup s.connection.fd_ = some client

structure Valid (ctx : List Callback) (s : World) : Prop where
  descriptors : ∀ fd, 0 ≤ fd →
    s.opened.count fd = s.closed.count fd + if s.connection.fd_ = fd then 1 else 0
  entry : ∀ fd, s.loop.events_.lookup fd = some client → fd = s.connection.fd_ ∧ Live s
  live : s.status_ = kTcpConStatusConnected → Live s
  closing : .connection .close ∈ ctx → s.status_ = kTcpConStatusDisConnected

/-- A handler finds the client live; `Connect` finds no descriptor. -/
def clientContract : Contract World Query Callback Method where
  inv := Valid
  rely := fun _ _ _ => True
  pre := fun ctx m s => Valid ctx s ∧
    match m with
    | .connect => s.connection.fd_ = -1
    | .connection .onRead | .connection .onWrite => Live s
    | _ => True
  post := fun ctx _ _ after => Valid ctx after
  asks := fun _ _ _ => True
  mayFault := False

section Valid
variable {ctx : List Callback} {s after : World}

theorem Live.congr (live : Live s) (status : after.status_ = s.status_)
    (closed : after.connection.closed_ = s.connection.closed_) (fd : after.connection.fd_ = s.connection.fd_)
    (opened : after.loop.kernel.opened = s.loop.kernel.opened)
    (events : after.loop.events_ = s.loop.events_) : Live after :=
  ⟨by rw [status]; exact live.status_,by rw [closed]; exact live.closed_,by rw [fd]; exact live.descriptor,
    by rw [fd,opened]; exact live.opened,by rw [fd,events]; exact live.events_⟩

/-- Nothing but the status, `closed_`, `fd_`, the open numbers and `events_` matters. -/
theorem Valid.congr (valid : Valid ctx s) (status : after.status_ = s.status_)
    (closed_ : after.connection.closed_ = s.connection.closed_) (fd : after.connection.fd_ = s.connection.fd_)
    (kernel : after.loop.kernel.opened = s.loop.kernel.opened) (events : after.loop.events_ = s.loop.events_)
    (opened : after.opened = s.opened) (closed : after.closed = s.closed) : Valid ctx after := by
  constructor
  · rw [opened,closed,fd]
    exact valid.descriptors
  · intro n found
    rw [events] at found
    rw [fd]
    obtain ⟨same,live⟩ := valid.entry n found
    exact ⟨same,live.congr status closed_ fd kernel events⟩
  · intro connected
    rw [status] at connected
    exact (valid.live connected).congr status closed_ fd kernel events
  · intro inside
    rw [status]
    exact valid.closing inside

/-- A client that is not live has no entry. -/
theorem Valid.absent (valid : Valid ctx s) (dead : ¬Live s) (fd : Int) :
    s.loop.events_.lookup fd ≠ some client :=
  fun found => dead (valid.entry fd found).2

theorem dead_of_status (ended : s.status_ = kTcpConStatusDisConnected) : ¬Live s := by
  intro live
  rcases live.status_ with same | same <;> rw [ended] at same <;> exact absurd same (by decide)

theorem valid_cons {t : Callback} (other : t ≠ .connection .close) : Valid (t :: ctx) s ↔ Valid ctx s := by
  have same : Callback.connection .close ∈ t :: ctx ↔ Callback.connection .close ∈ ctx := by
    simp [Ne.symm other]
  constructor
  · exact fun valid => ⟨valid.descriptors,valid.entry,valid.live,fun inside => valid.closing (same.mpr inside)⟩
  · exact fun valid => ⟨valid.descriptors,valid.entry,valid.live,fun inside => valid.closing (same.mp inside)⟩

theorem Valid.ended (ledger : ∀ fd, 0 ≤ fd →
      s.opened.count fd = s.closed.count fd + if s.connection.fd_ = fd then 1 else 0)
    (absent : ∀ fd, s.loop.events_.lookup fd ≠ some client)
    (status : s.status_ = kTcpConStatusDisConnected) : Valid ctx s :=
  ⟨ledger,fun fd found => absurd found (absent fd),fun connected => absurd (status.symm.trans connected) (by decide),
    fun _ => status⟩

theorem enable_loop (s : World) (on : Bool) :
    (s.enableWriting on).loop.events_ = s.loop.events_ ∧
      (s.enableWriting on).loop.kernel.opened = s.loop.kernel.opened := by
  unfold World.enableWriting
  split
  · exact ⟨rfl,rfl⟩
  · next enabled => exact EventLoop.enableEvent_same _ _ enabled

theorem enable_rest (s : World) (on : Bool) :
    (s.enableWriting on).status_ = s.status_ ∧ (s.enableWriting on).connection.closed_ = s.connection.closed_ ∧
      (s.enableWriting on).connection.fd_ = s.connection.fd_ ∧ (s.enableWriting on).opened = s.opened ∧
      (s.enableWriting on).closed = s.closed := by
  unfold World.enableWriting
  split <;> exact ⟨rfl,rfl,rfl,rfl,rfl⟩

theorem Live.enable (live : Live s) (on : Bool) : Live (s.enableWriting on) := by
  obtain ⟨events,kernel⟩ := enable_loop s on
  obtain ⟨status,closed_,fd,_⟩ := enable_rest s on
  exact live.congr status closed_ fd kernel events

theorem Valid.enable (valid : Valid ctx s) (on : Bool) : Valid ctx (s.enableWriting on) := by
  obtain ⟨events,kernel⟩ := enable_loop s on
  obtain ⟨status,closed_,fd,opened,closed⟩ := enable_rest s on
  exact valid.congr status closed_ fd kernel events opened closed

end Valid
section Steps
variable (E : Environment World Query Result Callback Method) (K : Contract World Query Callback Method)
  (ctx : List Callback) (s : World)

@[simp] theorem wp_status (goal : Int → World → Prop) :
    wp system E K ctx host.status_ goal s ↔ goal s.status_ s := Iff.rfl

@[simp] theorem wp_setStatus (status : Int) (goal : Unit → World → Prop) :
    wp system E K ctx (host.setStatus status) goal s ↔ goal () { s with status_ := status } := Iff.rfl

@[simp] theorem wp_self (goal : TcpConnection → World → Prop) :
    wp system E K ctx host.connection.self goal s ↔ goal s.connection s := Iff.rfl

@[simp] theorem wp_update (f : TcpConnection → TcpConnection) (goal : Unit → World → Prop) :
    wp system E K ctx (host.connection.update f) goal s ↔ goal () (s.update f) := Iff.rfl

@[simp] theorem wp_enableWriting (on : Bool) (goal : Unit → World → Prop) :
    wp system E K ctx (host.connection.enableWriting on) goal s ↔ goal () (s.enableWriting on) := Iff.rfl

@[simp] theorem wp_socket (goal : Result → World → Prop) :
    wp system E K ctx host.socket goal s ↔ K.asks ctx .socket s ∧
      ∀ a, E.admits ctx s .socket a = true → goal a (answered .socket a s) := Iff.rfl

@[simp] theorem wp_connect (fd : Int) (goal : Result → World → Prop) :
    wp system E K ctx (host.connect fd) goal s ↔ K.asks ctx (.connect fd) s ∧
      ∀ a, E.admits ctx s (.connect fd) a = true → goal a s := Iff.rfl

@[simp] theorem wp_connect_cb (goal : Bool → World → Prop) :
    wp system E K ctx host.connect_cb_ goal s ↔ goal s.connect_cb_ s := Iff.rfl

@[simp] theorem wp_addEvent (goal : Unit → World → Prop) :
    wp system E K ctx host.addEvent goal s ↔ goal () s.addEvent := Iff.rfl

@[simp] theorem wp_delEvent (goal : Unit → World → Prop) :
    wp system E K ctx host.delEvent goal s ↔ goal () s.delEvent := Iff.rfl

end Steps

section Handlers
variable (ctx : List Callback) (s : World)

theorem valid_run (m : Method) (pre : ∀ s, Valid ctx s → clientContract.pre ctx m s) :
    Kept system onceOpened clientContract ctx (Valid ctx) (Prog.run m) fun _ => True :=
  fun s valid => ⟨pre s valid,fun _ done => ⟨trivial,done⟩⟩

theorem valid_invoke (t : Callback) (other : t ≠ .connection .close) :
    Kept system onceOpened clientContract ctx (Valid ctx) (Prog.invoke t) fun _ => True :=
  fun _ valid => ⟨(valid_cons other).mpr valid,fun _ _ inv => ⟨trivial,(valid_cons other).mp inv⟩⟩

/-- A system call that neither opens nor closes a descriptor. -/
theorem valid_query (q : Query) (same : ∀ a s, answered q a s = s) :
    Kept system onceOpened clientContract ctx (Valid ctx) (Prog.query q) fun _ => True := by
  intro s valid
  refine ⟨trivial,fun a _ => ⟨trivial,?_⟩⟩
  change Valid ctx (answered q a s)
  rw [same]
  exact valid

theorem connection_keeps :
    host.connection.Keeps system onceOpened clientContract ctx (Valid ctx) fun _ => True where
  self := fun _ valid => ⟨trivial,valid⟩
  update := fun _ plain s valid =>
    ⟨trivial,valid.congr rfl (plain s.connection).2.1 (plain s.connection).1 rfl rfl rfl rfl⟩
  messageCallback := valid_invoke ctx _ (by decide)
  writeCompleteCallback := valid_invoke ctx _ (by decide)
  write := fun _ _ _ => valid_query ctx _ fun _ _ => rfl
  writev := by
    intro fd vec s valid
    refine ⟨trivial,fun a admitted => ⟨⟨?_,fun _ => trivial⟩,valid⟩⟩
    have bound := (Bool.and_eq_true_iff.mp admitted).1
    simpa [anyUse] using bound
  readFd := fun _ _ valid => ⟨trivial,fun _ _ => ⟨fun _ => trivial,valid⟩⟩
  enableWriting := fun on _ valid => ⟨trivial,valid.enable on⟩
  onClose := fun s holds => valid_run ctx _ (fun _ valid => ⟨valid,trivial⟩) s holds.2
  readLoop := valid_run ctx _ fun _ valid => ⟨valid,trivial⟩
  writeLoop := valid_run ctx _ fun _ valid => ⟨valid,trivial⟩

/-- `Event::Close` moves the descriptor to the closed ones. -/
theorem close_valid (valid : Valid ctx s) (ended : s.status_ = kTcpConStatusDisConnected) :
    wp system onceOpened clientContract ctx (TcpConnection.close host.connection)
      (fun _ after => Valid ctx after) s := by
  simp only [TcpConnection.close,host,wp_bind,wp_read,wp_pure,wp_ite,wp_query,wp_modify]
  refine ⟨fun positive => ⟨trivial,fun a _ => ?_⟩,fun _ => valid⟩
  refine .ended ?_ (valid.absent (dead_of_status ended)) ended
  intro fd nonneg
  have ledger := valid.descriptors fd nonneg
  change s.opened.count fd = (s.closed ++ [s.connection.fd_]).count fd + if (-1 : Int) = fd then 1 else 0
  rw [ledger,List.count_append,List.count_singleton,if_neg (by omega : ¬(-1 : Int) = fd)]
  simp only [beq_iff_eq,Nat.add_zero]

/-- From a client without an entry the base class closes the descriptor, whatever the close
callback does. -/
theorem baseClose_valid (valid : Valid ctx s) (ended : s.status_ = kTcpConStatusDisConnected) :
    wp system onceOpened clientContract ctx (TcpConnection.onClose host.connection)
      (fun _ after => Valid ctx after) s := by
  have finish (after : World) (valid : Valid ctx after) (ended : after.status_ = kTcpConStatusDisConnected) :
      wp system onceOpened clientContract ctx (TcpConnection.close host.connection)
        (fun _ last => Valid ctx last) (after.update fun c => { c with closed_ := true }) :=
    close_valid ctx _ (.ended valid.descriptors (valid.absent (dead_of_status ended)) ended) ended
  have inside : Valid (.connection .close :: ctx) s :=
    .ended valid.descriptors (valid.absent (dead_of_status ended)) ended
  simp only [TcpConnection.onClose,host,wp_bind,wp_read,wp_pure,wp_ite,wp_invoke,wp_modify]
  refine ⟨fun _ => ⟨fun _ => ⟨inside,fun after _ inv => ?_⟩,fun _ => finish s valid ended⟩,fun _ => valid⟩
  have ended := inv.closing List.mem_cons_self
  exact finish after ⟨inv.descriptors,inv.entry,inv.live,fun _ => ended⟩ ended

theorem delEvent_absent (valid : Valid ctx s) (fd : Int) :
    s.delEvent.loop.events_.lookup fd ≠ some client := by
  rw [World.delEvent,EventLoop.delEvent_lookup]
  split
  · exact fun found => by cases found
  · next other => exact fun found => other (valid.entry fd found).1

theorem onClose_valid (valid : Valid ctx s) :
    wp system onceOpened clientContract ctx (TcpClient.onClose host) (fun _ after => Valid ctx after) s := by
  have finish (after : World) (ledger : ∀ fd, 0 ≤ fd →
        after.opened.count fd = after.closed.count fd + if after.connection.fd_ = fd then 1 else 0)
      (absent : ∀ fd, after.loop.events_.lookup fd ≠ some client) :
      wp system onceOpened clientContract ctx (TcpConnection.onClose host.connection)
        (fun _ last => Valid ctx last) { after with status_ := kTcpConStatusDisConnected } :=
    baseClose_valid ctx _ (.ended ledger absent rfl) rfl
  simp only [TcpClient.onClose,wp_bind,wp_ite,wp_status,wp_setStatus,wp_delEvent]
  refine ⟨fun _ => finish s.delEvent valid.descriptors (delEvent_absent ctx s valid),fun other => ?_⟩
  exact finish s valid.descriptors (valid.absent fun live => other live.status_)

theorem update_valid (live : Live s) (valid : Valid ctx s) :
    wp system onceOpened clientContract ctx (updateConnectionStatus host) (fun _ after => Valid ctx after) s := by
  have connected : Live { s with status_ := kTcpConStatusConnected } :=
    ⟨Or.inr rfl,live.closed_,live.descriptor,live.opened,live.events_⟩
  have outside : Callback.connection .close ∉ ctx := fun inside =>
    dead_of_status (valid.closing inside) live
  have kept : Valid ctx { s with status_ := kTcpConStatusConnected } :=
    ⟨valid.descriptors,fun fd found => ⟨(valid.entry fd found).1,connected⟩,fun _ => connected,
      fun inside => absurd inside outside⟩
  simp only [updateConnectionStatus,wp_bind,wp_ite,wp_setStatus,wp_connect_cb,wp_pure]
  refine ⟨fun _ => ?_,fun _ => kept⟩
  exact wp_mono (valid_invoke ctx .connect (by decide) _ kept) fun _ _ done => done.2

/-- The variable that `CheckError` tests is never assigned. -/
theorem checkError_false (goal : Bool → World → Prop) (passes : goal false s) :
    wp system onceOpened clientContract ctx (checkError host) goal s :=
  ⟨trivial,fun _ _ => passes⟩

/-- The first event of a connecting client makes it connected, the others go to the base class. -/
theorem onEvent_valid (connected : Code Unit)
    (kept : Kept system onceOpened clientContract ctx (Valid ctx) connected fun _ => True)
    (live : Live s) (valid : Valid ctx s) :
    wp system onceOpened clientContract ctx (onEvent host connected) (fun _ after => Valid ctx after) s := by
  simp only [onEvent,wp_bind,wp_ite,wp_status,wp_pure]
  constructor
  · intro _
    apply checkError_false
    rw [wp_ite]
    exact ⟨fun fails => absurd fails (by decide),fun _ => update_valid ctx s live valid⟩
  · exact fun _ => ⟨fun _ => kept.wp s valid,fun _ => valid⟩

theorem send_valid (inLoop : Code Unit)
    (kept : Kept system onceOpened clientContract ctx (Valid ctx) inLoop fun _ => True) :
    Kept system onceOpened clientContract ctx (Valid ctx) (send host inLoop) fun _ => True := by
  intro s valid
  simp only [send,wp_bind,wp_ite,wp_status,wp_pure]
  exact ⟨fun _ => kept s valid,fun _ => ⟨trivial,valid⟩⟩

/-- A descriptor nobody uses, on a client that holds none, is registered for it. -/
theorem addEvent_live (free : s.loop.events_.lookup s.connection.fd_ = none)
    (opened : s.connection.fd_ ∈ s.loop.kernel.opened) (nonneg : 0 ≤ s.connection.fd_)
    (closed_ : s.connection.closed_ = false) (status : s.status_ = kTcpConStatusConnecting) : Live s.addEvent := by
  refine ⟨Or.inl status,closed_,nonneg,?_,?_⟩
  · rw [World.addEvent,EventLoop.addEvent_opened]
    exact opened
  · rw [World.addEvent,EventLoop.addEvent_lookup _ _ _ _ free]
    exact if_pos rfl

theorem addEvent_entry (free : s.loop.events_.lookup s.connection.fd_ = none) (fd : Int)
    (found : s.addEvent.loop.events_.lookup fd = some client) :
    fd = s.connection.fd_ ∨ s.loop.events_.lookup fd = some client := by
  rw [World.addEvent,EventLoop.addEvent_lookup _ _ _ _ free] at found
  by_cases here : fd = s.connection.fd_
  · exact Or.inl here
  · rw [if_neg (by exact here)] at found
    exact Or.inr found

theorem connectEnded_valid (result : Result) (live : Live s) (valid : Valid ctx s) :
    wp system onceOpened clientContract ctx (connectEnded host result) (fun _ after => Valid ctx after) s := by
  have closes := (connection_keeps ctx).onClose.mono (fun _ valid => ⟨trivial,valid⟩) fun _ _ done => done.2
  simp only [connectEnded,wp_ite,wp_pure]
  exact ⟨fun _ => update_valid ctx s live valid,fun _ => ⟨fun _ => ⟨fun _ => closes s valid,fun _ => valid⟩,fun _ => valid⟩⟩

/-- What `onceOpened` says of a descriptor: it is nobody's, and the client's first. -/
theorem socket_fresh (a : Result) (valid : Valid ctx s) (dead : ¬Live s)
    (admitted : onceOpened.admits ctx s .socket a = true) : (a.ret < 0 ∧ a.ret = -1) ∨
      (0 ≤ a.ret ∧ s.loop.events_.lookup a.ret = none ∧ s.connection.closed_ = false ∧
        .connection .close ∉ ctx) := by
  simp only [onceOpened,anyUse,Bool.and_eq_true,Bool.or_eq_true,beq_iff_eq,bne_self_eq_false,
    decide_eq_true_eq,Bool.not_eq_true',List.contains_eq_mem,decide_eq_false_iff_not,Bool.false_eq_true,
    false_or] at admitted
  obtain ⟨failed | ⟨⟨nonneg,_⟩,owner⟩,allowed⟩ := admitted
  · exact Or.inl ⟨by omega,failed⟩
  · obtain ⟨open_,outside⟩ := allowed.resolve_left (by omega)
    refine Or.inr ⟨nonneg,?_,open_,outside⟩
    cases found : s.loop.events_.lookup a.ret with
    | none => rfl
    | some e =>
      rw [found,Option.all_some,beq_iff_eq] at owner
      exact absurd (found.trans (congrArg some owner)) (valid.absent dead _)

def opening (fd : Int) : World where
  connection := { s.connection with fd_ := fd }
  status_ := kTcpConStatusConnecting
  connect_cb_ := s.connect_cb_
  loop := { s.loop with kernel := s.loop.kernel.opens fd }
  opened := s.opened ++ [fd]
  closed := s.closed

theorem opening_valid (valid : Valid ctx s) (vacant : s.connection.fd_ = -1) (fd : Int) (nonneg : 0 ≤ fd)
    (free : s.loop.events_.lookup fd = none) (closed_ : s.connection.closed_ = false)
    (outside : .connection .close ∉ ctx) : Live (opening s fd).addEvent ∧ Valid ctx (opening s fd).addEvent := by
  have dead : ¬Live s := fun live => by have := live.descriptor; omega
  have live : Live (opening s fd).addEvent :=
    addEvent_live (opening s fd) free List.mem_cons_self nonneg closed_ rfl
  refine ⟨live,?_,?_,fun _ => live,fun inside => absurd inside outside⟩
  · intro n bound
    have ledger := valid.descriptors n bound
    rw [vacant,if_neg (by omega)] at ledger
    change (s.opened ++ [fd]).count n = s.closed.count n + if fd = n then 1 else 0
    rw [List.count_append,List.count_singleton,ledger]
    simp only [beq_iff_eq,Nat.add_zero]
  · intro n found
    rcases addEvent_entry (opening s fd) free n found with same | old
    · exact ⟨same,live⟩
    · exact absurd old (valid.absent dead n)

/-- Either `socket` fails and nothing is held as before, or the descriptor is the first. -/
theorem connect_valid (valid : Valid ctx s) (vacant : s.connection.fd_ = -1) :
    wp system onceOpened clientContract ctx (connectInLoop host) (fun _ after => Valid ctx after) s := by
  have dead : ¬Live s := fun live => by have := live.descriptor; omega
  simp only [connectInLoop,wp_bind,wp_ite,wp_self,wp_update,wp_setStatus,wp_addEvent,wp_enableWriting,
    wp_socket,wp_connect]
  refine ⟨trivial,fun a admitted => ?_⟩
  rcases socket_fresh ctx s a valid dead admitted with ⟨failed,value⟩ | ⟨nonneg,free,closed_,outside⟩
  · have same : answered .socket a s = s := if_pos failed
    have closes := (connection_keeps ctx).onClose.mono (fun _ valid => ⟨trivial,valid⟩) fun _ _ done => done.2
    refine ⟨fun _ => closes _ ?_,fun got => absurd failed got⟩
    rw [same,value,← vacant]
    exact valid
  · refine ⟨fun failed => absurd failed (by omega),fun _ => ⟨trivial,fun result _ => ?_⟩⟩
    have opens : { (answered .socket a s).update fun c => { c with fd_ := a.ret } with
        status_ := kTcpConStatusConnecting } = opening s a.ret := by
      rw [answered,if_neg (by omega)]
      rfl
    obtain ⟨live,connecting⟩ := opening_valid ctx s valid vacant a.ret nonneg free closed_ outside
    rw [opens]
    exact connectEnded_valid ctx _ result (live.enable true) (connecting.enable true)

theorem body_valid (m : Method) (pre : clientContract.pre ctx m s) :
    wp system onceOpened clientContract ctx (body host m) (fun _ after => Valid ctx after) s := by
  obtain ⟨valid,ready⟩ := pre
  have keeps := connection_keeps ctx
  have base (m : TcpConnection.Method) (other : m ≠ .onClose) :
      wp system onceOpened clientContract ctx (TcpConnection.body host.connection m) (fun _ after => Valid ctx after) s :=
    TcpConnection.body_kept keeps m other s valid fun _ => trivial
  cases m with
  | connect => exact connect_valid ctx s valid ready
  | baseSend buf size => exact (TcpConnection.sendInLoop_kept keeps.toSends buf size).wp s valid
  | baseSendList list => exact (TcpConnection.sendListInLoop_kept keeps.toSends list).wp s valid
  | connection m =>
    cases m with
    | onRead => exact onEvent_valid ctx s _ (TcpConnection.onRead_kept keeps) ready valid
    | onWrite => exact onEvent_valid ctx s _ (TcpConnection.onWrite_kept keeps) ready valid
    | onClose => exact onClose_valid ctx s valid
    | send buf size => exact (send_valid ctx _ (TcpConnection.sendInLoop_kept keeps.toSends buf size)).wp s valid
    | sendList list => exact (send_valid ctx _ (TcpConnection.sendListInLoop_kept keeps.toSends list)).wp s valid
    | retrieve count => exact base (.retrieve count) fun same => by cases same
    | readLoop => exact base .readLoop (by decide)
    | writeLoop => exact base .writeLoop (by decide)
    | onError => exact base .onError (by decide)
    | onTimeout => exact base .onTimeout (by decide)
    | forceClose => exact base .forceClose (by decide)

/-- The loop finds a live client only. -/
theorem dispatched_live (valid : Valid ctx s) (found : dispatched s = true) : Live s := by
  simp only [dispatched,List.any_eq_true,Bool.and_eq_true,beq_iff_eq] at found
  obtain ⟨⟨fd,e⟩,among,same,_⟩ := found
  dsimp only at same
  subst same
  exact (valid.entry fd (AList.mem_lookup_iff.mpr among)).2

theorem client_sound : clientContract.Sound system onceOpened where
  rely_refl := fun _ _ => trivial
  rely_trans := fun _ _ _ _ _ _ => trivial
  body := fun ctx m s => body_valid ctx s m
  enter := by
    intro ctx m s valid allowed
    refine ⟨valid,?_⟩
    obtain ⟨enters,vacant⟩ := Bool.and_eq_true_iff.mp allowed
    cases m with
    | connect => simpa using vacant
    | connection m =>
      cases m with
      | onRead => exact dispatched_live ctx s valid enters
      | onWrite => exact dispatched_live ctx s valid enters
      | _ => trivial
    | _ => trivial
  leave := fun _ _ _ _ _ _ done => ⟨done,trivial⟩

end Handlers

/-- In every run in which a descriptor is only had by a client that was not closed and holds
none, the client is coherent between operations. -/
theorem coherent_once_opened (s : World) (c : Config World Query Result Callback Method)
    (constructed : Constructed s) (status : s.status_ ≠ kTcpConStatusConnected)
    (reached : system.Reachable onceOpened s c) (between : c.stack = []) : Coherent c.state := by
  have start : Valid [] s := by
    refine ⟨fun fd nonneg => ?_,fun fd found => absurd found (constructed.events_ fd),
      fun connected => absurd connected status,fun inside => by cases inside⟩
    rw [constructed.opened,constructed.closed,constructed.descriptor,if_neg (by omega)]
    rfl
  have controlled : c.controlled := Config.controlled_of_nil between
  have valid : Valid (active c.stack) c.state :=
    reachable_invariant client_sound s c start reached controlled
  refine ⟨fun connected => ?_,valid.descriptors⟩
  have live := valid.live connected
  exact ⟨live.closed_,live.opened,live.events_⟩

def unconnected : World where
  connection := ⟨-1,0,false,true,true,true,[],[]⟩
  status_ := kTcpConStatusInit
  connect_cb_ := true
  loop := ⟨∅,⟨[0,1,2,3,4],fun _ => none⟩⟩
  opened := []
  closed := []

theorem unconnected_constructed : Constructed unconnected :=
  ⟨rfl,rfl,rfl,rfl,fun _ found => by cases found⟩

/-- Descriptor 5 is connected. -/
theorem coherent_once_opened_connected :
    ∃ c : Config World Query Result Callback Method, c.state.status_ = kTcpConStatusConnected ∧
      c.state.connection.fd_ = 5 ∧ Coherent c.state := by
  have reached := system.play_reachable onceOpened 40
    [.enter .connect,.answer ⟨5,0,[]⟩,.answer ⟨-1,EINPROGRESS,[]⟩,.enter (.connection .onWrite),
      .answer ⟨0,0,[]⟩,.leave] unconnected _ rfl
  exact ⟨_,rfl,rfl,coherent_once_opened unconnected _ unconnected_constructed (by decide) reached rfl⟩

/-- Connected, closed by the peer, and connected again: `closed_` is still set. -/
theorem reconnected_closed :
    ∃ c, system.Reachable anyUse unconnected c ∧ c.stack = [] ∧
      c.state.status_ = kTcpConStatusConnected ∧ c.state.connection.fd_ = 6 ∧
      c.state.connection.closed_ = true ∧ ¬Coherent c.state := by
  have reached := system.play_reachable anyUse 40
    [.enter .connect,.answer ⟨5,0,[]⟩,.answer ⟨-1,EINPROGRESS,[]⟩,.enter (.connection .onWrite),
      .answer ⟨0,0,[]⟩,.leave,.enter (.connection .onRead),.answer ⟨0,0,[]⟩,.leave,.answer ⟨0,0,[]⟩,
      .enter .connect,.answer ⟨6,0,[]⟩,.answer ⟨-1,EINPROGRESS,[]⟩,.enter (.connection .onWrite),
      .answer ⟨0,0,[]⟩,.leave] unconnected _ rfl
  refine ⟨_,reached,rfl,rfl,rfl,rfl,?_⟩
  intro coherent
  exact absurd (coherent.connected rfl).1 (by decide)

end Tmms.Network.Reconnect
