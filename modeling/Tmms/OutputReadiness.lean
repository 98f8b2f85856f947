import Tmms.EdgePoll
import Tmms.EventLoop

/-! The queued output of a connection and the readiness that is to drain it. The connection is
registered with its loop throughout; the kernel reports it edge by edge, and one report leads
to one handler, a read before a write. -/
namespace Tmms.Network.OutputReadiness

open Reentrant TcpConnection

structure World where
  connection : TcpConnection
  watch : Watch
  -- what `epoll_wait` has returned and the loop has not come to
  report : Option Mask

/-- What a system call gives back, the edges since the last one, and whether it has left the
socket unready. -/
structure Answer where
  result : Result
  before : List Mask
  spent : Bool

inductive Query where
  | io (q : TcpConnection.Query)
  | epollMod (events : Mask)

inductive Method where
  | handler (m : TcpConnection.Method)
  | rise (bits : Mask)
  | poll
  | dispatch

abbrev Code := Prog World Query Answer TcpConnection.Callback Method

def update (f : TcpConnection → TcpConnection) : Code Unit :=
  .modify fun s => { s with connection := f s.connection }

def io (q : TcpConnection.Query) : Code Result := do return (← Prog.query (.io q)).result

def enableEventWriting (on : Bool) : Code Unit := do
  let s ← Prog.read
  let mask := s.connection.event_.enable kEventWrite on
  update fun c => { c with event_ := mask }
  let _ ← Prog.query (.epollMod mask)

def host : Host World Query Answer TcpConnection.Callback Method where
  self := do return (← Prog.read).connection
  update := update
  closeCallback := .invoke .close
  messageCallback := .invoke .message
  writeCompleteCallback := .invoke .writeComplete
  write := fun fd buf size => io (.write fd buf size)
  writev := fun fd vec => io (.writev fd vec)
  readFd := fun fd => io (.readFd fd)
  closeFd := fun fd => do let _ ← io (.close fd)
  enableWriting := enableEventWriting
  onClose := .run (.handler .onClose)
  readLoop := .run (.handler .readLoop)
  writeLoop := .run (.handler .writeLoop)

def dispatch : Code Unit := do
  let s ← Prog.read
  match s.report with
  | none => pure ()
  | some events => do
    Prog.modify fun s => { s with report := none }
    match (EpollEvent.mk s.connection.fd_ events).handler with
    | some .onError => Prog.run (.handler .onError)
    | some .onClose => Prog.run (.handler .onClose)
    | some .onRead => Prog.run (.handler .onRead)
    | some .onWrite => Prog.run (.handler .onWrite)
    | none => pure ()

def body : Method → Code Unit
  | .handler m => TcpConnection.body host m
  | .rise bits => .modify fun s => { s with watch := s.watch.rise bits }
  | .poll => .modify fun s => { s with report := s.watch.poll.1, watch := s.watch.poll.2 }
  | .dispatch => dispatch

def rises (before : List Mask) (w : Watch) : Watch := before.foldl (fun w bits => w.rise bits) w

/-- What a call does to the socket: a write may use up its room, a read its input. -/
def effect : Query → Answer → Watch → Watch
  | .io (.write _ _ _),a,w | .io (.writev _ _),a,w => if a.spent then w.fall EPOLLOUT else w
  | .io (.readFd _),a,w => if a.spent then w.fall (EPOLLIN ||| EPOLLPRI) else w
  | .io (.close _),_,w => w
  | .epollMod events,_,w => w.modify events

def system : System World Query Answer TcpConnection.Callback Method where
  body := body
  answered := fun q a s => { s with watch := effect q a (rises a.before s.watch) }
  began := fun _ s => s
  invoked := fun _ s => s

/-- A write takes a part of what it is shown, or fails; for want of room only without room. -/
def attempted (limit : Nat) (a : Answer) (w : Watch) : Bool :=
  decide (0 ≤ a.result.ret ∧ a.result.ret ≤ limit) ||
    (a.result.ret == -1 && (a.result.errno != EAGAIN || !(rises a.before w).ready.has EPOLLOUT))

/-- Sends, timeouts and closes at any time and from inside callbacks; edges at any time; the
loop polls and then comes to its report. -/
def serving : Environment World Query Answer TcpConnection.Callback Method where
  admits := fun _ s q a =>
    match q with
    | .io (.write _ _ size) => attempted size a s.watch
    | .io (.writev _ vec) => attempted (total vec) a s.watch
    | _ => true
  enters := fun ctx s m =>
    match m with
    | .handler (.send _ _) | .handler (.sendList _) | .handler (.retrieve _)
    | .handler .onTimeout | .handler .forceClose | .rise _ => true
    | .handler _ => false
    | .poll => ctx.isEmpty && s.report.isNone
    | .dispatch => ctx.isEmpty && s.report.isSome

/-- A report of room for output that leads to `OnRead`, with output waiting. -/
def swallowed (s : World) : Bool :=
  match s.report with
  | none => false
  | some events => events.has EPOLLOUT &&
      decide ((EpollEvent.mk s.connection.fd_ events).handler = some .onRead) &&
      !s.connection.closed_ && !s.connection.io_vec_li_.isEmpty

/-- The same, where no such report is come to, and no write of `OnWrite` is interrupted while
there is room. -/
def attentive : Environment World Query Answer TcpConnection.Callback Method where
  admits := fun ctx s q a =>
    serving.admits ctx s q a &&
      match q with
      | .io (.writev _ _) => a.result.ret != -1 || a.result.errno != EINTR ||
          !(rises a.before s.watch).ready.has EPOLLOUT
      | _ => true
  enters := fun ctx s m =>
    serving.enters ctx s m &&
      match m with
      | .dispatch => !swallowed s
      | _ => true

/-- Output that waits on an open connection is asked for, and room for it has been reported or
will be. -/
def Served (s : World) : Prop :=
  s.connection.closed_ = false → s.connection.io_vec_li_ ≠ [] →
    s.watch.Hears ∨
      (s.watch.interest.getLsbD 2 = true ∧ ∃ events, s.report = some events ∧ events.getLsbD 2 = true)

def Asked (s : World) : Prop :=
  s.connection.closed_ = false → s.connection.io_vec_li_ ≠ [] → s.watch.interest.getLsbD 2 = true

/-- While the connection is being closed nothing is promised. -/
def contract : Contract World Query TcpConnection.Callback Method where
  inv := fun ctx s => .close ∉ ctx → Served s
  rely := fun _ _ _ => True
  pre := fun ctx m s => .close ∉ ctx →
    match m with
    | .handler .onWrite | .handler .writeLoop => Asked s
    | .handler .onClose | .handler .onError | .handler .onTimeout | .handler .forceClose => True
    | .poll => Served s ∧ s.report = none
    | .dispatch => Served s ∧ swallowed s = false
    | _ => Served s
  post := fun ctx _ _ after => .close ∉ ctx → Served after
  asks := fun _ _ _ => True
  mayFault := True

section State
variable {s : World}

theorem served_closed (closed : s.connection.closed_ = true) : Served s := by
  intro opened
  rw [closed] at opened
  cases opened

theorem served_empty (empty : s.connection.io_vec_li_ = []) : Served s :=
  fun _ waiting => absurd empty waiting

theorem Served.asked (served : Served s) : Asked s := by
  intro opened waiting
  rcases served opened waiting with hears | ⟨asked,_⟩
  · exact hears.asked
  · exact asked

theorem Served.watch (served : Served s) (w : Watch) (hears : s.watch.Hears → w.Hears)
    (interest : w.interest = s.watch.interest) : Served { s with watch := w } := by
  intro opened waiting
  rcases served opened waiting with heard | ⟨asked,reported⟩
  · exact Or.inl (hears heard)
  · refine Or.inr ⟨?_,reported⟩
    change w.interest.getLsbD 2 = true
    rw [interest]
    exact asked

theorem rises_hears (before : List Mask) {w : Watch} (hears : w.Hears) : (rises before w).Hears := by
  induction before generalizing w with
  | nil => exact hears
  | cons bits before ih => exact ih (hears.rise bits)

@[simp] theorem rises_interest (before : List Mask) (w : Watch) : (rises before w).interest = w.interest := by
  induction before generalizing w with
  | nil => rfl
  | cons bits before ih => exact ih (w.rise bits)

theorem effect_io (q : TcpConnection.Query) (a : Answer) (w : Watch) :
    (w.Hears → (effect (.io q) a w).Hears) ∧ (effect (.io q) a w).interest = w.interest := by
  have falls : ∀ bits, (w.Hears → (if a.spent then w.fall bits else w).Hears) ∧
      (if a.spent then w.fall bits else w).interest = w.interest := by
    intro bits
    split
    · exact ⟨fun hears => hears.fall bits,rfl⟩
    · exact ⟨id,rfl⟩
  cases q with
  | write => exact falls _
  | writev => exact falls _
  | readFd => exact falls _
  | close => exact ⟨id,rfl⟩

/-- A system call on the socket leaves output as well served as it was. -/
theorem Served.answered (served : Served s) (q : TcpConnection.Query) (a : Answer) :
    Served (system.answered (.io q) a s) := by
  obtain ⟨hears,interest⟩ := effect_io q a (rises a.before s.watch)
  exact served.watch _ (fun heard => hears (rises_hears a.before heard)) (interest.trans (rises_interest _ _))

theorem Asked.answered (asked : Asked s) (q : TcpConnection.Query) (a : Answer) :
    Asked (system.answered (.io q) a s) := by
  intro opened waiting
  have interest := (effect_io q a (rises a.before s.watch)).2.trans (rises_interest _ _)
  change (effect (.io q) a (rises a.before s.watch)).interest.getLsbD 2 = true
  rw [interest]
  exact asked opened waiting

end State

section Bodies
variable {s : World} {ctx : List TcpConnection.Callback} (aside : .close ∉ ctx)

def Keeps (ctx : List TcpConnection.Callback) (p : Code Unit) (s : World) : Prop :=
  wp system attentive contract ctx p (fun _ after => Served after) s

theorem wp_io (q : TcpConnection.Query) {goal : Result → World → Prop}
    (holds : ∀ a, attentive.admits ctx s (.io q) a = true → goal a.result (system.answered (.io q) a s)) :
    wp system attentive contract ctx (io q) goal s := by
  simp only [io,wp_bind,wp_query,wp_pure]
  exact ⟨trivial,holds⟩

theorem wp_method (m : TcpConnection.Method) (pre : contract.pre ctx (.handler m) s)
    (aside : .close ∉ ctx) : Keeps ctx (Prog.run (.handler m)) s :=
  ⟨pre,fun _ done => done aside⟩

include aside

theorem message_served (served : Served s) {next : Code Unit}
    (rest : ∀ after, Served after → Keeps ctx next after) :
    Keeps ctx (do Prog.invoke .message; next) s := by
  have outer : TcpConnection.Callback.close ∉ .message :: ctx := by simp [aside]
  simp only [Keeps,wp_bind,wp_invoke]
  exact ⟨fun _ => served,fun after _ inv => rest after (inv outer)⟩

theorem writeComplete_served (served : Served s) : Keeps ctx (writeComplete host) s := by
  have outer : TcpConnection.Callback.close ∉ .writeComplete :: ctx := by simp [aside]
  simp only [Keeps,writeComplete,host,wp_bind,wp_read,wp_pure,wp_ite,wp_invoke]
  constructor
  · exact fun _ => ⟨fun _ => served,fun _ _ inv => inv outer⟩
  · exact fun _ => served

omit aside in
/-- Asking for output gets it served, whatever was promised before. -/
theorem enable_served : Keeps ctx (enableEventWriting true) s := by
  simp only [Keeps,enableEventWriting,update,wp_bind,wp_read,wp_modify,wp_query]
  constructor
  · trivial
  intro a _ _ _
  exact Or.inl (Watch.modify_hears _ (Mask.enable_output _))

theorem finish_served (empty : s.connection.io_vec_li_ = []) :
    Keeps ctx (do enableEventWriting false; writeComplete host) s := by
  simp only [Keeps,enableEventWriting,update,wp_bind,wp_read,wp_modify,wp_query]
  constructor
  · trivial
  intro a _
  exact writeComplete_served aside (served_empty empty)

theorem sendRest_served (served : Served s) (buf send_len size : Nat) :
    Keeps ctx (sendRest host buf send_len size) s := by
  simp only [Keeps,sendRest,wp_ite]
  constructor
  · exact fun _ => writeComplete_served aside served
  · intro _
    exact enable_served

theorem send_served (served : Served s) (buf size : Nat) : Keeps ctx (sendInLoop host buf size) s := by
  simp only [Keeps,sendInLoop,host,wp_bind,wp_read,wp_pure,wp_ite]
  constructor
  · exact fun _ => served
  intro _
  constructor
  · intro _
    apply wp_io
    intro a _
    rw [wp_ite]
    constructor
    · exact fun negative => absurd negative (Nat.not_lt_zero _)
    · exact fun _ => sendRest_served aside (served.answered _ a) buf _ _
  · exact fun _ => sendRest_served aside served buf 0 size

omit aside in
theorem sendList_served (served : Served s) (list : List BufferNode) :
    Keeps ctx (sendListInLoop host list) s := by
  simp only [Keeps,sendListInLoop,host,update,wp_bind,wp_read,wp_pure,wp_ite,wp_modify]
  constructor
  · exact fun _ => served
  intro _
  constructor
  · exact fun _ => enable_served
  · exact fun empty => served_empty (not_not.mp empty)

omit aside in
theorem close_served (closed : s.connection.closed_ = true) : Keeps ctx (close host) s := by
  simp only [Keeps,close,host,update,wp_bind,wp_read,wp_pure,wp_ite]
  constructor
  · intro _
    apply wp_io
    intro a _
    exact served_closed closed
  · exact fun _ => served_closed closed

omit aside in
/-- After `OnClose` the connection is closed; the close callback may do what it likes. -/
theorem onClose_served : Keeps ctx (onClose host) s := by
  have finish : ∀ after : World, Keeps ctx (do
      update fun c => { c with closed_ := true }
      close host) after := fun after => close_served rfl
  simp only [Keeps,onClose,host,wp_bind,wp_read,wp_pure,wp_ite,wp_invoke] at finish ⊢
  constructor
  · intro _
    constructor
    · intro _
      constructor
      · exact fun never => absurd List.mem_cons_self never
      · exact fun after _ _ => finish after
    · exact fun _ => finish s
  · intro closed
    exact served_closed (by simpa using closed)

theorem readLoop_served (served : Served s) : Keeps ctx (readLoop host) s := by
  simp only [Keeps,readLoop,host,wp_bind,wp_read,wp_pure]
  apply wp_io
  intro a _
  have later := served.answered (.readFd s.connection.fd_) a
  generalize system.answered (.io (.readFd s.connection.fd_)) a s = after at later
  have again : ∀ last, Served last → Keeps ctx (Prog.run (.handler .readLoop)) last :=
    fun last holds => wp_method .readLoop (fun _ => holds) aside
  have closing : ∀ last, Keeps ctx (Prog.run (.handler .onClose)) last :=
    fun last => wp_method .onClose (fun _ => trivial) aside
  simp only [wp_ite,wp_bind,update,wp_modify,wp_read,wp_pure]
  constructor
  · intro _
    constructor
    · intro _
      exact message_served aside later fun last => again last
    · exact fun _ => again _ later
  · intro _
    constructor
    · exact fun _ => closing after
    · intro _
      constructor
      · exact fun _ => closing after
      · exact fun _ => later

theorem onRead_served (served : Served s) : Keeps ctx (onRead host) s := by
  simp only [Keeps,onRead,host,wp_bind,wp_read,wp_pure,wp_ite]
  constructor
  · exact fun _ => served
  · exact fun _ => wp_method .readLoop (fun _ => served) aside

omit aside in
/-- An attempt of `OnWrite` that fails and is not fatal has found no room. -/
theorem refused_full {a : Answer} {fd : Int} {vec : List IoVec}
    (admitted : attentive.admits ctx s (.io (.writev fd vec)) a = true) (refused : ¬a.result.ret ≥ 0)
    (passing : fatal a.result.errno = false) : (rises a.before s.watch).ready.getLsbD 2 = false := by
  simp only [attentive,serving,attempted,Bool.and_eq_true,Bool.or_eq_true,decide_eq_true_eq,
    beq_iff_eq,bne_iff_ne,Bool.not_eq_true',Mask.has_output] at admitted
  simp only [fatal,Bool.and_eq_false_iff,bne_eq_false_iff_eq] at passing
  obtain ⟨attempt,interrupted⟩ := admitted
  rcases attempt with written | ⟨failed,again | full⟩
  · omega
  · rcases interrupted with (other | other) | full
    · exact absurd failed other
    · rcases passing with (interrupt | empty) | block
      · exact absurd interrupt other
      · exact absurd empty again
      · exact absurd block again
    · exact full
  · exact full

omit aside in
theorem Asked.refused (asked : Asked s) {a : Answer} {fd : Int} {vec : List IoVec}
    (full : (rises a.before s.watch).ready.getLsbD 2 = false) :
    Served (system.answered (.io (.writev fd vec)) a s) := by
  intro opened waiting
  refine Or.inl ⟨asked.answered (.writev fd vec) a opened waiting,?_⟩
  intro ready
  simp only [system,effect] at ready
  split at ready
  · rw [Watch.fall,BitVec.getLsbD_and,full] at ready
    cases ready
  · rw [full] at ready
    cases ready

theorem writeLoop_served (asked : Asked s) : Keeps ctx (writeLoop host) s := by
  have finish : ∀ last : World, last.connection.io_vec_li_ = [] →
      Keeps ctx (do enableEventWriting false; writeComplete host) last :=
    fun last empty => finish_served aside empty
  simp only [Keeps,writeLoop,host,wp_bind,wp_read,wp_pure] at finish ⊢
  apply wp_io
  intro a admitted
  have later := asked.answered (.writev s.connection.fd_ s.connection.io_vec_li_) a
  rw [wp_ite]
  constructor
  · intro _
    cases consumed : consume s.connection.io_vec_li_ a.result.ret.toNat with
    | none => trivial
    | some queue =>
      simp only [update,wp_bind,wp_modify,wp_ite]
      constructor
      · exact fun empty => finish _ empty
      · intro _
        apply wp_method .writeLoop _ aside
        intro _ opened waiting
        apply later opened
        intro empty
        exact waiting (consume_empty consumed empty)
  · intro refused
    rw [wp_ite]
    constructor
    · exact fun _ => wp_method .onClose (fun _ => trivial) aside
    · intro passing
      exact asked.refused (refused_full admitted refused (Bool.not_eq_true _ ▸ passing))

theorem onWrite_served (asked : Asked s) : Keeps ctx (onWrite host) s := by
  have finish : ∀ last : World, last.connection.io_vec_li_ = [] →
      Keeps ctx (do enableEventWriting false; writeComplete host) last :=
    fun last empty => finish_served aside empty
  simp only [Keeps,onWrite,host,wp_bind,wp_read,wp_pure,wp_ite] at finish ⊢
  constructor
  · exact fun closed => served_closed closed
  intro _
  constructor
  · exact fun _ => wp_method .writeLoop (fun _ => asked) aside
  · exact fun empty => finish s (not_not.mp empty)

omit aside in
/-- A report that says nothing of waiting output can be put aside. -/
theorem Served.unreported (served : Served s) {events : Mask} (report : s.report = some events)
    (silent : s.connection.closed_ = false → s.connection.io_vec_li_ ≠ [] → events.getLsbD 2 = false) :
    Served { s with report := none } := by
  intro opened waiting
  rcases served opened waiting with hears | ⟨_,other,reported,output⟩
  · exact Or.inl hears
  · rw [report] at reported
    cases reported
    rw [silent opened waiting] at output
    cases output

/-- A report of room for output leads to `OnWrite`, or to a close, or is one that is not come
to while output waits. -/
theorem dispatch_served (served : Served s) (heeded : swallowed s = false) : Keeps ctx dispatch s := by
  simp only [Keeps,dispatch,wp_bind,wp_read]
  cases report : s.report with
  | none => exact served
  | some events =>
    simp only [wp_bind,wp_modify]
    cases handler : (EpollEvent.mk s.connection.fd_ events).handler with
    | none =>
      apply served.unreported report
      intro _ _
      rw [← Mask.has_output]
      cases output : events.has EPOLLOUT with
      | false => rfl
      | true =>
        simp only [EpollEvent.handler,output,if_true] at handler
        repeat' split at handler
        all_goals cases handler
    | some which =>
      cases which with
      | onError => exact wp_method .onError (fun _ => trivial) aside
      | onClose => exact wp_method .onClose (fun _ => trivial) aside
      | onWrite => exact wp_method .onWrite (fun _ => served.asked) aside
      | onRead =>
        apply wp_method .onRead _ aside
        intro _
        apply served.unreported report
        intro opened waiting
        rw [← Mask.has_output]
        simpa [swallowed,report,handler,opened,waiting] using heeded

omit aside in
theorem poll_served (served : Served s) (before : s.report = none) : Keeps ctx (body .poll) s := by
  intro opened waiting
  rcases served opened waiting with hears | ⟨_,events,reported,_⟩
  · cases ready : s.watch.ready.getLsbD 2 with
    | true => exact Or.inr ⟨hears.asked,hears.poll ready⟩
    | false =>
      refine Or.inl ⟨hears.asked,?_⟩
      intro output
      rw [show s.watch.poll.2.ready.getLsbD 2 = false from ready] at output
      cases output
  · rw [before] at reported
    cases reported

end Bodies

theorem output_served : contract.Sound system attentive where
  rely_refl := fun _ _ => trivial
  rely_trans := fun _ _ _ _ _ _ => trivial
  body := by
    intro ctx m s pre
    by_cases closing : .close ∈ ctx
    · apply wp_vacuous
      · exact fun _ _ => trivial
      · exact fun _ _ never => absurd (List.mem_cons_of_mem _ closing) never
      · exact fun _ _ never => absurd closing never
      · trivial
      · exact fun _ _ never => absurd closing never
    · have pre := pre closing
      have kept : Keeps ctx (body m) s := by
        cases m with
        | rise bits => exact pre.watch _ (fun hears => hears.rise bits) rfl
        | poll => exact poll_served pre.1 pre.2
        | dispatch => exact dispatch_served closing pre.1 pre.2
        | handler m =>
          cases m with
          | send buf size => exact send_served closing pre buf size
          | sendList list => exact sendList_served pre list
          | retrieve count => exact pre
          | onRead => exact onRead_served closing pre
          | readLoop => exact readLoop_served closing pre
          | onWrite => exact onWrite_served closing pre
          | writeLoop => exact writeLoop_served closing pre
          | onError | onTimeout | forceClose => exact wp_method .onClose (fun _ => trivial) closing
          | onClose => exact onClose_served
      exact wp_mono kept fun _ _ served _ => served
  enter := by
    intro ctx m s inv allowed aside
    have served := inv aside
    simp only [attentive,Bool.and_eq_true] at allowed
    cases m with
    | rise bits => exact served
    | poll =>
      refine ⟨served,?_⟩
      have unreported := allowed.1
      simp only [serving,Bool.and_eq_true,Option.isNone_iff_eq_none] at unreported
      exact unreported.2
    | dispatch => exact ⟨served,by simpa using allowed.2⟩
    | handler m =>
      cases m with
      | onWrite => simp [serving] at allowed
      | writeLoop => simp [serving] at allowed
      | onError | onTimeout | forceClose | onClose => trivial
      | _ => exact served
  leave := fun _ _ _ _ _ _ done => ⟨done,trivial⟩

/-- In every run in which the loop comes to no report of room for output by way of `OnRead`
while output waits, and no write of `OnWrite` is interrupted while there is room: where the
loop is about to block with output waiting on an open connection and room for it, the next
`epoll_wait` reports that room. -/
theorem output_not_stranded (s : World) (c : Config World Query Answer TcpConnection.Callback Method)
    (empty : s.connection.io_vec_li_ = []) (reached : system.Reachable attentive s c)
    (idle : c.stack = []) (blocking : c.state.report = none)
    (opened : c.state.connection.closed_ = false) (waiting : c.state.connection.io_vec_li_ ≠ [])
    (room : c.state.watch.ready.has EPOLLOUT = true) :
    c.state.watch.pending.has EPOLLOUT = true := by
  have start : contract.inv [] s := fun _ => served_empty empty
  have controlled : c.controlled := Config.controlled_of_nil idle
  have inv := reachable_invariant output_served s c start reached controlled
  rw [idle] at inv
  rw [Mask.has_output] at room ⊢
  rcases inv List.not_mem_nil opened waiting with hears | ⟨_,events,reported,_⟩
  · exact hears.pending room
  · rw [blocking] at reported
    cases reported

def connected : World where
  connection := ⟨5,kEventRead,false,true,true,true,[],[]⟩
  watch := ⟨kEventRead,EPOLLOUT,false⟩
  report := none

def partlySent (bits : Mask) : List (Move World Query Answer TcpConnection.Callback Method) :=
  [.enter (.handler (.send 0 3)),.answer ⟨⟨1,0,[]⟩,[],true⟩,.answer ⟨⟨0,0,[]⟩,[],false⟩,.enter (.rise bits)]

theorem output_not_stranded_room :
    ∃ c : Config World Query Answer TcpConnection.Callback Method,
      c.state.connection.io_vec_li_ = [⟨1,2⟩] ∧ c.state.watch.pending.has EPOLLOUT = true := by
  have reached := system.play_reachable attentive 40 (partlySent EPOLLOUT) connected _ rfl
  refine ⟨_,?_,output_not_stranded connected _ rfl reached rfl rfl rfl ?_ ?_⟩
  · decide
  · exact List.cons_ne_nil _ _
  · decide

/-- The peer sends as well, and the one report of both leads to `OnRead`. -/
theorem output_stranded :
    ∃ c, system.Reachable serving connected c ∧ c.stack = [] ∧ c.state.report = none ∧
      c.state.connection.closed_ = false ∧ c.state.connection.io_vec_li_ = [⟨1,2⟩] ∧
      c.state.watch.ready.has EPOLLOUT = true ∧ c.state.watch.pending.has EPOLLOUT = false := by
  have reached := system.play_reachable serving 40
    (partlySent (EPOLLIN ||| EPOLLOUT) ++ [.enter .poll,.enter .dispatch,.answer ⟨⟨1,0,[7]⟩,[],true⟩,.leave,
      .answer ⟨⟨-1,EAGAIN,[]⟩,[],false⟩]) connected _ rfl
  exact ⟨_,reached,rfl,rfl,rfl,by decide,by decide,by decide⟩

end Tmms.Network.OutputReadiness
