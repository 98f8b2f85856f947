import Tmms.PolledReceiver

/-! What such a connection reads. Its handlers ask for input throughout, and `OnRead` does not stop
before the socket is empty; so what an edge has announced is read before the loop blocks. -/
namespace Tmms.Network.PolledReceiver

open Reentrant
open OutputReadiness (Query)

/-- Ready for input, and the report of it on its way. -/
structure Due (w : Watch) : Prop where
  ready : w.ready.getLsbD 0 = true
  armed : w.armed = true

def Asked (s : World) : Prop :=
  s.receiver.connection.closed_ = false →
    s.receiver.connection.event_.getLsbD 0 = true ∧ s.watch.interest.getLsbD 0 = true

def Unread (s : World) : Prop := s.input ≠ [] ∨ s.ended = true

/-- What an open connection has not read is reported, or will be. -/
def Served (s : World) : Prop :=
  s.receiver.connection.closed_ = false → Unread s →
    Due s.watch ∨ ∃ events, s.report = some events ∧ events.getLsbD 0 = true

/-- While a body is handed over, `OnRead` has still to come back to the socket. -/
def Fine (ctx : List MessageReceiver.Callback) (s : World) : Prop :=
  Asked s ∧ ((∀ body, .handed body ∉ ctx) → Served s)

/-- While the connection is being closed nothing is promised. -/
def contract : Contract World Query MessageReceiver.Callback Method where
  inv := fun ctx s => .connection .close ∉ ctx → Fine ctx s
  rely := fun _ _ _ => True
  pre := fun ctx m s => .connection .close ∉ ctx →
    match m with
    | .inner (.handler .onRead) | .inner (.handler .readLoop) | .inner .parse => Asked s
    | .inner (.handler .onClose) | .inner (.handler .onError) | .inner (.handler .onTimeout)
    | .inner (.handler .forceClose) => True
    | .poll => Fine ctx s ∧ s.report = none
    | _ => Fine ctx s
  post := fun ctx m _ after => .connection .close ∉ ctx →
    match m with
    | .inner .parse => Asked after
    | _ => Fine ctx after
  asks := fun _ _ _ => True
  mayFault := True

section Readiness
variable {s after : World} {w : Watch}

theorem watched_input (w : Watch) : w.watched.getLsbD 0 = w.interest.getLsbD 0 := by
  simp [Watch.watched,EPOLLERR,EPOLLHUP]

theorem due_input (asked : w.interest.getLsbD 0 = true) : Due (w.rise EPOLLIN) := by
  have now : EPOLLIN.getLsbD 0 = true := by decide
  refine ⟨?_,?_⟩
  · rw [Watch.rise,BitVec.getLsbD_or,now,Bool.or_true]
  · change (w.armed || w.watched.has EPOLLIN) = true
    rw [Mask.has_of_bit 0 ((watched_input w).trans asked) now,Bool.or_true]

theorem Due.rise (due : Due w) (bits : Mask) : Due (w.rise bits) := by
  refine ⟨?_,?_⟩
  · rw [Watch.rise,BitVec.getLsbD_or,due.ready,Bool.true_or]
  · change (w.armed || w.watched.has bits) = true
    rw [due.armed,Bool.true_or]

theorem Due.room (due : Due w) : Due (w.fall EPOLLOUT) := by
  refine ⟨?_,due.armed⟩
  rw [Watch.fall,BitVec.getLsbD_and,due.ready]
  decide

theorem Due.modify (due : Due w) (events : Mask) : Due (w.modify events) := by
  refine ⟨due.ready,?_⟩
  simp only [Watch.modify,due.armed,Bool.true_or]

theorem Due.pending (due : Due w) (asked : w.interest.getLsbD 0 = true) : w.pending.getLsbD 0 = true := by
  rw [Watch.pending,if_pos due.armed,BitVec.getLsbD_and,due.ready,watched_input,asked]
  rfl

/-- What the handlers write to the mask asks for input as before. -/
theorem enable_input (mask : Mask) (on : Bool) :
    (mask.enable kEventWrite on).getLsbD 0 = mask.getLsbD 0 := by
  cases on <;> simp [Mask.enable,kEventWrite,EPOLLOUT,EPOLLET]

/-- A report that does not lead to `OnRead` or to a close says nothing of input. -/
theorem handler_silent {ev : EpollEvent} (other : ev.handler = some .onWrite ∨ ev.handler = none) :
    ev.events.getLsbD 0 = false := by
  by_contra reported
  have input : ev.events.has (EPOLLIN ||| EPOLLPRI) = true := Mask.has_of_bit 0 (by simpa using reported) (by decide)
  simp only [EpollEvent.handler,input,if_true] at other
  repeat' split at other
  all_goals simp at other

theorem asked_closed (closed : s.receiver.connection.closed_ = true) : Asked s := by
  intro opened
  rw [closed] at opened
  cases opened

theorem served_closed (closed : s.receiver.connection.closed_ = true) : Served s := by
  intro opened
  rw [closed] at opened
  cases opened

variable {ctx : List MessageReceiver.Callback}

theorem fine_closed (closed : s.receiver.connection.closed_ = true) : Fine ctx s :=
  ⟨asked_closed closed,fun _ => served_closed closed⟩

theorem happen_asked (asked : Asked s) (what : Happening) : Asked (happen s what) := by
  intro opened
  rw [happen_receiver] at opened ⊢
  obtain ⟨mask,interest⟩ := asked opened
  refine ⟨mask,?_⟩
  cases what with
  | data bytes =>
    simp only [happen]
    split <;> exact interest
  | _ => exact interest

theorem happen_served (asked : Asked s) (served : Served s) (what : Happening) : Served (happen s what) := by
  intro opened unread
  rw [happen_receiver] at opened
  have input := due_input (asked opened).2
  cases what with
  | data bytes =>
    simp only [happen] at unread ⊢
    split
    · next ended => exact served opened (.inr ended)
    · exact .inl input
  | finish => exact .inl input
  | rise bits =>
    rcases served opened unread with due | reported
    · exact .inl (due.rise bits)
    · exact .inr reported

theorem happens_asked (before : List Happening) (asked : Asked s) : Asked (happens before s) := by
  induction before generalizing s with
  | nil => exact asked
  | cons what before ih => exact ih (happen_asked asked what)

theorem Fine.happening (fine : Fine ctx s) (what : Happening) : Fine ctx (happen s what) :=
  ⟨happen_asked fine.1 what,fun outside => happen_served fine.1 (fine.2 outside) what⟩

theorem Fine.happenings (before : List Happening) (fine : Fine ctx s) : Fine ctx (happens before s) := by
  induction before generalizing s with
  | nil => exact fine
  | cons what before ih => exact ih (fine.happening what)

end Readiness

section Bodies
variable {s : World} {ctx : List MessageReceiver.Callback}

@[simp] theorem happens_receiver (before : List Happening) (s : World) :
    (happens before s).receiver = s.receiver := by
  induction before generalizing s with
  | nil => rfl
  | cons what before ih => exact (ih (happen s what)).trans (happen_receiver s what)

def Alike (receiver other : MessageReceiver.World) : Prop :=
  receiver.connection.closed_ = other.connection.closed_ ∧
    receiver.connection.event_.getLsbD 0 = other.connection.event_.getLsbD 0

theorem Asked.receiver (asked : Asked s) {receiver : MessageReceiver.World} (alike : Alike receiver s.receiver) :
    Asked { s with receiver := receiver } := by
  intro opened
  obtain ⟨mask,interest⟩ := asked (alike.1.symm.trans opened)
  exact ⟨alike.2.trans mask,interest⟩

theorem Fine.receiver (fine : Fine ctx s) {receiver : MessageReceiver.World} (alike : Alike receiver s.receiver) :
    Fine ctx { s with receiver := receiver } :=
  ⟨fine.1.receiver alike,fun outside opened unread => fine.2 outside (alike.1.symm.trans opened) unread⟩

theorem Fine.room (fine : Fine ctx s) : Fine ctx { s with watch := s.watch.fall EPOLLOUT } :=
  ⟨fine.1,fun outside opened unread => (fine.2 outside opened unread).imp_left Due.room⟩

@[simp] theorem effect_receiver (a : Answer) (s : World) (q : Query) : (effect a s q).receiver = s.receiver := by
  cases q with
  | epollMod events => rfl
  | io q =>
    cases q with
    | close fd => rfl
    | _ =>
      simp only [effect]
      split <;> rfl

theorem answered_alike (q : TcpConnection.Query) (a : Result) (receiver : MessageReceiver.World) :
    Alike (MessageReceiver.answered q a receiver) receiver := by
  cases q with
  | readFd fd =>
    simp only [MessageReceiver.answered]
    split <;> exact ⟨rfl,rfl⟩
  | _ => exact ⟨rfl,rfl⟩

theorem Asked.answered (asked : Asked s) (q : TcpConnection.Query) (a : Answer) :
    Asked (system.answered (.io q) a s) := by
  have happened := happens_asked a.before asked
  have effected : Asked (effect a (happens a.before s) (.io q)) := by
    intro opened
    rw [effect_receiver] at opened ⊢
    obtain ⟨mask,interest⟩ := happened opened
    refine ⟨mask,?_⟩
    cases q with
    | close fd => exact interest
    | readFd fd =>
      simp only [effect,take]
      repeat' split
      all_goals exact interest
    | write | writev =>
      simp only [effect]
      split <;> exact interest
  refine effected.receiver ?_
  rw [effect_receiver,happens_receiver]
  exact answered_alike q a.result s.receiver

theorem Fine.effect (fine : Fine ctx s) {q : TcpConnection.Query} (a : Answer) (other : ∀ fd, q ≠ .readFd fd) :
    Fine ctx (effect a s (.io q)) := by
  cases q with
  | readFd fd => exact absurd rfl (other fd)
  | close fd => exact fine
  | write | writev =>
    simp only [PolledReceiver.effect]
    split
    · exact fine.room
    · exact fine

theorem Fine.answered (fine : Fine ctx s) {q : TcpConnection.Query} (a : Answer) (other : ∀ fd, q ≠ .readFd fd) :
    Fine ctx (system.answered (.io q) a s) := by
  refine ((fine.happenings a.before).effect a other).receiver ?_
  rw [effect_receiver,happens_receiver]
  exact answered_alike q a.result s.receiver

theorem Fine.unreported (fine : Fine ctx s) (silent : ∀ events, s.report = some events → events.getLsbD 0 = false) :
    Fine ctx { s with report := none } := by
  refine ⟨fine.1,fun outside opened unread => ?_⟩
  rcases fine.2 outside opened unread with due | ⟨events,reported,input⟩
  · exact .inl due
  · rw [silent events reported] at input
    cases input

theorem Fine.poll (fine : Fine ctx s) (unreported : s.report = none) :
    Fine ctx { s with report := s.watch.poll.1,watch := s.watch.poll.2 } := by
  refine ⟨fine.1,fun outside opened unread => .inr ?_⟩
  rcases fine.2 outside opened unread with due | ⟨events,reported,_⟩
  · have bit := due.pending (fine.1 opened).2
    refine ⟨s.watch.pending,?_,bit⟩
    change (if s.watch.pending = 0 then none else some s.watch.pending) = _
    rw [if_neg]
    intro none
    rw [none] at bit
    simp at bit
  · rw [unreported] at reported
    cases reported

theorem Fine.modify (fine : Fine ctx s) :
    Fine ctx { s with watch := s.watch.modify s.receiver.connection.event_ } := by
  refine ⟨fun opened => ⟨(fine.1 opened).1,(fine.1 opened).1⟩,fun outside opened unread => ?_⟩
  exact (fine.2 outside opened unread).imp_left fun due => due.modify _

theorem fine_connection (c : TcpConnection.Callback) : Fine (.connection c :: ctx) s ↔ Fine ctx s := by
  simp [Fine]

variable (aside : .connection .close ∉ ctx)
include aside

theorem invoke_fine {c : TcpConnection.Callback} (other : c ≠ .close) :
    Kept system environment contract ctx (Fine ctx)
      ((Prog.invoke (.connection c) : MessageReceiver.Code Unit).within place) fun _ => True := by
  have outer : .connection .close ∉ MessageReceiver.Callback.connection c :: ctx := by
    simp [aside,other.symm]
  refine fun s fine => ⟨fun _ => (fine_connection c).mpr (fine.receiver ⟨rfl,rfl⟩),fun after _ inv => ⟨trivial,?_⟩⟩
  exact (fine_connection c).mp (inv outer)

omit aside in
theorem query_fine (q : TcpConnection.Query) (other : ∀ fd, q ≠ .readFd fd) (values : Result → Prop)
    (among : ∀ s a, environment.admits ctx s (.io q) a = true → values a.result) :
    Kept system environment contract ctx (Fine ctx)
      ((Prog.query q : MessageReceiver.Code Result).within place) values :=
  fun s fine => ⟨trivial,fun a admitted => ⟨among s a admitted,fine.answered a other⟩⟩

omit aside in
theorem update_fine (f : TcpConnection → TcpConnection)
    (alike : ∀ c, (f c).closed_ = c.closed_ ∧ (f c).event_.getLsbD 0 = c.event_.getLsbD 0) :
    Kept system environment contract ctx (Fine ctx) ((MessageReceiver.update f).within place) fun _ => True :=
  fun s fine => ⟨trivial,fine.receiver (alike s.receiver.view)⟩

omit aside in
theorem enable_fine (on : Bool) :
    Kept system environment contract ctx (Fine ctx) (enableWriting on) fun _ => True := by
  have written : Kept system environment contract ctx (Fine ctx)
      ((MessageReceiver.host.enableWriting on).within place) fun _ => True :=
    update_fine (fun c => { c with event_ := c.event_.enable kEventWrite on }) fun c => ⟨rfl,enable_input c.event_ on⟩
  refine Kept.bind written fun _ _ s fine => ⟨trivial,fun a _ => ⟨trivial,?_⟩⟩
  have mask : (happens a.before s).receiver = s.receiver := happens_receiver _ s
  have told := (fine.happenings a.before).modify
  rw [mask] at told
  refine told.receiver ?_
  rw [← mask]
  exact ⟨rfl,rfl⟩

theorem host_sends : host.Sends system environment contract ctx (Fine ctx) where
  self := fun _ fine => ⟨trivial,fine⟩
  update := fun f plain => update_fine f fun c => ⟨(plain c).2.1,by rw [(plain c).2.2.1]⟩
  writeCompleteCallback := invoke_fine aside (by decide)
  write := fun _ _ _ => query_fine _ (fun _ same => by cases same) _ fun _ _ _ => trivial
  enableWriting := enable_fine

theorem onClose_called :
    Triple system environment contract ctx (fun _ => True) host.onClose fun _ after => True ∧ Fine ctx after :=
  fun _ _ => ⟨fun _ => trivial,fun _ done => ⟨trivial,done aside⟩⟩

theorem host_writes : host.Writes system environment contract ctx (Fine ctx) fun _ => True where
  toSends := host_sends aside
  writev := fun _ _ => query_fine _ (fun _ same => by cases same) _ fun s a admitted => by
    have bound := (Bool.and_eq_true _ _ ▸ admitted).1
    exact ⟨of_decide_eq_true bound,fun _ => trivial⟩
  onClose := fun s _ => onClose_called aside s trivial
  writeLoop := fun _ fine => ⟨fun _ => fine,fun _ done => ⟨trivial,done aside⟩⟩

omit aside in
/-- After `OnClose` the connection is closed; the close callback may do what it likes. -/
theorem onClose_fine :
    wp system environment contract ctx (TcpConnection.onClose host) (fun _ after => Fine ctx after) s := by
  have close : Kept system environment contract ctx (Fine ctx) (TcpConnection.close host) fun _ => True := by
    refine TcpConnection.close_kept (fun _ fine => ⟨trivial,fine⟩) (fun fd => ?_) ?_
    · exact fun s fine => ⟨trivial,fun a _ => ⟨trivial,fine.answered a fun _ same => by cases same⟩⟩
    · exact update_fine _ fun _ => ⟨rfl,rfl⟩
  have finish : ∀ after : World, wp system environment contract ctx (do
      host.update fun c => { c with closed_ := true }
      TcpConnection.close host) (fun _ last => Fine ctx last) after := by
    intro after
    rw [wp_bind]
    exact close.wp _ (fine_closed rfl)
  simp only [TcpConnection.onClose,wp_bind] at finish ⊢
  change wp _ _ _ _ (if s.receiver.view.closed_ = false then _ else _) _ s
  rw [wp_ite]
  constructor
  · intro _
    rw [wp_ite]
    constructor
    · exact fun _ => ⟨fun never => absurd List.mem_cons_self never,fun after _ _ => finish after⟩
    · exact fun _ => finish s
  · intro closed
    have closed : s.receiver.view.closed_ = true := by simpa using closed
    exact fine_closed closed

omit aside in
/-- A read that fails, and not for good, has left nothing unread. -/
theorem readFd_asked (fd : Int) :
    Triple system environment contract ctx Asked (host.readFd fd) fun a after =>
      Asked after ∧ (a.ret < 0 → fatal a.errno = false → ¬Unread after) := by
  intro s asked
  change wp _ _ _ _ ((MessageReceiver.readFd fd).within place) _ s
  simp only [MessageReceiver.readFd,within_bind,wp_bind,wp_within_query,within_ite,wp_ite]
  refine ⟨trivial,fun a admitted => ?_⟩
  have later : Asked (system.answered (.io (.readFd fd)) a s) := asked.answered (.readFd fd) a
  constructor
  · intro some_
    simp only [wp_within_read]
    split
    · trivial
    · simp only [within_bind,wp_bind,wp_within_modify,within_pure,wp_pure]
      refine ⟨later.receiver ⟨rfl,rfl⟩,fun negative => ?_⟩
      omega
  · intro none
    refine ⟨later,fun negative passing => ?_⟩
    have none_ : readable a.result (happens a.before s) = true := (Bool.and_eq_true _ _ ▸ admitted).2
    have negative : a.result.ret < 0 := negative
    have passing : fatal a.result.errno = false := passing
    rw [readable,if_neg (by omega),if_neg (by omega),passing,Bool.false_or,Bool.and_eq_true,List.isEmpty_iff,
      Bool.not_eq_true'] at none_
    have same : effect a (happens a.before s) (.io (.readFd fd)) = happens a.before s := if_neg (by omega)
    change ¬((effect a (happens a.before s) (.io (.readFd fd))).input ≠ [] ∨
      (effect a (happens a.before s) (.io (.readFd fd))).ended = true)
    rw [same]
    simp [none_]

/-- What a read leaves behind. -/
theorem readLoop_fine (asked : Asked s) :
    wp system environment contract ctx (TcpConnection.readLoop host) (fun _ after => Fine ctx after) s := by
  have again : ∀ s, Asked s → wp system environment contract ctx host.readLoop (fun _ after => Fine ctx after) s :=
    fun s asked => ⟨fun _ => asked,fun _ done => done aside⟩
  have closing : ∀ s, wp system environment contract ctx host.onClose (fun _ after => Fine ctx after) s :=
    fun s => ⟨fun _ => trivial,fun _ done => done aside⟩
  rw [TcpConnection.readLoop,wp_bind]
  change wp system environment contract ctx (host.readFd s.receiver.view.fd_ >>= _) _ s
  rw [wp_bind]
  refine wp_mono (readFd_asked _ s asked) fun a after read => ?_
  obtain ⟨asked,unread⟩ := read
  rw [wp_ite]
  constructor
  · intro _
    have fed : Asked { after with receiver := { after.receiver with connection :=
        { after.receiver.view with message_buffer_ := after.receiver.view.message_buffer_ ++ a.data } } } :=
      asked.receiver ⟨rfl,rfl⟩
    -- the message callback is set
    exact ⟨fun _ => fed,fun parsed done => again parsed (done aside)⟩
  · intro empty
    rw [wp_ite]
    refine ⟨fun _ => closing after,fun other => ?_⟩
    rw [wp_ite]
    refine ⟨fun _ => closing after,fun passing => ⟨asked,fun _ _ left => ?_⟩⟩
    exact absurd left (unread (by omega) (by simpa using passing))

theorem onRead_fine (asked : Asked s) :
    wp system environment contract ctx (TcpConnection.onRead host) (fun _ after => Fine ctx after) s := by
  change wp system environment contract ctx (if s.receiver.view.closed_ then pure () else host.readLoop) _ s
  rw [wp_ite]
  exact ⟨fun closed => fine_closed closed,fun _ => ⟨fun _ => asked,fun _ done => done aside⟩⟩

theorem parse_asked (asked : Asked s) :
    wp system environment contract ctx (MessageReceiver.parse.within place) (fun _ after => Asked after) s := by
  have again : ∀ s, Asked s → wp system environment contract ctx
      ((Prog.run .parse : MessageReceiver.Code Unit).within place) (fun _ after => Asked after) s :=
    fun s asked => ⟨fun _ => asked,fun _ done => done aside⟩
  simp only [MessageReceiver.parse,within_bind,wp_bind,wp_within_read]
  split
  · trivial
  · exact asked
  · simp only [within_bind,wp_bind,wp_within_modify]
    exact again _ (asked.receiver ⟨rfl,rfl⟩)
  · next body rest turned =>
    simp only [within_bind,wp_bind,wp_within_modify]
    have outer : .connection .close ∉ MessageReceiver.Callback.handed body :: ctx := by simp [aside]
    refine ⟨fun _ => ⟨asked.receiver ⟨rfl,rfl⟩,fun outside => absurd List.mem_cons_self (outside body)⟩,?_⟩
    exact fun after _ inv => again _ ((inv outer).1.receiver ⟨rfl,rfl⟩)

/-- A report leads to `OnRead` if it says anything of input. -/
theorem dispatch_fine (fine : Fine ctx s) :
    wp system environment contract ctx dispatch (fun _ after => Fine ctx after) s := by
  simp only [dispatch,wp_bind,wp_read]
  cases report : s.report with
  | none => exact fine
  | some events =>
    simp only [wp_bind,wp_modify]
    have silent : (EpollEvent.mk s.receiver.connection.fd_ events).handler = some .onWrite ∨
        (EpollEvent.mk s.receiver.connection.fd_ events).handler = none → Fine ctx { s with report := none } := by
      refine fun other => fine.unreported fun events' reported => ?_
      rw [report] at reported
      cases reported
      exact handler_silent other
    cases chosen : (EpollEvent.mk s.receiver.connection.fd_ events).handler with
    | none => exact silent (.inr chosen)
    | some which =>
      cases which with
      | onError | onClose => exact ⟨fun _ => trivial,fun _ done => done aside⟩
      | onRead => exact ⟨fun _ => fine.1,fun _ done => done aside⟩
      | onWrite => exact ⟨fun _ => silent (.inl chosen),fun _ done => done aside⟩

theorem handler_fine (m : TcpConnection.Method) (pre : contract.pre ctx (.inner (.handler m)) s) :
    wp system environment contract ctx (TcpConnection.body host m) (fun _ after => Fine ctx after) s := by
  have pre := pre aside
  cases m with
  | send buf size => exact (TcpConnection.sendInLoop_kept (host_sends aside) buf size).wp s pre
  | sendList list => exact (TcpConnection.sendListInLoop_kept (host_sends aside) list).wp s pre
  | retrieve count => exact pre.receiver ⟨rfl,rfl⟩
  | onRead => exact onRead_fine aside pre
  | readLoop => exact readLoop_fine aside pre
  | onWrite => exact (TcpConnection.onWrite_of_writes (host_writes aside)).wp s pre
  | writeLoop => exact (TcpConnection.writeLoop_of_writes (host_writes aside)).wp s pre
  | onError | onTimeout | forceClose => exact wp_mono (onClose_called aside s trivial) fun _ _ kept => kept.2
  | onClose => exact onClose_fine

end Bodies

theorem input_served : contract.Sound system environment where
  rely_refl := fun _ _ => trivial
  rely_trans := fun _ _ _ _ _ _ => trivial
  body := by
    intro ctx m s pre
    by_cases closing : .connection .close ∈ ctx
    · apply wp_vacuous
      · exact fun _ _ => trivial
      · exact fun _ _ never => absurd (List.mem_cons_of_mem _ closing) never
      · exact fun _ _ never => absurd closing never
      · trivial
      · exact fun _ _ never => absurd closing never
    · cases m with
      | happen what => exact fun _ => (pre closing).happening what
      | poll => exact fun _ => (pre closing).1.poll (pre closing).2
      | dispatch => exact wp_mono (dispatch_fine closing (pre closing)) fun _ _ fine _ => fine
      | inner m =>
        cases m with
        | parse => exact wp_mono (parse_asked closing (pre closing)) fun _ _ asked _ => asked
        | handler m => exact wp_mono (handler_fine closing m pre) fun _ _ fine _ => fine
  enter := by
    intro ctx m s inv allowed aside
    have fine := inv aside
    cases m with
    | happen what => exact fine
    | poll =>
      refine ⟨fine,?_⟩
      simp only [environment,Bool.and_eq_true,Option.isNone_iff_eq_none] at allowed
      exact allowed.2
    | dispatch => exact fine
    | inner m =>
      cases m with
      | parse => cases allowed
      | handler m =>
        cases m with
        | send | sendList => exact fine
        | onTimeout | forceClose => trivial
        | _ => cases allowed
  leave := by
    intro ctx m s after _ allowed done
    refine ⟨fun aside => ?_,trivial⟩
    cases m with
    | inner m =>
      cases m with
      | parse => cases allowed
      | handler m => exact done aside
    | _ => exact done aside

section Ledger

def ledger (s : World) : List UInt8 × List UInt8 × List UInt8 := (s.receiver.received,s.input,s.arrived)

def Balanced (record : List UInt8 × List UInt8 × List UInt8) : Prop := record.2.2 = record.1 ++ record.2.1

def Quiet (s after : World) : Prop := ledger after = ledger s

theorem place_quiet (s : World) (after : MessageReceiver.World) (quiet : MessageReceiver.Quiet (place.get s) after) :
    Quiet s (place.put after s) := by
  obtain ⟨received,_⟩ := Prod.mk.inj quiet
  exact congrArg (·,s.input,s.arrived) received

theorem host_quiet : host.Steady Quiet :=
  { Host.within_steady (fun _ _ => rfl) place_quiet MessageReceiver.host_quiet with
    enableWriting := fun on => by
      have written := within_steady (fun _ _ => rfl) place_quiet (MessageReceiver.host_quiet.enableWriting on)
      exact .bind written fun _ => .bind (fun _ => trivial) fun _ _ _ _ => trivial }

theorem dispatch_quiet : dispatch.Steady Quiet := by
  have calls : ∀ m, (handler m).Steady Quiet := fun _ _ _ => trivial
  refine .bind (fun _ => trivial) fun s => ?_
  split
  · exact fun _ => trivial
  · refine .bind (.modify fun _ => rfl) fun _ => ?_
    split
    · exact calls _
    · exact calls _
    · exact calls _
    · exact calls _
    · exact fun _ => trivial

theorem happen_balanced {s : World} (balanced : Balanced (ledger s)) (what : Happening) :
    Balanced (ledger (happen s what)) := by
  cases what with
  | data bytes =>
    simp only [happen]
    split
    · exact balanced
    · exact (congrArg (· ++ bytes) balanced).trans (List.append_assoc _ _ _)
  | _ => exact balanced

theorem happens_balanced {s : World} (before : List Happening) (balanced : Balanced (ledger s)) :
    Balanced (ledger (happens before s)) := by
  induction before generalizing s with
  | nil => exact balanced
  | cons what before ih => exact ih (happen_balanced balanced what)

theorem answered_balanced {s : World} {ctx : List MessageReceiver.Callback} {q : Query} {a : Answer}
    (admitted : environment.admits ctx s q a = true) (balanced : Balanced (ledger s)) :
    Balanced (ledger (system.answered q a s)) := by
  have happened : (happens a.before s).arrived = s.receiver.received ++ (happens a.before s).input := by
    have later := happens_balanced a.before balanced
    rw [Balanced,ledger,happens_receiver] at later
    exact later
  cases q with
  | epollMod events => exact happened
  | io q =>
    cases q with
    | close fd => exact happened
    | write | writev =>
      simp only [Balanced,ledger,system,answered,effect]
      split <;> exact happened
    | readFd fd =>
      by_cases some_ : a.result.ret > 0
      · have taken : readable a.result (happens a.before s) = true := (Bool.and_eq_true _ _ ▸ admitted).2
        rw [readable,if_pos some_,List.isPrefixOf_iff_prefix] at taken
        obtain ⟨rest,front⟩ := taken
        simp only [Balanced,ledger,system,answered,effect,MessageReceiver.answered,some_,if_true,take,happened]
        rw [← front,List.drop_left,List.append_assoc]
      · simp only [Balanced,ledger,system,answered,effect,MessageReceiver.answered,some_,if_false]
        exact happened

theorem receiver_records : contract.Records system environment ledger Balanced where
  quiet := by
    intro m
    cases m with
    | happen what => exact fun _ => trivial
    | poll => exact .modify fun _ => rfl
    | dispatch => exact dispatch_quiet
    | inner m =>
      cases m with
      | handler m => exact TcpConnection.body_steady host_quiet m
      | parse => exact within_steady (fun _ _ => rfl) place_quiet MessageReceiver.parse_quiet
  answered := fun _ _ _ _ _ admitted balanced => answered_balanced admitted balanced
  began := by
    intro ctx m s _ balanced
    cases m with
    | happen what => exact happen_balanced balanced what
    | _ => exact balanced
  invoked := by
    intro ctx c s _ balanced
    cases c <;> exact balanced

end Ledger

structure Fresh (s : World) : Prop where
  receiver : MessageReceiver.Fresh s.receiver
  mask : s.receiver.connection.event_.getLsbD 0 = true
  interest : s.watch.interest.getLsbD 0 = true
  input : s.input = []
  ended : s.ended = false
  arrived : s.arrived = []

theorem Fresh.served {s : World} (fresh : Fresh s) : contract.inv [] s := by
  refine fun _ => ⟨fun _ => ⟨fresh.mask,fresh.interest⟩,fun _ _ unread => ?_⟩
  rcases unread with left | ended
  · exact absurd fresh.input left
  · rw [fresh.ended] at ended
    cases ended

/-- What has come has been read or waits, in that order. -/
theorem arrived_received (s : World) (fresh : Fresh s) (c : Config World Query Answer MessageReceiver.Callback Method)
    (reached : system.Reachable environment s c) :
    c.state.arrived = c.state.receiver.received ++ c.state.input := by
  refine reachable_recorded input_served receiver_records s c fresh.served ?_ reached
  rw [Balanced,ledger,fresh.arrived,fresh.receiver.received,fresh.input]
  rfl

structure Blocked (c : Config World Query Answer MessageReceiver.Callback Method) : Prop where
  stack : c.stack = []
  report : c.state.report = none
  pending : c.state.watch.pending = 0
  opened : c.state.receiver.connection.closed_ = false

section Blocked
variable {s : World} {c : Config World Query Answer MessageReceiver.Callback Method}

/-- Where the loop is about to block, nothing waits to be read. -/
theorem blocked_input (fresh : Fresh s) (reached : system.Reachable environment s c) (blocked : Blocked c) :
    c.state.input = [] ∧ c.state.ended = false := by
  have inv := reachable_invariant input_served s c fresh.served reached (Config.controlled_of_nil blocked.stack)
  rw [blocked.stack] at inv
  have fine : Fine [] c.state := inv List.not_mem_nil
  have read : ¬Unread c.state := by
    intro unread
    rcases fine.2 (fun _ => List.not_mem_nil) blocked.opened unread with due | ⟨events,reported,_⟩
    · have bit := due.pending (fine.1 blocked.opened).2
      rw [blocked.pending] at bit
      simp at bit
    · rw [blocked.report] at reported
      cases reported
  simpa [Unread] using read

/-- Every message that has come has been handed over, if the last of them is not empty. -/
theorem blocked_delivered (fresh : Fresh s) (reached : system.Reachable environment s c) (blocked : Blocked c)
    (bodies : List (List UInt8)) (framed : TestContext.frames.Framed bodies c.state.arrived)
    (last : bodies.getLast? ≠ some []) :
    c.state.receiver.delivered = bodies ∧ c.state.receiver.message_buffer_.readable = [] := by
  obtain ⟨d,ran,same,shown⟩ := simulated_reachable parsing_simulation s c reached
  rw [blocked.stack] at shown
  have state : d.state = c.state.receiver := same
  rw [arrived_received s fresh c reached,(blocked_input fresh reached blocked).1,List.append_nil,← state] at framed
  rw [← state]
  exact MessageReceiver.idle_delivered s.receiver fresh.receiver d ran shown bodies framed last

end Blocked

/-- In every run in which no read is interrupted while there is something to read: where the loop is about to
block on an open connection, all that has come to its socket has been read, in order and once, and its
peer has not finished. -/
theorem input_not_stranded (s : World) (fresh : Fresh s)
    (c : Config World Query Answer MessageReceiver.Callback Method) (reached : system.Reachable environment s c)
    (blocked : Blocked c) :
    c.state.input = [] ∧ c.state.ended = false ∧ c.state.arrived = c.state.receiver.received := by
  obtain ⟨none,going⟩ := blocked_input fresh reached blocked
  refine ⟨none,going,?_⟩
  rw [arrived_received s fresh c reached,none,List.append_nil]

def idle : World where
  receiver := MessageReceiver.idle
  input := []
  ended := false
  watch := ⟨kEventRead,EPOLLOUT,false⟩
  report := none
  arrived := []

theorem idle_fresh : Fresh idle := ⟨MessageReceiver.idle_fresh,by decide,by decide,rfl,rfl,rfl⟩

def readOver : List (Move World Query Answer MessageReceiver.Callback Method) :=
  [.enter (.happen (.data [0,0,0])),.enter .poll,.enter .dispatch,.answer ⟨⟨3,0,[0,0,0]⟩,[],false⟩,
    .answer ⟨⟨3,0,[2,65,66]⟩,[.data [2,65,66]],false⟩,.leave,.answer ⟨⟨-1,EAGAIN,[]⟩,[],false⟩,.enter .poll]

theorem input_not_stranded_parts :
    ∃ c : Config World Query Answer MessageReceiver.Callback Method, c.state.arrived = [0,0,0,2,65,66] ∧
      c.state.receiver.delivered = [[65,66]] ∧ c.state.arrived = c.state.receiver.received := by
  have reached := system.play_reachable environment 60 readOver idle _ rfl
  exact ⟨_,rfl,rfl,(input_not_stranded idle idle_fresh _ reached ⟨rfl,rfl,rfl,rfl⟩).2.2⟩

end Tmms.Network.PolledReceiver
