import Tmms.EventLoop

/-! Which registration an entry of a batch is delivered to. The loop looks an entry up by its
number only, so what it finds is the registration that `epoll_wait` reported unless a
handler of the same batch has made another one under that number. -/
namespace Tmms.Network.EventLoop

open Reentrant

/-- The numbers still ahead in the batches being walked. -/
def ahead (ctx : List Callback) : List Int :=
  ctx.flatMap fun c =>
    match c with
    | .handle _ _ numbers => numbers
    | _ => []

/-- `anyUse`; if `steady`, no `AddEvent` takes effect under a number still ahead in the batch. -/
def dispatching (steady : Bool) : Environment World Query Result Callback Method where
  admits := fun ctx s q a =>
    anyUse.admits ctx s q a &&
      match q with
      | .socket => !steady || decide (a.ret ∉ ahead ctx)
      | _ => true
  enters := fun ctx s m =>
    anyUse.enters ctx s m &&
      match m with
      | .addEvent event => !steady || decide ((s.event event).fd_ ∉ ahead ctx) ||
          (s.loop.events_.lookup (s.event event).fd_).isSome
      | _ => true

/-- What is registered under these numbers is older than the batch. -/
def Steady (numbers : List Int) (s : World) : Prop :=
  ∀ fd ∈ numbers, ∀ r, s.registration fd = some r → r.serial < s.since

/-- Registrations in force are numbered, and those made before the last batch are the ones
it was given. -/
structure History (steady : Bool) (ctx : List Callback) (s : World) : Prop where
  issued : ∀ fd r, s.registration fd = some r → r.serial < s.serial
  older : ∀ fd r, s.registration fd = some r → r.serial < s.since → s.polled fd = some r
  polled : ∀ fd r, s.polled fd = some r → r.serial < s.since
  since : s.since ≤ s.serial
  told : ∀ d ∈ s.deliveries, ∃ r, d.found = some r ∧ (d.polled = some r ↔ r.serial < d.since)
  right : steady = true → ∀ d ∈ s.deliveries, d.polled = d.found
  ahead : steady = true → Steady (ahead ctx) s

structure Quiet (s after : World) : Prop where
  events_ : after.loop.events_ = s.loop.events_
  serials : after.serials = s.serials
  serial : after.serial = s.serial
  polled : after.polled = s.polled
  since : after.since = s.since
  deliveries : after.deliveries = s.deliveries

section State
variable {steady : Bool} {ctx : List Callback} {s after : World}

theorem setEvent_quiet (e : EventPtr) (v : Event) : Quiet s (s.setEvent e v) := by
  cases e <;> exact ⟨rfl,rfl,rfl,rfl,rfl,rfl⟩

/-- What is registered afterwards was registered before, or is the newest. -/
theorem History.step (history : History steady ctx s)
    (now : ∀ fd r, after.registration fd = some r → s.registration fd = some r ∨
      (s.serial ≤ r.serial ∧ r.serial < after.serial ∧ (steady = true → fd ∉ EventLoop.ahead ctx)))
    (serial : s.serial ≤ after.serial) (polled : after.polled = s.polled) (since : after.since = s.since)
    (deliveries : after.deliveries = s.deliveries) : History steady ctx after := by
  constructor
  · intro fd r registered
    rcases now fd r registered with old | fresh
    · exact Nat.lt_of_lt_of_le (history.issued fd r old) serial
    · exact fresh.2.1
  · intro fd r registered young
    rw [since] at young
    rw [polled]
    rcases now fd r registered with old | fresh
    · exact history.older fd r old young
    · have := history.since
      omega
  · rw [since,polled]
    exact history.polled
  · rw [since]
    exact Nat.le_trans history.since serial
  · rw [deliveries]
    exact history.told
  · rw [deliveries]
    exact history.right
  · intro holds fd inside r registered
    rw [since]
    rcases now fd r registered with old | fresh
    · exact history.ahead holds fd inside r old
    · exact absurd inside (fresh.2.2 holds)

theorem History.quiet (history : History steady ctx s) (quiet : Quiet s after) :
    History steady ctx after := by
  apply history.step _ (Nat.le_of_eq quiet.serial.symm) quiet.polled quiet.since quiet.deliveries
  intro fd r registered
  simp only [World.registration,quiet.events_,quiet.serials] at registered
  exact Or.inl registered

/-- Apart from the object's mask, `AddEvent` changes the table and its history. -/
theorem addEvent_quiet (e : EventPtr) :
    Quiet { s.noted (s.event e).fd_ with loop := (s.loop.addEvent e (s.event e)).2 } (s.addEvent e) := by
  have quiet := @setEvent_quiet (s.noted (s.event e).fd_) e (s.loop.addEvent e (s.event e)).1
  exact ⟨rfl,quiet.serials,quiet.serial,quiet.polled,quiet.since,quiet.deliveries⟩

/-- A new registration is younger than the batch. -/
theorem History.addEvent (history : History steady ctx s) (e : EventPtr)
    (allowed : steady = true → (s.event e).fd_ ∉ EventLoop.ahead ctx ∨
      s.loop.events_.lookup (s.event e).fd_ ≠ none) : History steady ctx (s.addEvent e) := by
  apply History.quiet _ (addEvent_quiet e)
  cases found : s.loop.events_.lookup (s.event e).fd_ with
  | some f =>
    simp only [EventLoop.addEvent,World.noted,found,Option.isNone_some,Bool.false_eq_true,if_false]
    exact history
  | none =>
    simp only [EventLoop.addEvent,World.noted,found,Option.isNone_none,if_true]
    refine history.step ?_ (Nat.le_succ _) rfl rfl rfl
    intro fd r registered
    simp only [World.registration] at registered
    by_cases here : fd = (s.event e).fd_
    · subst here
      rw [AList.lookup_insert,Function.update_self] at registered
      cases registered
      refine Or.inr ⟨Nat.le_refl _,Nat.lt_succ_self _,fun holds => ?_⟩
      exact (allowed holds).resolve_right fun entry => entry found
    · rw [AList.lookup_insert_ne here,Function.update_of_ne here] at registered
      exact Or.inl registered

theorem History.delEvent (history : History steady ctx s) (e : EventPtr) :
    History steady ctx (s.delEvent e) := by
  refine history.step ?_ (Nat.le_refl _) rfl rfl rfl
  intro fd r
  simp only [World.registration,World.delEvent,EventLoop.delEvent]
  split
  · exact Or.inl
  · by_cases here : fd = (s.event e).fd_
    · subst here
      rw [AList.lookup_erase]
      rintro ⟨⟩
    · rw [AList.lookup_erase_ne here]
      exact Or.inl

theorem enableEvent_quiet (bits : Mask) (e : EventPtr) (on : Bool) : Quiet s (s.enableEvent bits e on) := by
  unfold World.enableEvent
  split
  · exact ⟨rfl,rfl,rfl,rfl,rfl,rfl⟩
  · next v loop enabled =>
    have quiet := @setEvent_quiet s e v
    have table : loop.events_ = s.loop.events_ := by
      unfold EventLoop.enableEvent at enabled
      split at enabled
      · contradiction
      · cases enabled
        rfl
    exact ⟨table,quiet.serials,quiet.serial,quiet.polled,quiet.since,quiet.deliveries⟩

theorem answered_quiet (q : Query) (a : Result) : Quiet s (answered q a s) := by
  have kernel : ∀ f, Quiet s (s.onKernel f) := fun _ => ⟨rfl,rfl,rfl,rfl,rfl,rfl⟩
  have still : Quiet s s := ⟨rfl,rfl,rfl,rfl,rfl,rfl⟩
  cases q with
  | io q =>
    cases q with
    | close fd => exact kernel _
    | _ => exact still
  | socket | accept =>
    simp only [answered]
    split
    · exact kernel _
    · exact still

end State

section Contract
variable (steady : Bool)

def historyContract : Contract World Query Callback Method where
  inv := History steady
  rely := fun _ _ _ => True
  pre := fun ctx m s => History steady ctx s ∧
    match m with
    | .addEvent e => steady = true → (s.event e).fd_ ∉ ahead ctx ∨ s.loop.events_.lookup (s.event e).fd_ ≠ none
    | .dispatch _ => ctx = []
    | _ => True
  post := fun ctx _ _ after => History steady ctx after
  asks := fun _ _ _ => True
  mayFault := True

variable (ctx : List Callback)

/-- `p` keeps the history, whatever it ends with. -/
def KeepsHistory (p : Code α) : Prop :=
  Kept system (dispatching steady) (historyContract steady) ctx (History steady ctx) p fun _ => True

theorem quiet_history (f : World → World) (quiet : ∀ s, Quiet s (f s)) :
    KeepsHistory steady ctx (Prog.modify f) :=
  fun s history => ⟨trivial,history.quiet (quiet s)⟩

theorem query_history (q : Query) : KeepsHistory steady ctx (Prog.query q) :=
  fun _ history => ⟨trivial,fun a _ => ⟨trivial,history.quiet (answered_quiet q a)⟩⟩

theorem invoke_history (c : Callback) (user : ahead [c] = []) (unrecorded : ∀ s, invoked c s = s) :
    KeepsHistory steady ctx (Prog.invoke c) := by
  have same : ahead (c :: ctx) = ahead ctx := by
    have split : ahead (c :: ctx) = ahead [c] ++ ahead ctx := by simp [ahead]
    rw [split,user,List.nil_append]
  have moved : ∀ s, History steady (c :: ctx) s ↔ History steady ctx s := by
    intro s
    constructor
    · exact fun h => ⟨h.issued,h.older,h.polled,h.since,h.told,h.right,same ▸ h.ahead⟩
    · exact fun h => ⟨h.issued,h.older,h.polled,h.since,h.told,h.right,same ▸ h.ahead⟩
  intro s history
  refine ⟨?_,fun after _ inv => ⟨trivial,(moved after).mp inv⟩⟩
  change History steady (c :: ctx) (invoked c s)
  rw [unrecorded]
  exact (moved s).mpr history

theorem run_history (n : Nat) (m : TcpConnection.Method) :
    KeepsHistory steady ctx (Prog.run (.connection n m)) :=
  fun _ history => ⟨⟨history,trivial⟩,fun _ done => ⟨trivial,done⟩⟩

theorem closeAcceptor_history (n : Nat) : KeepsHistory steady ctx (closeAcceptor n) := by
  apply Kept.bind Kept.read
  intro s _
  apply Kept.ite
  · intro _
    apply Kept.bind (query_history steady ctx _)
    exact fun _ _ => quiet_history steady ctx _ fun s => setEvent_quiet _ _
  · exact fun _ => Kept.pure trivial

theorem openAcceptor_history (n : Nat) : KeepsHistory steady ctx (openAcceptor n) := by
  apply Kept.bind (closeAcceptor_history steady ctx n)
  intro _ _ s history
  simp only [wp_bind,wp_query,wp_modify,wp_ite,wp_fault]
  refine ⟨trivial,fun a admitted => ⟨fun _ => trivial,fun _ => ⟨trivial,?_⟩⟩⟩
  have moved := (history.quiet (answered_quiet .socket a)).quiet
    (setEvent_quiet (.acceptor n) ⟨a.ret,((system.answered .socket a s).acceptors n).event_⟩)
  apply moved.addEvent (.acceptor n)
  intro holds
  left
  subst holds
  simp only [dispatching,Bool.not_true,Bool.false_or,Bool.and_eq_true,decide_eq_true_eq] at admitted
  simpa [World.event,World.setEvent] using admitted.2

theorem accept_history (close_cb_ message_cb_ write_complete_cb_ : Bool) :
    KeepsHistory steady ctx (accept close_cb_ message_cb_ write_complete_cb_) := by
  apply Kept.bind (query_history steady ctx _)
  intro a _
  apply Kept.ite
  · exact fun _ => quiet_history steady ctx _ fun s => ⟨rfl,rfl,rfl,rfl,rfl,rfl⟩
  · exact fun _ => Kept.pure trivial

/-- The registration found is the polled one if and only if it is older than the batch. -/
theorem deliver_history (ev : EpollEvent) (numbers : List Int) :
    Triple system (dispatching steady) (historyContract steady) []
      (fun s => History steady [] s ∧ (steady = true → Steady (ev.fd :: numbers) s)) (deliver ev numbers)
      fun _ after => History steady [] after ∧ (steady = true → Steady numbers after) := by
  rintro s ⟨history,old⟩
  have rest : steady = true → Steady numbers s := fun holds fd inside =>
    old holds fd (List.mem_cons_of_mem _ inside)
  simp only [deliver,wp_bind,wp_read,wp_ite,wp_pure]
  refine ⟨fun ready => ?_,fun _ => ⟨history,rest⟩⟩
  cases ev.handler with
  | none => exact ⟨history,rest⟩
  | some handler =>
    obtain ⟨event,found⟩ := Option.isSome_iff_exists.mp ready.2
    have registered : s.registration ev.fd = some ⟨event,s.serials ev.fd⟩ := by
      simp only [World.registration,found,Option.map_some]
    refine ⟨⟨history.issued,history.older,history.polled,history.since,?_,?_,?_⟩,?_⟩
    · intro d among
      rcases List.mem_append.mp among with before | new
      · exact history.told d before
      · obtain rfl := List.mem_singleton.mp new
        exact ⟨_,registered,history.polled ev.fd _,history.older ev.fd _ registered⟩
    · intro holds d among
      rcases List.mem_append.mp among with before | new
      · exact history.right holds d before
      · obtain rfl := List.mem_singleton.mp new
        have young := old holds ev.fd List.mem_cons_self _ registered
        exact (history.older ev.fd _ registered young).trans registered.symm
    · intro holds fd inside
      exact rest holds fd (by simpa [ahead] using inside)
    · intro after _ inv
      refine ⟨⟨inv.issued,inv.older,inv.polled,inv.since,inv.told,inv.right,?_⟩,?_⟩
      · intro _ fd inside
        cases inside
      · intro holds fd inside
        exact inv.ahead holds fd (by simpa [ahead] using inside)

theorem walk_history (batch : List EpollEvent) :
    Triple system (dispatching steady) (historyContract steady) []
      (fun s => History steady [] s ∧ (steady = true → Steady (batch.map EpollEvent.fd) s)) (walk batch)
      fun _ after => History steady [] after := by
  induction batch with
  | nil => exact fun _ holds => holds.1
  | cons ev batch ih => exact Triple.bind (deliver_history steady ev _) fun _ => ih

theorem host_keeps_history (n : Nat) :
    (host n).Keeps system (dispatching steady) (historyContract steady) ctx (History steady ctx)
      fun _ => True where
  self := fun _ history => ⟨trivial,history⟩
  update := fun f _ => quiet_history steady ctx _ fun s => ⟨rfl,rfl,rfl,rfl,rfl,rfl⟩
  messageCallback := invoke_history steady ctx _ rfl fun _ => rfl
  writeCompleteCallback := invoke_history steady ctx _ rfl fun _ => rfl
  write := fun _ _ _ => query_history steady ctx _
  writev := by
    intro fd vec s history
    refine ⟨trivial,fun a admitted => ⟨⟨?_,fun _ => trivial⟩,history⟩⟩
    simpa [dispatching,anyUse] using admitted
  readFd := fun _ _ history => ⟨trivial,fun _ _ => ⟨fun _ => trivial,history⟩⟩
  enableWriting := fun on => quiet_history steady ctx _ fun s => enableEvent_quiet _ _ on
  onClose := fun s holds => run_history steady ctx n _ s holds.2
  readLoop := run_history steady ctx n _
  writeLoop := run_history steady ctx n _

theorem close_history (n : Nat) : KeepsHistory steady ctx (TcpConnection.close (host n)) := by
  apply TcpConnection.close_kept (host_keeps_history steady ctx n).self
  · intro fd
    exact Kept.bind (query_history steady ctx _) fun _ _ => Kept.pure trivial
  · exact quiet_history steady ctx _ fun s => ⟨rfl,rfl,rfl,rfl,rfl,rfl⟩

theorem onClose_history (n : Nat) : KeepsHistory steady ctx (TcpConnection.onClose (host n)) := by
  apply TcpConnection.onClose_kept (host_keeps_history steady ctx n).self
  · exact invoke_history steady ctx _ rfl fun _ => rfl
  · exact quiet_history steady ctx _ fun s => ⟨rfl,rfl,rfl,rfl,rfl,rfl⟩
  · exact close_history steady ctx n

theorem body_history (m : Method) (s : World) (pre : (historyContract steady).pre ctx m s) :
    wp system (dispatching steady) (historyContract steady) ctx (body m)
      (fun _ after => History steady ctx after) (began m s) := by
  obtain ⟨history,ready⟩ := pre
  cases m with
  | start n => exact (openAcceptor_history steady ctx n).wp s history
  | stop n => exact history.delEvent _
  | acceptorOnClose n => exact (openAcceptor_history steady ctx n).wp _ (history.delEvent _)
  | accept close_cb_ message_cb_ write_complete_cb_ => exact (accept_history steady ctx _ _ _).wp s history
  | addEvent event => exact history.addEvent event ready
  | delEvent event => exact history.delEvent event
  | enableReading event enable => exact history.quiet (enableEvent_quiet _ event enable)
  | enableWriting event enable => exact history.quiet (enableEvent_quiet _ event enable)
  | close event =>
    cases event with
    | acceptor n => exact (closeAcceptor_history steady ctx n).wp s history
    | connection n => exact (close_history steady ctx n).wp s history
  | connection n m =>
    by_cases itself : m = .onClose
    · subst itself
      exact (onClose_history steady ctx n).wp s history
    · exact TcpConnection.body_kept (host_keeps_history steady ctx n) m itself s history fun _ => trivial
  | dispatch batch =>
    -- `epoll_wait` returns: all registrations in force are older than the batch.
    subst ready
    apply walk_history steady batch
    refine ⟨⟨history.issued,fun _ _ now _ => now,history.issued,Nat.le_refl _,history.told,history.right,?_⟩,?_⟩
    · intro _ fd inside
      cases inside
    · exact fun _ fd _ => history.issued fd

theorem history_sound : (historyContract steady).Sound system (dispatching steady) where
  rely_refl := fun _ _ => trivial
  rely_trans := fun _ _ _ _ _ _ => trivial
  body := fun ctx m s pre => body_history steady ctx m s pre
  enter := by
    intro ctx m s history allowed
    constructor
    · exact history
    cases m with
    | addEvent event =>
      intro holds
      subst holds
      have permitted := (Bool.and_eq_true_iff.mp allowed).2
      simp only [Bool.not_true,Bool.false_or,Bool.or_eq_true,decide_eq_true_eq] at permitted
      rcases permitted with outside | entry
      · exact Or.inl outside
      · exact Or.inr (Option.isSome_iff_ne_none.mp entry)
    | dispatch batch => simpa [dispatching,anyUse] using allowed
    | _ => trivial
  leave := fun _ _ _ _ _ _ done => ⟨done,trivial⟩

theorem fresh_history (s : World) (fresh : Fresh s) : History steady [] s := by
  have none : ∀ fd, s.registration fd = none := by
    intro fd
    simp only [World.registration,fresh.events_,AList.lookup_empty,Option.map_none]
  constructor
  · intro fd r now
    rw [none] at now
    cases now
  · intro fd r now
    rw [none] at now
    cases now
  · intro fd r was
    rw [fresh.polled] at was
    cases was
  · rw [fresh.since]
    exact Nat.zero_le _
  · rw [fresh.deliveries]
    exact fun d among => absurd among List.not_mem_nil
  · rw [fresh.deliveries]
    exact fun _ d among => absurd among List.not_mem_nil
  · intro _ fd inside
    cases inside

end Contract

/-- In every run, an entry is dispatched to the registration in force under its number when
`epoll_wait` returned if and only if the one found there was not made since; so in a run in
which no `AddEvent` takes effect under a number still ahead in the batch, always. -/
theorem dispatched_to_polled (steady : Bool) (s : World)
    (c : Config World Query Result Callback Method) (fresh : Fresh s)
    (reached : system.Reachable (dispatching steady) s c) (controlled : c.controlled) :
    (∀ d ∈ c.state.deliveries, ∃ r, d.found = some r ∧ (d.polled = some r ↔ r.serial < d.since)) ∧
    (steady = true → ∀ d ∈ c.state.deliveries, d.polled = d.found) := by
  have history : History steady (active c.stack) c.state :=
    reachable_invariant (history_sound steady) s c (fresh_history steady s fresh) reached controlled
  exact ⟨history.told,history.right⟩

def twoReady (first : List (Move World Query Result Callback Method)) :
    List (Move World Query Result Callback Method) :=
  [.enter (.accept true true true),.answer ⟨4,0,[]⟩,.enter (.addEvent (.connection 0)),
    .enter (.accept true true true),.answer ⟨5,0,[]⟩,.enter (.addEvent (.connection 1)),
    .enter (.dispatch [⟨4,EPOLLIN⟩,⟨5,EPOLLHUP⟩])] ++ first ++ [.leave]

def behind : List (Move World Query Result Callback Method) :=
  [.enter (.delEvent (.connection 0)),.enter (.close (.connection 0)),.answer ⟨0,0,[]⟩,
    .enter (.accept true true true),.answer ⟨4,0,[]⟩,.enter (.addEvent (.connection 2))]

theorem dispatched_to_polled_behind :
    ∃ c : Config World Query Result Callback Method, c.state.deliveries.length = 2 ∧
      ∀ d ∈ c.state.deliveries, d.polled = d.found := by
  have reached := system.play_reachable (dispatching true) 40 (twoReady behind) start _ rfl
  exact ⟨_,rfl,(dispatched_to_polled true start _ start_fresh reached trivial).2 rfl⟩

/-- The second connection gives up its number to a new one, which then gets its hang-up. -/
theorem dispatched_to_newcomer :
    ∃ c, system.Reachable anyUse start c ∧ c.controlled ∧ ∃ d ∈ c.state.deliveries,
      d.fd = 5 ∧ d.polled = some ⟨.connection 1,1⟩ ∧ d.found = some ⟨.connection 2,2⟩ ∧
        d.polled ≠ d.found := by
  have reached := system.play_reachable anyUse 40 (twoReady
    [.enter (.delEvent (.connection 1)),.enter (.close (.connection 1)),.answer ⟨0,0,[]⟩,
      .enter (.accept true true true),.answer ⟨5,0,[]⟩,.enter (.addEvent (.connection 2))]) start _ rfl
  refine ⟨_,reached,trivial,_,List.mem_cons_of_mem _ List.mem_cons_self,rfl,rfl,rfl,?_⟩
  decide

end Tmms.Network.EventLoop
