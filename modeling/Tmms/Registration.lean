import Tmms.EventLoop

/-! The registration table and the descriptors. Each entry of `events_` names an object that
holds the entry's number, open and watched with the object's mask, as long as nothing closes
or replaces a number that still has an entry. -/
namespace Tmms.Network.EventLoop

open Reentrant

/-- What holds between operations: numbers have one owner, entries stand for their owners,
and epoll watches nothing else. -/
structure Coherent (event : EventPtr → Event) (made : EventPtr → Bool) (l : EventLoop) : Prop where
  opened : ∀ e, 0 ≤ (event e).fd_ → (event e).fd_ ∈ l.kernel.opened
  owner : ∀ e f, 0 ≤ (event e).fd_ → (event e).fd_ = (event f).fd_ → e = f
  entry : ∀ fd e, l.events_.lookup fd = some e →
    (event e).fd_ = fd ∧ 0 ≤ fd ∧ l.kernel.interest fd = some (event e).event_ ∧ made e = true
  interest : ∀ fd, l.events_.lookup fd = none → l.kernel.interest fd = none

section Table
variable {event : EventPtr → Event} {made : EventPtr → Bool} {l : EventLoop} {e : EventPtr}

/-- An object without an entry under its own number has none at all. -/
theorem Coherent.absent (coherent : Coherent event made l)
    (unregistered : l.events_.lookup (event e).fd_ = none) (fd : Int) :
    l.events_.lookup fd ≠ some e := by
  intro found
  rw [(coherent.entry fd e found).1,found] at unregistered
  cases unregistered

/-- A number that is not open has no entry. -/
theorem Coherent.unused (coherent : Coherent event made l) {fd : Int} (free : fd ∉ l.kernel.opened) :
    l.events_.lookup fd = none := by
  cases found : l.events_.lookup fd with
  | none => rfl
  | some e =>
    obtain ⟨same,nonneg,_⟩ := coherent.entry fd e found
    subst same
    exact absurd (coherent.opened e nonneg) free

theorem Coherent.negative (coherent : Coherent event made l) {fd : Int} (small : fd < 0) :
    l.events_.lookup fd = none := by
  cases found : l.events_.lookup fd with
  | none => rfl
  | some e =>
    have nonneg := (coherent.entry fd e found).2.1
    omega

/-- The number an object holds has no other object's entry. -/
theorem Coherent.found (coherent : Coherent event made l) {f : EventPtr}
    (entry : l.events_.lookup (event e).fd_ = some f) : f = e := by
  obtain ⟨same,nonneg,_⟩ := coherent.entry _ f entry
  exact (coherent.owner e f nonneg same.symm).symm

theorem masked_fd (mask : Mask) (f : EventPtr) :
    (Function.update event e ⟨(event e).fd_,mask⟩ f).fd_ = (event f).fd_ := by
  by_cases self : f = e
  · subst self
    rw [Function.update_self]
  · rw [Function.update_of_ne self]

theorem addEvent_found {v : Event} {f : EventPtr} (found : l.events_.lookup v.fd_ = some f) :
    l.addEvent e v = (v,l) := by
  simp only [addEvent,found]

/-- `AddEvent` under a free number, and an open descriptor that epoll does not watch. -/
theorem addEvent_free {v : Event} (free : l.events_.lookup v.fd_ = none)
    (opened : v.fd_ ∈ l.kernel.opened) (unwatched : l.kernel.interest v.fd_ = none) :
    l.addEvent e v = ({ v with event_ := v.event_ ||| kEventRead },
      ⟨l.events_.insert v.fd_ e,l.kernel.opened,
        Function.update l.kernel.interest v.fd_ (some (v.event_ ||| kEventRead))⟩) := by
  simp only [addEvent,free,Kernel.epollAdd,opened,unwatched,and_self,if_true]

theorem Coherent.addEvent (coherent : Coherent event made l) (exists_ : made e = true)
    (valid : 0 ≤ (event e).fd_) :
    Coherent (Function.update event e (l.addEvent e (event e)).1) made (l.addEvent e (event e)).2 := by
  cases found : l.events_.lookup (event e).fd_ with
  | some f =>
    rw [addEvent_found found,Function.update_eq_self]
    exact coherent
  | none =>
    have opened := coherent.opened e valid
    rw [addEvent_free found opened (coherent.interest _ found)]
    dsimp only
    constructor
    · intro f
      rw [masked_fd]
      exact coherent.opened f
    · intro f g
      rw [masked_fd,masked_fd]
      exact coherent.owner f g
    · intro fd f entry
      rw [masked_fd]
      dsimp only
      by_cases here : fd = (event e).fd_
      · subst here
        rw [AList.lookup_insert] at entry
        cases entry
        rw [Function.update_self,Function.update_self]
        exact ⟨rfl,valid,rfl,exists_⟩
      · rw [AList.lookup_insert_ne here] at entry
        obtain ⟨at_fd,nonneg,watched,old⟩ := coherent.entry fd f entry
        have other : f ≠ e := by
          rintro rfl
          exact here at_fd.symm
        rw [Function.update_of_ne here,Function.update_of_ne other]
        exact ⟨at_fd,nonneg,watched,old⟩
    · intro fd absent
      have here : fd ≠ (event e).fd_ := by
        rintro rfl
        rw [AList.lookup_insert] at absent
        cases absent
      rw [AList.lookup_insert_ne here] at absent
      dsimp only
      rw [Function.update_of_ne here]
      exact coherent.interest fd absent

theorem Coherent.delEvent (coherent : Coherent event made l) (e : EventPtr) :
    Coherent event made (l.delEvent (event e)) ∧
      (l.delEvent (event e)).events_.lookup (event e).fd_ = none := by
  unfold EventLoop.delEvent
  split
  · next absent => exact ⟨coherent,absent⟩
  · refine ⟨⟨coherent.opened,coherent.owner,?_,?_⟩,AList.lookup_erase _ _⟩
    · intro fd f entry
      have here : fd ≠ (event e).fd_ := by
        rintro rfl
        rw [AList.lookup_erase] at entry
        cases entry
      rw [AList.lookup_erase_ne here] at entry
      dsimp only [Kernel.epollDel]
      rw [Function.update_of_ne here]
      exact coherent.entry fd f entry
    · intro fd absent
      by_cases here : fd = (event e).fd_
      · subst here
        exact Function.update_self ..
      · rw [AList.lookup_erase_ne here] at absent
        dsimp only [Kernel.epollDel]
        rw [Function.update_of_ne here]
        exact coherent.interest fd absent

theorem Coherent.enableEvent (coherent : Coherent event made l) {bits : Mask} {on : Bool} {v : Event}
    {after : EventLoop} (enabled : l.enableEvent bits (event e) on = some (v,after)) :
    Coherent (Function.update event e v) made after := by
  unfold EventLoop.enableEvent at enabled
  split at enabled
  · contradiction
  · next f found =>
    have self := coherent.found found
    subst self
    obtain ⟨_,nonneg,watched,exists_⟩ := coherent.entry _ f found
    simp only [Option.some.injEq,Prod.mk.injEq] at enabled
    obtain ⟨rfl,rfl⟩ := enabled
    simp only [Kernel.epollMod,watched,reduceCtorEq,if_false]
    constructor
    · intro g
      rw [masked_fd]
      exact coherent.opened g
    · intro g h
      rw [masked_fd,masked_fd]
      exact coherent.owner g h
    · intro fd g entry
      rw [masked_fd]
      dsimp only
      obtain ⟨at_fd,positive,seen,old⟩ := coherent.entry fd g entry
      refine ⟨at_fd,positive,?_,old⟩
      by_cases self : g = f
      · subst self
        rw [← at_fd,Function.update_self,Function.update_self]
      · have here : fd ≠ (event f).fd_ := by
          rintro rfl
          exact self (coherent.found entry)
        rw [Function.update_of_ne here,Function.update_of_ne self]
        exact seen
    · intro fd absent
      have here : fd ≠ (event f).fd_ := by
        rintro rfl
        rw [found] at absent
        cases absent
      dsimp only
      rw [Function.update_of_ne here]
      exact coherent.interest fd absent

/-- An object without an entry takes a number that nobody has, or none. -/
theorem Coherent.moved (coherent : Coherent event made l) {v : Event} {more : EventPtr → Bool}
    (absent : ∀ fd, l.events_.lookup fd ≠ some e) (opened : List Int)
    (keeps : ∀ f, f ≠ e → 0 ≤ (event f).fd_ → (event f).fd_ ∈ opened)
    (own : 0 ≤ v.fd_ → v.fd_ ∈ opened ∧ ∀ f, f ≠ e → (event f).fd_ ≠ v.fd_)
    (grows : ∀ f, made f = true → more f = true) :
    Coherent (Function.update event e v) more ⟨l.events_,{ l.kernel with opened := opened }⟩ := by
  constructor
  · intro f nonneg
    by_cases self : f = e
    · subst self
      rw [Function.update_self] at nonneg ⊢
      exact (own nonneg).1
    · rw [Function.update_of_ne self] at nonneg ⊢
      exact keeps f self nonneg
  · intro f g nonneg same
    by_cases left : f = e
    · subst left
      by_cases right : g = f
      · exact right.symm
      · rw [Function.update_self] at nonneg same
        rw [Function.update_of_ne right] at same
        exact absurd same.symm ((own nonneg).2 g right)
    · rw [Function.update_of_ne left] at nonneg same
      by_cases right : g = e
      · subst right
        rw [Function.update_self] at same
        exact absurd same ((own (same ▸ nonneg)).2 f left)
      · rw [Function.update_of_ne right] at same
        exact coherent.owner f g nonneg same
  · intro fd f entry
    have other : f ≠ e := by
      rintro rfl
      exact absent fd entry
    rw [Function.update_of_ne other]
    obtain ⟨at_fd,nonneg,watched,old⟩ := coherent.entry fd f entry
    exact ⟨at_fd,nonneg,watched,grows f old⟩
  · exact coherent.interest

theorem Coherent.closed (coherent : Coherent event made l) {v : Event}
    (unregistered : l.events_.lookup (event e).fd_ = none) (left : v.fd_ = -1) :
    Coherent (Function.update event e v) made ⟨l.events_,l.kernel.close (event e).fd_⟩ := by
  have unwatched : Function.update l.kernel.interest (event e).fd_ none = l.kernel.interest := by
    rw [← coherent.interest _ unregistered,Function.update_eq_self]
  rw [Kernel.close,unwatched]
  refine coherent.moved (coherent.absent unregistered) _ ?_ ?_ fun _ => id
  · intro f other nonneg
    rw [List.mem_filter]
    refine ⟨coherent.opened f nonneg,decide_eq_true ?_⟩
    intro same
    exact other (coherent.owner f e nonneg same)
  · intro nonneg
    omega

/-- The kernel gives an object without an entry a free number. -/
theorem Coherent.given (coherent : Coherent event made l) {v : Event} {more : EventPtr → Bool}
    (absent : ∀ fd, l.events_.lookup fd ≠ some e) (free : v.fd_ ∉ l.kernel.opened)
    (grows : ∀ f, made f = true → more f = true) :
    Coherent (Function.update event e v) more ⟨l.events_,l.kernel.opens v.fd_⟩ := by
  refine coherent.moved absent _ ?_ ?_ grows
  · intro f _ nonneg
    exact List.mem_cons_of_mem _ (coherent.opened f nonneg)
  · intro nonneg
    constructor
    · exact List.mem_cons_self
    intro f _ same
    rw [← same] at nonneg free
    exact free (coherent.opened f nonneg)

/-- `AddEvent` of an object on a freshly opened descriptor registers it. -/
theorem Coherent.registers (coherent : Coherent event made l) (e : EventPtr) (mask : Mask) :
    let fd := Kernel.lowestUnused l.kernel.opened
    let added := EventLoop.addEvent e ⟨fd,mask⟩ ⟨l.events_,l.kernel.opens fd⟩
    added.2.events_.lookup fd = some e ∧ added.1.fd_ = fd ∧
      added.2.kernel.interest fd = some added.1.event_ := by
  intro fd added
  have free : l.events_.lookup (Event.mk fd mask).fd_ = none :=
    coherent.unused (Kernel.lowestUnused_spec l.kernel.opened).2.1
  have effective : added = _ := addEvent_free free List.mem_cons_self (coherent.interest fd free)
  rw [effective]
  exact ⟨AList.lookup_insert _,rfl,Function.update_self ..⟩

end Table

section State
variable (s : World) (e : EventPtr)

@[simp] theorem setEvent_event (v : Event) : (s.setEvent e v).event = Function.update s.event e v := by
  funext f
  cases e with
  | acceptor n =>
    cases f with
    | acceptor m =>
      by_cases same : m = n
      · subst same
        simp [World.event,World.setEvent]
      · simp [World.event,World.setEvent,same]
    | connection m => simp [World.event,World.setEvent]
  | connection n =>
    cases f with
    | acceptor m => simp [World.event,World.setEvent]
    | connection m =>
      by_cases same : m = n
      · subst same
        simp [World.event,World.setEvent]
      · simp [World.event,World.setEvent,same]

@[simp] theorem setEvent_acceptor (n : Nat) (v : Event) :
    (s.setEvent (.acceptor n) v).acceptors n = v := Function.update_self ..

@[simp] theorem setEvent_loop (v : Event) : (s.setEvent e v).loop = s.loop := by
  cases e <;> rfl

@[simp] theorem setEvent_made (v : Event) : (s.setEvent e v).made = s.made := by
  cases e <;> rfl

theorem noted_event (fd : Int) : (s.noted fd).event = s.event := by
  unfold World.noted
  split <;> rfl

theorem noted_made (fd : Int) : (s.noted fd).made = s.made := by
  unfold World.noted
  split <;> rfl

theorem addEvent_event :
    (s.addEvent e).event = Function.update s.event e (s.loop.addEvent e (s.event e)).1 :=
  (setEvent_event _ e _).trans (by rw [noted_event])

theorem addEvent_made : (s.addEvent e).made = s.made :=
  (setEvent_made _ e _).trans (noted_made s _)

theorem connections_event (n made : Nat) (c : TcpConnection) :
    World.event { s with connections := Function.update s.connections n c, made := made } =
      Function.update s.event (.connection n) ⟨c.fd_,c.event_⟩ := by
  funext f
  cases f with
  | acceptor m => simp [World.event]
  | connection m =>
    by_cases same : m = n
    · subst same
      simp [World.event]
    · simp [World.event,same]

theorem update_event (n : Nat) (f : TcpConnection → TcpConnection) :
    (s.update n f).event = Function.update s.event (.connection n)
      ⟨(f (s.connections n)).fd_,(f (s.connections n)).event_⟩ :=
  connections_event s n s.made _

theorem constructed_congr {after : World} (made : after.made = s.made) :
    after.constructed = s.constructed := by
  funext f
  cases f with
  | acceptor n => rfl
  | connection n => simp only [World.constructed,made]

theorem constructed_mono (after : World) (grows : s.made ≤ after.made) (f : EventPtr)
    (old : s.constructed f = true) : after.constructed f = true := by
  cases f with
  | acceptor n => rfl
  | connection n =>
    simp only [World.constructed,decide_eq_true_eq] at old ⊢
    omega

def Table (s : World) : Prop := Coherent s.event s.constructed s.loop

variable {s} {e}

theorem table_of {after : World} {event : EventPtr → Event} {made : EventPtr → Bool} {l : EventLoop}
    (coherent : Coherent event made l) (events : after.event = event)
    (constructed : after.constructed = made) (loop : after.loop = l) : Table after := by
  unfold Table
  rw [events,constructed,loop]
  exact coherent

theorem Table.addEvent (table : Table s) (exists_ : s.constructed e = true) (valid : 0 ≤ (s.event e).fd_) :
    Table (s.addEvent e) :=
  table_of (Coherent.addEvent table exists_ valid) (addEvent_event s e)
    (constructed_congr s (addEvent_made s e)) rfl

theorem Table.delEvent (table : Table s) (e : EventPtr) :
    Table (s.delEvent e) ∧ (s.delEvent e).loop.events_.lookup (s.event e).fd_ = none := by
  obtain ⟨coherent,absent⟩ := Coherent.delEvent table e
  exact ⟨table_of coherent rfl rfl rfl,absent⟩

theorem Table.enableEvent (table : Table s) (bits : Mask) (e : EventPtr) (on : Bool) :
    Table (s.enableEvent bits e on) := by
  unfold World.enableEvent
  split
  · exact table
  · next v loop enabled =>
    exact table_of (Coherent.enableEvent table enabled) (setEvent_event s e v)
      (constructed_congr s (setEvent_made s e v)) rfl

theorem Table.closed (table : Table s) {after : World}
    (unregistered : s.loop.events_.lookup (s.event e).fd_ = none) (mask : Mask)
    (event : after.event = Function.update s.event e ⟨-1,mask⟩)
    (loop : after.loop = ⟨s.loop.events_,s.loop.kernel.close (s.event e).fd_⟩)
    (made : after.made = s.made) : Table after :=
  table_of (Coherent.closed table unregistered rfl) event (constructed_congr s made) loop

end State

/-- The same as `anyUse`, where nothing closes a number that still has an entry, an acceptor
is started without an entry, and only objects with a descriptor are added. -/
def unregistering : Environment World Query Result Callback Method where
  admits := fun ctx s q a =>
    anyUse.admits ctx s q a &&
      match q with
      | .io (.close fd) => (s.loop.events_.lookup fd).isNone
      | _ => true
  enters := fun ctx s m =>
    anyUse.enters ctx s m &&
      match m with
      | .start n => (s.loop.events_.lookup (s.acceptors n).fd_).isNone
      | .addEvent event => decide (0 ≤ (s.event event).fd_)
      | _ => true

def tableContract : Contract World Query Callback Method where
  inv := fun _ s => Table s
  rely := fun _ _ _ => True
  pre := fun _ m s => Table s ∧
    match m with
    | .start n => s.loop.events_.lookup (s.acceptors n).fd_ = none
    | .addEvent event => s.constructed event = true ∧ 0 ≤ (s.event event).fd_
    | _ => True
  post := fun _ _ _ after => Table after
  asks := fun _ _ _ => True
  mayFault := True

section Bodies
variable (ctx : List Callback) (s : World)

theorem closeAcceptor_table (n : Nat) (table : Table s) :
    wp system unregistering tableContract ctx (closeAcceptor n) (fun _ after => Table after ∧
      (s.loop.events_.lookup (s.acceptors n).fd_ = none →
        after.loop.events_.lookup (after.acceptors n).fd_ = none)) s := by
  simp only [closeAcceptor,wp_bind,wp_read,wp_pure,wp_ite,wp_query,wp_modify]
  refine ⟨fun _ => ⟨trivial,fun a admitted => ⟨?_,fun _ => ?_⟩⟩,fun _ => ⟨table,id⟩⟩
  · have unregistered : s.loop.events_.lookup (s.acceptors n).fd_ = none := by
      simpa [unregistering,anyUse] using admitted
    exact table.closed (e := .acceptor n) unregistered _ (setEvent_event _ _ _) (setEvent_loop _ _ _)
      (setEvent_made _ _ _)
  · have absent : s.loop.events_.lookup (-1) = none := Coherent.negative table (by omega)
    rw [setEvent_acceptor]
    exact absent

/-- The number that a kernel call returns is not in use. -/
theorem unused_descriptor {q : Query} {a : Result} (descriptor : q = .socket ∨ q = .accept)
    (admitted : unregistering.admits ctx s q a = true) (valid : 0 ≤ a.ret) :
    a.ret ∉ s.loop.kernel.opened := by
  have lowest : a.ret = Kernel.lowestUnused s.loop.kernel.opened := by
    rcases descriptor with rfl | rfl
    · simp only [unregistering,anyUse,Bool.and_true,Bool.or_eq_true,beq_iff_eq,decide_eq_true_eq] at admitted
      omega
    · simp only [unregistering,anyUse,Bool.and_true,Bool.or_eq_true,beq_iff_eq,decide_eq_true_eq] at admitted
      omega
  rw [lowest]
  exact (Kernel.lowestUnused_spec _).2.1

theorem openAcceptor_table (n : Nat) (table : Table s)
    (unregistered : s.loop.events_.lookup (s.acceptors n).fd_ = none) :
    wp system unregistering tableContract ctx (openAcceptor n) (fun _ after => Table after) s := by
  rw [openAcceptor,wp_bind]
  apply wp_mono (closeAcceptor_table ctx s n table)
  rintro _ closed ⟨still,keeps⟩
  have absent := keeps unregistered
  simp only [wp_bind,wp_query,wp_modify,wp_ite,wp_fault]
  refine ⟨trivial,fun a admitted => ⟨fun _ => trivial,fun valid => ?_⟩⟩
  have nonneg : 0 ≤ a.ret := by omega
  have free := unused_descriptor ctx closed (Or.inl rfl) admitted nonneg
  have answer : system.answered .socket a closed = closed.onKernel (.opens a.ret) := if_pos nonneg
  rw [answer]
  apply Table.addEvent
  · exact table_of (Coherent.given still (Coherent.absent (e := .acceptor n) still absent) free fun _ => id)
      (setEvent_event _ _ _) (constructed_congr _ (setEvent_made _ _ _)) (setEvent_loop _ _ _)
  · rfl
  · rw [setEvent_event,Function.update_self]
    exact nonneg

theorem accept_table (close_cb_ message_cb_ write_complete_cb_ : Bool) (table : Table s) :
    wp system unregistering tableContract ctx (accept close_cb_ message_cb_ write_complete_cb_)
      (fun _ after => Table after) s := by
  simp only [accept,wp_bind,wp_query,wp_modify,wp_ite,wp_pure]
  refine ⟨trivial,fun a admitted => ⟨fun nonneg => ?_,fun negative => ?_⟩⟩
  · have free := unused_descriptor ctx s (Or.inr rfl) admitted nonneg
    have answer : system.answered .accept a s = s.onKernel (.opens a.ret) := if_pos nonneg
    rw [answer]
    have absent : ∀ fd, s.loop.events_.lookup fd ≠ some (.connection s.made) := by
      intro fd found
      have old := (table.entry fd _ found).2.2.2
      simp [World.constructed] at old
    have grows := constructed_mono s { s with made := s.made + 1 } (Nat.le_succ _)
    exact table_of (Coherent.given table absent free grows) (connections_event _ _ _ _) rfl rfl
  · have answer : system.answered .accept a s = s := if_neg negative
    rw [answer]
    exact table

theorem update_kept (n : Nat) (f : TcpConnection → TcpConnection)
    (same : ∀ c, (f c).fd_ = c.fd_ ∧ (f c).event_ = c.event_) :
    Kept system unregistering tableContract ctx Table ((host n).update f) fun _ => True := by
  intro s table
  refine ⟨trivial,table_of table ?_ rfl rfl⟩
  rw [update_event,(same _).1,(same _).2]
  exact Function.update_eq_self _ _

theorem invoke_table (c : Callback) :
    Kept system unregistering tableContract ctx Table (Prog.invoke c) fun _ => True := by
  intro s table
  refine ⟨?_,fun after _ inv => ⟨trivial,inv⟩⟩
  cases c with
  | _ => exact table

theorem run_table (n : Nat) (m : TcpConnection.Method) :
    Kept system unregistering tableContract ctx Table (Prog.run (.connection n m)) fun _ => True :=
  fun _ table => ⟨⟨table,trivial⟩,fun _ done => ⟨trivial,done⟩⟩

theorem close_table (n : Nat) :
    Kept system unregistering tableContract ctx Table (TcpConnection.close (host n)) fun _ => True := by
  intro s table
  simp only [TcpConnection.close,host,wp_bind,wp_read,wp_pure,wp_ite,wp_query,wp_modify]
  refine ⟨fun _ => ⟨trivial,fun a admitted => ⟨trivial,?_⟩⟩,fun _ => ⟨trivial,table⟩⟩
  have unregistered : s.loop.events_.lookup (s.connections n).fd_ = none := by
    simpa [unregistering,anyUse] using admitted
  exact table.closed (e := .connection n) unregistered _ (update_event _ _ _) rfl rfl

theorem host_keeps_table (n : Nat) :
    (host n).Keeps system unregistering tableContract ctx Table fun _ => True where
  self := fun _ table => ⟨trivial,table⟩
  update := fun f plain => update_kept ctx n f fun c => ⟨(plain c).1,(plain c).2.2.1⟩
  messageCallback := invoke_table ctx _
  writeCompleteCallback := invoke_table ctx _
  write := fun _ _ _ _ table => ⟨trivial,fun _ _ => ⟨trivial,table⟩⟩
  writev := by
    intro fd vec s table
    refine ⟨trivial,fun a admitted => ⟨⟨?_,fun _ => trivial⟩,table⟩⟩
    simpa [unregistering,anyUse] using admitted
  readFd := fun _ _ table => ⟨trivial,fun _ _ => ⟨fun _ => trivial,table⟩⟩
  enableWriting := fun on _ table => ⟨trivial,table.enableEvent kEventWrite _ on⟩
  onClose := fun s holds => run_table ctx n .onClose s holds.2
  readLoop := run_table ctx n .readLoop
  writeLoop := run_table ctx n .writeLoop

theorem onClose_table (n : Nat) :
    Kept system unregistering tableContract ctx Table (TcpConnection.onClose (host n)) fun _ => True :=
  TcpConnection.onClose_kept (host_keeps_table ctx n).self (invoke_table ctx _)
    (update_kept ctx n _ fun _ => ⟨rfl,rfl⟩) (close_table ctx n)

/-- The handlers a batch calls are user code, whatever the batch. -/
theorem walk_table (batch : List EpollEvent) :
    Kept system unregistering tableContract ctx Table (walk batch) fun _ => True := by
  induction batch with
  | nil => exact Kept.pure trivial
  | cons ev batch ih =>
    have delivers : Kept system unregistering tableContract ctx Table
        (deliver ev (batch.map EpollEvent.fd)) fun _ => True := by
      intro s table
      simp only [deliver,wp_bind,wp_read,wp_ite,wp_pure]
      refine ⟨fun _ => ?_,fun _ => ⟨trivial,table⟩⟩
      cases ev.handler with
      | none => exact ⟨trivial,table⟩
      | some handler => exact invoke_table ctx _ s table
    exact Kept.bind delivers fun _ _ => ih

theorem body_table (m : Method) (pre : tableContract.pre ctx m s) :
    wp system unregistering tableContract ctx (body m) (fun _ after => Table after) (began m s) := by
  obtain ⟨table,ready⟩ := pre
  cases m with
  | start n => exact openAcceptor_table ctx s n table ready
  | stop n => exact (table.delEvent (.acceptor n)).1
  | acceptorOnClose n =>
    obtain ⟨after,absent⟩ := table.delEvent (.acceptor n)
    exact openAcceptor_table ctx _ n after absent
  | accept close_cb_ message_cb_ write_complete_cb_ => exact accept_table ctx s _ _ _ table
  | addEvent event => exact table.addEvent ready.1 ready.2
  | delEvent event => exact (table.delEvent event).1
  | enableReading event enable => exact table.enableEvent _ event enable
  | enableWriting event enable => exact table.enableEvent _ event enable
  | close event =>
    cases event with
    | acceptor n => exact wp_mono (closeAcceptor_table ctx s n table) fun _ _ closed => closed.1
    | connection n => exact (close_table ctx n).wp s table
  | connection n m =>
    by_cases itself : m = .onClose
    · subst itself
      exact (onClose_table ctx n).wp s table
    · exact TcpConnection.body_kept (host_keeps_table ctx n) m itself s table fun _ => trivial
  | dispatch batch => exact (walk_table ctx batch).wp _ table

end Bodies

theorem table_sound : tableContract.Sound system unregistering where
  rely_refl := fun _ _ => trivial
  rely_trans := fun _ _ _ _ _ _ => trivial
  body := fun ctx m s pre => body_table ctx s m pre
  enter := by
    intro ctx m s table allowed
    constructor
    · exact table
    cases m with
    | start n => simpa [unregistering,anyUse] using allowed
    | addEvent event => simpa [unregistering,anyUse] using allowed
    | _ => trivial
  leave := fun _ _ _ _ _ _ done => ⟨done,trivial⟩

theorem fresh_table (s : World) (fresh : Fresh s) : Table s := by
  have closed : ∀ e, (s.event e).fd_ = -1 := by
    intro e
    cases e with
    | acceptor n => exact fresh.acceptors n
    | connection n => exact fresh.connections n
  constructor
  · intro e nonneg
    rw [closed e] at nonneg
    omega
  · intro e f nonneg
    rw [closed e] at nonneg
    omega
  · intro fd e entry
    rw [fresh.events_,AList.lookup_empty] at entry
    cases entry
  · intro fd _
    rw [fresh.interest]

/-- In every run in which no number is closed, and no acceptor started, while it has an entry,
and `AddEvent` gets objects with a descriptor: each entry's object holds the entry's number,
open and watched with the object's mask; and `AddEvent` on a freshly opened descriptor
registers. -/
theorem registrations_coherent (s : World) (c : Config World Query Result Callback Method)
    (fresh : Fresh s) (reached : system.Reachable unregistering s c) (controlled : c.controlled) :
    (∀ fd e, c.state.loop.events_.lookup fd = some e →
      (c.state.event e).fd_ = fd ∧ fd ∈ c.state.loop.kernel.opened ∧
        c.state.loop.kernel.interest fd = some (c.state.event e).event_) ∧
    ∀ e mask, let fd := Kernel.lowestUnused c.state.loop.kernel.opened
      let added := EventLoop.addEvent e ⟨fd,mask⟩
        ⟨c.state.loop.events_,c.state.loop.kernel.opens fd⟩
      added.2.events_.lookup fd = some e ∧ added.1.fd_ = fd ∧
        added.2.kernel.interest fd = some added.1.event_ := by
  have table : Table c.state := reachable_invariant table_sound s c (fresh_table s fresh) reached controlled
  refine ⟨?_,fun e mask => Coherent.registers table e mask⟩
  intro fd e found
  obtain ⟨same,nonneg,watched,_⟩ := table.entry fd e found
  have opened := table.opened e (same ▸ nonneg)
  rw [same] at opened
  exact ⟨same,opened,watched⟩

def recycled : List (Move World Query Result Callback Method) :=
  [.enter (.start 0),.answer ⟨4,0,[]⟩,.enter (.accept true true true),.answer ⟨5,0,[]⟩,
    .enter (.addEvent (.connection 0)),.enter (.connection 0 .onClose),
    .enter (.delEvent (.connection 0)),.leave,.answer ⟨0,0,[]⟩,
    .enter (.accept true true true),.answer ⟨5,0,[]⟩,.enter (.addEvent (.connection 1))]

theorem registrations_coherent_recycled :
    ∃ c : Config World Query Result Callback Method,
      c.state.loop.events_.lookup 5 = some (.connection 1) ∧
      ∀ fd e, c.state.loop.events_.lookup fd = some e →
        (c.state.event e).fd_ = fd ∧ fd ∈ c.state.loop.kernel.opened ∧
          c.state.loop.kernel.interest fd = some (c.state.event e).event_ := by
  have reached := system.play_reachable unregistering 40 recycled start _ rfl
  exact ⟨_,rfl,(registrations_coherent start _ start_fresh reached trivial).1⟩

/-- `Start` called twice: the second `Open` closes the descriptor, gets its number again, and
`AddEvent` finds the old entry under it, so epoll does not watch the new socket. -/
theorem registration_lost :
    ∃ c, system.Reachable anyUse start c ∧ c.controlled ∧
      c.state.loop.events_.lookup 4 = some (.acceptor 0) ∧ (c.state.event (.acceptor 0)).fd_ = 4 ∧
      4 ∈ c.state.loop.kernel.opened ∧ c.state.loop.kernel.interest 4 = none ∧
      c.state.loop.kernel.interest 4 ≠ some (c.state.event (.acceptor 0)).event_ := by
  have reached := system.play_reachable anyUse 40 [.enter (.start 0),.answer ⟨4,0,[]⟩,
    .enter (.start 0),.answer ⟨0,0,[]⟩,.answer ⟨4,0,[]⟩] start _ rfl
  exact ⟨_,reached,trivial,rfl,rfl,by decide,rfl,by decide⟩

end Tmms.Network.EventLoop
