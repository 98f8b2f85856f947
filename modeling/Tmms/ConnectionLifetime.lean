import Tmms.TcpServer

/-! Whether a connection outlives its own close. The close callback takes the connection out of
both containers, and the pointer made for that call is gone before `closed_` is set; so the
connection survives if and only if a running call outside `OnClose` holds one more. -/
namespace Tmms.Network.TcpServer

open Reentrant

/-- The same as `anyServer`, where whatever closes an open connection does so inside a call
that holds a shared pointer to it. -/
def held : Environment World Query Result Callback Method where
  admits := fun ctx s q a =>
    anyServer.admits ctx s q a && (!TcpConnection.ends q.call a ||
      ((s.connections q.connection).closed_ || decide (0 < s.temporaries q.connection)))
  enters := fun ctx s m =>
    anyServer.enters ctx s m &&
      match m with
      | .connection c m =>
        !TcpConnection.closes m || ((s.connections c).closed_ || decide (0 < s.temporaries c))
      | _ => true

/-- A connection leaves `connections_` only to be closed, and a connection whose close is
under way is held. -/
structure Safe (ctx : List Callback) (s : World) : Prop where
  listed : ∀ c, c < s.made → s.connections_ c = false →
    (s.connections c).closed_ = true ∨ .destoryConnection c ∈ ctx
  held : ∀ c, .destoryConnection c ∈ ctx → c < s.made ∧ 0 < s.temporaries c
  registered : ∀ fd c, s.loop.events_.lookup fd = some (.connection c) → c < s.made

structure Since (s after : World) : Prop where
  made : s.made ≤ after.made
  temporaries : ∀ c, c < s.made → after.temporaries c = s.temporaries c

structure Still (s after : World) : Prop where
  made : after.made = s.made
  temporaries : after.temporaries = s.temporaries
  connections_ : after.connections_ = s.connections_
  events_ : after.loop.events_ = s.loop.events_
  closed_ : ∀ c, (after.connections c).closed_ = (s.connections c).closed_

section State
variable {ctx : List Callback} {s after last : World} {c : Nat}

theorem Since.refl : Since s s := ⟨Nat.le_refl _,fun _ _ => rfl⟩

theorem Since.trans (first : Since s after) (second : Since after last) : Since s last :=
  ⟨Nat.le_trans first.made second.made,fun c made =>
    (second.temporaries c (Nat.lt_of_lt_of_le made first.made)).trans (first.temporaries c made)⟩

theorem Still.since (still : Still s after) : Since s after :=
  ⟨Nat.le_of_eq still.made.symm,fun c _ => by rw [still.temporaries]⟩

theorem Still.trans (first : Still s after) (second : Still after last) : Still s last :=
  ⟨second.made.trans first.made,second.temporaries.trans first.temporaries,
    second.connections_.trans first.connections_,second.events_.trans first.events_,
    fun c => (second.closed_ c).trans (first.closed_ c)⟩

theorem Safe.still (safe : Safe ctx s) (still : Still s after) : Safe ctx after := by
  constructor
  · intro c
    rw [still.made,still.connections_,still.closed_]
    exact safe.listed c
  · intro c
    rw [still.made,still.temporaries]
    exact safe.held c
  · intro fd c
    rw [still.made,still.events_]
    exact safe.registered fd c

/-- Nobody owns it: it has been closed. -/
theorem Safe.closed (safe : Safe ctx s) (made : c < s.made) (unowned : s.owned c = false) :
    (s.connections c).closed_ = true := by
  simp only [World.owned,Bool.or_eq_false_iff,decide_eq_false_iff_not] at unowned
  rcases safe.listed c made unowned.1.1 with closed | closing
  · exact closed
  · exact absurd (safe.held c closing).2 unowned.1.2

theorem Safe.closing (safe : Safe ctx s) (made : c < s.made) (holds : 0 < s.temporaries c) :
    Safe (.destoryConnection c :: ctx) s := by
  refine ⟨?_,?_,safe.registered⟩
  · intro d old unlisted
    exact (safe.listed d old unlisted).imp_right (List.mem_cons_of_mem _)
  · intro d inside
    rcases List.mem_cons.mp inside with same | before
    · cases same
      exact ⟨made,holds⟩
    · exact safe.held d before

theorem Safe.settled (safe : Safe (.destoryConnection c :: ctx) s)
    (closed : (s.connections c).closed_ = true) : Safe ctx s := by
  refine ⟨?_,fun d inside => safe.held d (List.mem_cons_of_mem _ inside),safe.registered⟩
  intro d made unlisted
  rcases safe.listed d made unlisted with done | inside
  · exact Or.inl done
  · rcases List.mem_cons.mp inside with same | before
    · cases same
      exact Or.inl closed
    · exact Or.inr before

/-- Callbacks other than the one of a close promise nothing of their own. -/
theorem safe_cons (cb : Callback) (other : ∀ c, cb ≠ .destoryConnection c) :
    Safe (cb :: ctx) s ↔ Safe ctx s := by
  have same : ∀ c, .destoryConnection c ∈ cb :: ctx ↔ .destoryConnection c ∈ ctx := by
    intro c
    simp [Ne.symm (other c)]
  constructor
  · exact fun safe => ⟨fun c made unlisted => (safe.listed c made unlisted).imp_right (same c).mp,
      fun c inside => safe.held c ((same c).mpr inside),safe.registered⟩
  · exact fun safe => ⟨fun c made unlisted => (safe.listed c made unlisted).imp_right (same c).mpr,
      fun c inside => safe.held c ((same c).mp inside),safe.registered⟩

/-- More pointers do no harm, and as many as a close needs are enough. -/
theorem Safe.temporaries (safe : Safe ctx s) (count : Nat)
    (enough : .destoryConnection c ∈ ctx → 0 < count) : Safe ctx (s.setTemporaries c count) := by
  refine ⟨safe.listed,?_,safe.registered⟩
  intro d inside
  constructor
  · exact (safe.held d inside).1
  by_cases same : d = c
  · subst same
    simpa [World.setTemporaries] using enough inside
  · simpa [World.setTemporaries,same] using (safe.held d inside).2

theorem owned_of_temporaries (holds : 0 < s.temporaries c) : s.owned c = true := by
  simp [World.owned,holds]

/-- Taking a pointer, some user code, and giving the pointer back. -/
theorem Since.returned (since : Since (s.setTemporaries c (s.temporaries c + 1)) after)
    (made : c < s.made) : Since s (after.setTemporaries c (after.temporaries c - 1)) := by
  constructor
  · exact since.made
  intro d old
  by_cases same : d = c
  · subst same
    have taken := since.temporaries d made
    simp only [World.setTemporaries,Function.update_self] at taken ⊢
    omega
  · have kept := since.temporaries d old
    simpa [World.setTemporaries,same] using kept

end State

def lifetimeContract : Contract World Query Callback Method where
  inv := Safe
  rely := fun _ => Since
  pre := fun ctx m s =>
    match m with
    | .onAccept _ => Safe ctx s
    | .connection c m => Safe ctx s ∧ c < s.made ∧ (TcpConnection.closes m = true →
        (s.connections c).closed_ = true ∨ 0 < s.temporaries c)
    | .expire c => Safe ctx s ∧ c < s.made
    | .destructor c => (s.connections c).closed_ = true
  post := fun ctx m s after =>
    match m with
    | .destructor _ => Still s after
    | _ => Safe ctx after ∧ Since s after
  asks := fun _ _ _ => True
  mayFault := True

section Bodies
variable (ctx : List Callback) (c : Nat) (s : World)

/-- Destruction of a closed connection changes nothing for the others. -/
theorem dropped_still (closed : s.owned c = false → (s.connections c).closed_ = true)
    (goal : Unit → World → Prop) (holds : ∀ after, Still s after → goal () after) :
    wp system held lifetimeContract ctx (dropped c) goal s := by
  simp only [dropped,wp_bind,wp_read,wp_ite,wp_run,wp_pure]
  exact ⟨fun unowned => ⟨closed unowned,holds⟩,fun _ => holds s ⟨rfl,rfl,rfl,rfl,fun _ => rfl⟩⟩

theorem dropped_owned (owned : s.owned c = true) (goal : Unit → World → Prop) (holds : goal () s) :
    wp system held lifetimeContract ctx (dropped c) goal s := by
  simp only [dropped,wp_bind,wp_read,wp_ite,wp_run,wp_pure,owned]
  exact ⟨fun unowned => (by cases unowned),fun _ => holds⟩

theorem release_safe (after : World) (safe : Safe ctx s) (made : c < s.made) (later : Safe ctx after)
    (since : Since (s.setTemporaries c (s.temporaries c + 1)) after) :
    wp system held lifetimeContract ctx (release c)
      (fun _ last => Safe ctx last ∧ Since s last) after := by
  simp only [release,wp_bind,wp_modify]
  have returned := since.returned made
  have settled : Safe ctx (after.setTemporaries c (after.temporaries c - 1)) := by
    apply later.temporaries
    intro inside
    have same := returned.temporaries c made
    simp only [World.setTemporaries,Function.update_self] at same
    rw [same]
    exact (safe.held c inside).2
  apply dropped_still
  · exact settled.closed (Nat.lt_of_lt_of_le made returned.made)
  · intro last still
    exact ⟨settled.still still,returned.trans still.since⟩

theorem invoke_safe (start : World) (cb : Callback) (other : ∀ c, cb ≠ .destoryConnection c) :
    Kept system held lifetimeContract ctx (fun s => Safe ctx s ∧ c < s.made ∧ Since start s)
      (do acquire c; Prog.invoke cb; release c) fun _ => True := by
  rintro s ⟨safe,made,since⟩
  simp only [acquire,wp_bind,wp_read,wp_ite,wp_modify,wp_fault,wp_invoke]
  refine ⟨fun owned => ⟨?_,fun after kept later => ?_⟩,fun _ => trivial⟩
  · exact (safe_cons cb other).mpr (safe.temporaries _ fun _ => Nat.succ_pos _)
  · apply wp_mono (release_safe ctx c s after safe made ((safe_cons cb other).mp later) kept)
    rintro _ last ⟨settled,returned⟩
    exact ⟨trivial,settled,Nat.lt_of_lt_of_le made returned.made,since.trans returned⟩

theorem update_still (f : TcpConnection → TcpConnection) (same : ∀ this, (f this).closed_ = this.closed_) :
    Still s (s.update c f) := by
  refine ⟨rfl,rfl,rfl,rfl,fun d => ?_⟩
  by_cases here : d = c
  · subst here
    simp only [World.update,Function.update_self,same]
  · simp only [World.update,Function.update_of_ne here]

theorem answered_still (q : Query) (a : Result) : Still s (system.answered q a s) := by
  obtain ⟨d,call⟩ := q
  cases call with
  | _ => exact ⟨rfl,rfl,rfl,rfl,fun _ => rfl⟩

theorem enableWriting_still (on : Bool) : Still s (s.enableWriting c on) := by
  unfold World.enableWriting
  split
  · exact ⟨rfl,rfl,rfl,rfl,fun _ => rfl⟩
  · next e loop enabled =>
    have masked := update_still c s (fun this => { this with event_ := e.event_ }) fun _ => rfl
    refine ⟨rfl,rfl,rfl,?_,masked.closed_⟩
    unfold EventLoop.enableEvent at enabled
    split at enabled
    · contradiction
    · cases enabled
      rfl

/-- A closed connection may be closed again, an open one only while it is held. -/
def MayClose (c : Nat) (s : World) : Prop := (s.connections c).closed_ = true ∨ 0 < s.temporaries c

theorem held_ends {q : TcpConnection.Query} {a : Result} (admitted : held.admits ctx s ⟨c,q⟩ a = true)
    (ends : TcpConnection.ends q a = true) : MayClose c (system.answered ⟨c,q⟩ a s) := by
  have allowed := (Bool.and_eq_true_iff.mp admitted).2
  simp only [ends,Bool.not_true,Bool.false_or,Bool.or_eq_true,decide_eq_true_eq] at allowed
  have still := answered_still s ⟨c,q⟩ a
  rw [MayClose,still.closed_,still.temporaries]
  exact allowed

section Handlers
variable (start : World)

def During (s : World) : Prop := Safe ctx s ∧ c < s.made ∧ Since start s

theorem During.still {ctx : List Callback} {c : Nat} {s start after : World}
    (during : During ctx c start s) (still : Still s after) : During ctx c start after :=
  ⟨during.1.still still,by rw [still.made]; exact during.2.1,during.2.2.trans still.since⟩

theorem run_safe (m : TcpConnection.Method) :
    Triple system held lifetimeContract ctx
      (fun s => (TcpConnection.closes m = true → MayClose c s) ∧ During ctx c start s)
      (Prog.run (.connection c m)) fun _ after => True ∧ During ctx c start after := by
  rintro s ⟨closing,safe,made,since⟩
  constructor
  · exact ⟨safe,made,closing⟩
  rintro after ⟨later,kept⟩
  exact ⟨trivial,later,Nat.lt_of_lt_of_le made kept.made,since.trans kept⟩

theorem host_keeps_safe :
    (host c).Keeps system held lifetimeContract ctx (During ctx c start) (MayClose c) where
  self := by
    intro s during
    simp only [host,wp_bind,wp_read,wp_ite,wp_fault,wp_pure]
    exact ⟨fun _ => trivial,fun _ => ⟨trivial,during⟩⟩
  update := fun f plain s during => ⟨trivial,during.still (update_still c s f fun this => (plain this).2.1)⟩
  messageCallback := invoke_safe ctx c start _ fun _ => by simp
  writeCompleteCallback := invoke_safe ctx c start _ fun _ => by simp
  write := fun _ _ _ s during => ⟨trivial,fun a _ => ⟨trivial,during.still (answered_still s _ a)⟩⟩
  writev := by
    intro fd vec s during
    refine ⟨trivial,fun a admitted => ⟨⟨?_,fun failed => ?_⟩,during.still (answered_still s _ a)⟩⟩
    · have bound := (Bool.and_eq_true_iff.mp admitted).1
      simpa [anyServer] using bound
    · exact held_ends ctx c s admitted (failed.ends fd vec)
  readFd := by
    intro fd s during
    refine ⟨trivial,fun a admitted => ⟨fun ended => ?_,during.still (answered_still s _ a)⟩⟩
    exact held_ends ctx c s admitted (ended.ends fd)
  enableWriting := fun on s during => ⟨trivial,during.still (enableWriting_still c s on)⟩
  onClose := fun s holds => run_safe ctx c start .onClose s ⟨fun _ => holds.1,holds.2⟩
  readLoop := fun s during => run_safe ctx c start .readLoop s ⟨fun closing => (by cases closing),during⟩
  writeLoop := fun s during => run_safe ctx c start .writeLoop s ⟨fun closing => (by cases closing),during⟩

end Handlers

/-- `OnConnectionClose`, while its connection is held. -/
theorem onConnectionClose_safe (safe : Safe (.destoryConnection c :: ctx) s) :
    wp system held lifetimeContract ctx (onConnectionClose c)
      (fun _ after => Safe (.destoryConnection c :: ctx) after ∧ Since s after) s := by
  have erased : wp system held lifetimeContract ctx (eraseConnection c)
      (fun _ after => Safe (.destoryConnection c :: ctx) after ∧ Since s after) s := by
    simp only [eraseConnection,wp_bind,wp_read,wp_ite,wp_modify,wp_pure]
    refine ⟨fun _ => ?_,fun _ => ⟨safe,Since.refl⟩⟩
    apply dropped_owned
    · exact owned_of_temporaries (safe.held c List.mem_cons_self).2
    refine ⟨⟨?_,safe.held,safe.registered⟩,Nat.le_refl _,fun _ _ => rfl⟩
    intro d made unlisted
    by_cases same : d = c
    · subst same
      exact Or.inr List.mem_cons_self
    · dsimp only at unlisted
      rw [Function.update_of_ne same] at unlisted
      exact safe.listed d made unlisted
  have unregistered : ∀ before, Safe (.destoryConnection c :: ctx) before ∧ Since s before →
      wp system held lifetimeContract ctx (delEvent c)
        (fun _ after => Safe (.destoryConnection c :: ctx) after ∧ Since s after) before := by
    rintro before ⟨still,since⟩
    simp only [delEvent,wp_bind,wp_read,wp_modify]
    have removed : Safe (.destoryConnection c :: ctx)
        { before with loop := before.loop.delEvent (before.event c) } := by
      refine ⟨still.listed,still.held,?_⟩
      intro fd d
      simp only [EventLoop.delEvent]
      split
      · exact still.registered fd d
      · by_cases here : fd = (before.event c).fd_
        · subst here
          rw [AList.lookup_erase]
          intro none
          cases none
        · rw [AList.lookup_erase_ne here]
          exact still.registered fd d
    have moved : Since s { before with loop := before.loop.delEvent (before.event c) } :=
      ⟨since.made,since.temporaries⟩
    cases found : before.loop.events_.lookup (before.event c).fd_ with
    | none => exact ⟨removed,moved⟩
    | some owner =>
      cases owner with
      | acceptor n => exact ⟨removed,moved⟩
      | connection d =>
        apply dropped_still
        · exact removed.closed (still.registered _ d found)
        · exact fun after same => ⟨removed.still same,moved.trans same.since⟩
  rw [onConnectionClose,wp_bind]
  apply wp_mono erased
  intro _ before holds
  rw [wp_bind]
  apply wp_mono (unregistered before holds)
  rintro _ last ⟨settled,since⟩
  simp only [wp_bind,wp_read,wp_ite,wp_invoke,wp_pure]
  exact ⟨fun _ => ⟨settled,fun after kept later => ⟨later,since.trans kept⟩⟩,fun _ => ⟨settled,since⟩⟩

/-- With one pointer more than its own, the close callback leaves the connection alive. -/
theorem closeCallback_safe (safe : Safe ctx s) (made : c < s.made) (holds : 0 < s.temporaries c) :
    wp system held lifetimeContract ctx (host c).closeCallback
      (fun _ after => Safe (.destoryConnection c :: ctx) after ∧ Since s after) s := by
  simp only [host,acquire,wp_bind,wp_read,wp_ite,wp_modify,wp_fault]
  refine ⟨fun _ => ?_,fun _ => trivial⟩
  have more := (safe.temporaries _ fun _ => Nat.succ_pos _).closing (c := c)
    (s := s.setTemporaries c (s.temporaries c + 1)) made (by simp [World.setTemporaries])
  apply wp_mono (onConnectionClose_safe ctx c _ more)
  rintro _ after ⟨later,since⟩
  have returned := since.returned made
  have count := returned.temporaries c made
  simp only [release,wp_bind,wp_modify]
  apply dropped_owned
  · exact owned_of_temporaries (count ▸ holds)
  · refine ⟨later.temporaries _ fun _ => ?_,returned⟩
    simp only [World.setTemporaries,Function.update_self] at count
    omega

theorem wp_self (goal : TcpConnection → World → Prop) :
    wp system held lifetimeContract ctx (host c).self goal s ↔
      (s.destroyed c = false → goal (s.connections c) s) := by
  simp only [host,wp_bind,wp_read,wp_ite,wp_fault,wp_pure,Bool.not_eq_true]
  exact and_iff_right fun _ => trivial

theorem close_still (goal : Unit → World → Prop) (holds : ∀ after, Still s after → goal () after) :
    wp system held lifetimeContract ctx (TcpConnection.close (host c)) goal s := by
  simp only [TcpConnection.close,host,wp_bind,wp_read,wp_pure,wp_ite,wp_fault,wp_query,wp_modify]
  refine ⟨fun _ => trivial,fun _ => ⟨fun _ => ⟨trivial,fun a _ => ?_⟩,fun _ => ?_⟩⟩
  · exact holds _ ((answered_still s _ a).trans (update_still c _ _ fun _ => rfl))
  · exact holds s ⟨rfl,rfl,rfl,rfl,fun _ => rfl⟩

theorem onClose_safe (safe : Safe ctx s) (made : c < s.made) (closing : MayClose c s) :
    wp system held lifetimeContract ctx (TcpConnection.onClose (host c))
      (fun _ after => Safe ctx after ∧ Since s after) s := by
  -- Once `closed_` is set, the connection may be out of both containers.
  have finish : ∀ before, Safe (.destoryConnection c :: ctx) before ∧ Since s before →
      wp system held lifetimeContract ctx (do
        (host c).update fun this => { this with closed_ := true }
        TcpConnection.close (host c)) (fun _ after => Safe ctx after ∧ Since s after) before := by
    rintro before ⟨later,since⟩
    have marked : Safe (.destoryConnection c :: ctx)
        (before.update c fun this => { this with closed_ := true }) := by
      refine ⟨?_,later.held,later.registered⟩
      intro d old unlisted
      by_cases same : d = c
      · subst same
        exact Or.inr List.mem_cons_self
      · simpa only [World.update,Function.update_of_ne same] using later.listed d old unlisted
    have settled := marked.settled (by simp [World.update])
    have moved : Since s (before.update c fun this => { this with closed_ := true }) :=
      ⟨since.made,since.temporaries⟩
    apply close_still
    exact fun after still => ⟨settled.still still,moved.trans still.since⟩
  have opened : (s.connections c).closed_ = false → Safe (.destoryConnection c :: ctx) s := by
    intro opened
    refine safe.closing made (closing.resolve_left ?_)
    simp [opened]
  rw [TcpConnection.onClose,wp_bind,wp_self]
  intro _
  simp only [wp_ite,wp_bind,wp_pure] at finish ⊢
  refine ⟨fun open_ => ⟨fun _ => ?_,fun _ => finish s ⟨opened open_,Since.refl⟩⟩,fun _ => ⟨safe,Since.refl⟩⟩
  have holds := ((opened open_).held c List.mem_cons_self).2
  exact wp_mono (closeCallback_safe ctx c s safe made holds) fun _ => finish

/-- The destructor of a closed connection finds nothing to report. -/
theorem destructor_still (closed : (s.connections c).closed_ = true) :
    wp system held lifetimeContract ctx (destructor c) (fun _ after => Still s after) s := by
  rw [destructor,wp_bind,TcpConnection.onClose,wp_bind,wp_self]
  intro _
  simp only [closed,Bool.true_eq_false,if_false,wp_pure,wp_bind]
  apply close_still
  exact fun after still => still.trans ⟨rfl,rfl,rfl,rfl,fun _ => rfl⟩

theorem expire_safe (safe : Safe ctx s) (made : c < s.made) :
    wp system held lifetimeContract ctx (expire c)
      (fun _ after => Safe ctx after ∧ Since s after) s := by
  simp only [expire,acquire,wp_bind,wp_read,wp_ite,wp_modify,wp_fault,wp_run,wp_pure]
  refine ⟨fun _ => ⟨fun _ => ⟨⟨?_,made,fun _ => Or.inr ?_⟩,?_⟩,fun _ => trivial⟩,fun _ => ⟨safe,Since.refl⟩⟩
  · exact safe.temporaries _ fun _ => Nat.succ_pos _
  · simp [World.setTemporaries]
  · exact fun after later => release_safe ctx c s after safe made later.1 later.2

def accepted (fd : Int) (s : World) : World :=
  let made := s.construct fd
  World.addEvent { made with connections_ := Function.update made.connections_ s.made true } s.made

theorem accepted_safe (fd : Int) (safe : Safe ctx s) :
    Safe ctx (accepted fd s) ∧ Since s (accepted fd s) ∧ s.made < (accepted fd s).made ∧
      (accepted fd s).temporaries s.made = 1 := by
  have others : ∀ d, d ≠ s.made → ((accepted fd s).connections d).closed_ = (s.connections d).closed_ := by
    intro d other
    simp only [accepted,World.addEvent,World.setMask,World.update,World.construct,
      Function.update_of_ne other]
  have table : ∀ number d, (accepted fd s).loop.events_.lookup number = some (.connection d) →
      d < s.made + 1 := by
    intro number d
    have new : (World.event { s.construct fd with
        connections_ := Function.update (s.construct fd).connections_ s.made true } s.made).fd_ = fd := by
      simp [World.event,World.construct]
    simp only [accepted,World.addEvent,EventLoop.addEvent,new]
    split
    · exact fun found => Nat.lt_succ_of_lt (safe.registered number d found)
    · by_cases here : number = fd
      · subst here
        rw [AList.lookup_insert]
        rintro ⟨⟩
        exact Nat.lt_succ_self _
      · rw [AList.lookup_insert_ne here]
        exact fun found => Nat.lt_succ_of_lt (safe.registered number d found)
  refine ⟨⟨?_,?_,table⟩,⟨Nat.le_succ _,?_⟩,Nat.lt_succ_self _,Function.update_self ..⟩
  · intro d made unlisted
    have other : d ≠ s.made := by
      rintro rfl
      simp [accepted,World.addEvent,World.setMask,World.update] at unlisted
    have old : d < s.made := Nat.lt_of_le_of_ne (Nat.le_of_lt_succ made) other
    rw [others d other]
    apply safe.listed d old
    simpa only [accepted,World.addEvent,World.setMask,World.update,World.construct,
      Function.update_of_ne other] using unlisted
  · intro d inside
    obtain ⟨old,holds⟩ := safe.held d inside
    constructor
    · exact Nat.lt_succ_of_lt old
    simpa only [accepted,World.addEvent,World.setMask,World.update,World.construct,
      Function.update_of_ne (Nat.ne_of_lt old)] using holds
  · intro d old
    simp only [accepted,World.addEvent,World.setMask,World.update,World.construct,
      Function.update_of_ne (Nat.ne_of_lt old)]

/-- Between `make_shared` and the end of `OnAccept` the new connection is held. -/
theorem onAccept_safe (fd : Int) (safe : Safe ctx s) :
    wp system held lifetimeContract ctx (onAccept fd)
      (fun _ after => Safe ctx after ∧ Since s after) s := by
  obtain ⟨first,since,made,one⟩ := accepted_safe ctx s fd safe
  have finish : ∀ after, Safe ctx after ∧ Since (accepted fd s) after →
      wp system held lifetimeContract ctx (release s.made)
        (fun _ last => Safe ctx last ∧ Since s last) after := by
    rintro after ⟨later,kept⟩
    simp only [release,wp_bind,wp_modify]
    have settled : Safe ctx (after.setTemporaries s.made (after.temporaries s.made - 1)) := by
      apply later.temporaries
      intro inside
      exact absurd (safe.held _ inside).1 (Nat.lt_irrefl _)
    apply dropped_still
    · exact settled.closed (Nat.lt_of_lt_of_le made kept.made)
    · have returned : Since s (after.setTemporaries s.made (after.temporaries s.made - 1)) := by
        constructor
        · exact Nat.le_trans since.made kept.made
        intro d old
        have same := (since.trans kept).temporaries d old
        simpa only [World.setTemporaries,Function.update_of_ne (Nat.ne_of_lt old)] using same
      exact fun last still => ⟨settled.still still,returned.trans still.since⟩
  have timed : wp system held lifetimeContract ctx (enableCheckIdleTimeout s.made)
      (fun _ after => Safe ctx after ∧ Since (accepted fd s) after) (accepted fd s) := by
    simp only [enableCheckIdleTimeout,acquire,wp_bind,wp_read,wp_ite,wp_modify,wp_fault]
    refine ⟨fun _ => ?_,fun _ => trivial⟩
    exact release_safe ctx s.made _ _ first made (first.temporaries _ fun _ => Nat.succ_pos _) Since.refl
  simp only [onAccept,wp_bind,wp_read,wp_modify]
  apply wp_mono timed
  intro _ before holds
  rw [wp_bind,wp_read,wp_ite]
  refine ⟨fun _ => ⟨?_,fun after kept later => ?_⟩,fun _ => finish before holds⟩
  · exact (safe_cons _ (by simp)).mpr holds.1
  · exact finish after ⟨(safe_cons _ (by simp)).mp later,holds.2.trans kept⟩

theorem body_safe (m : Method) (pre : lifetimeContract.pre ctx m s) :
    wp system held lifetimeContract ctx (body m)
      (fun _ after => lifetimeContract.post ctx m s after) s := by
  cases m with
  | onAccept fd => exact onAccept_safe ctx s fd pre
  | expire c => exact expire_safe ctx c s pre.1 pre.2
  | destructor c => exact destructor_still ctx c s pre
  | connection c m =>
    obtain ⟨safe,made,closing⟩ := pre
    by_cases itself : m = .onClose
    · subst itself
      exact onClose_safe ctx c s safe made (closing rfl)
    · apply wp_mono (TcpConnection.body_kept (host_keeps_safe ctx c s) m itself s ⟨safe,made,Since.refl⟩ closing)
      exact fun _ after during => ⟨during.1,during.2.2⟩

end Bodies

theorem lifetime_sound : lifetimeContract.Sound system held where
  rely_refl := fun _ _ => Since.refl
  rely_trans := fun _ _ _ _ => Since.trans
  body := fun ctx m s pre => body_safe ctx s m pre
  enter := by
    intro ctx m s safe allowed
    obtain ⟨server,closing⟩ := Bool.and_eq_true_iff.mp allowed
    cases m with
    | onAccept fd => exact safe
    | expire c => exact ⟨safe,of_decide_eq_true server⟩
    | destructor c => cases server
    | connection c m =>
      have made : c < s.made := by
        cases m with
        | readLoop | writeLoop | onTimeout => cases server
        | _ => exact of_decide_eq_true (Bool.and_eq_true_iff.mp server).1
      refine ⟨safe,made,fun closes => ?_⟩
      simpa [closes] using closing
  leave := by
    intro ctx m s after _ allowed done
    cases m with
    | destructor c => simp [held,anyServer] at allowed
    | _ => exact done

/-- In every run in which each close of an open connection happens inside a call that holds
a shared pointer to it, the destructor finds `closed_` set, so it neither makes the close
callback nor asks for a shared pointer. -/
theorem destroyed_after_close (s : World) (c : Config World Query Result Callback Method) (conn : Nat)
    (next : Code Unit) (rest : List (Frame World Query Result Callback Method)) (fresh : Fresh s)
    (reached : system.Reachable held s c)
    (top : c.stack = .code (.call (.destructor conn) next) :: rest) :
    (c.state.connections conn).closed_ = true := by
  have start : Safe [] s := by
    refine ⟨?_,?_,?_⟩
    · intro d made
      rw [fresh.made] at made
      omega
    · intro d inside
      cases inside
    · intro fd d found
      exact absurd found (fresh.events_ fd d)
  exact reachable_calls lifetime_sound s c start reached top

def closedByMessage : List (Move World Query Result Callback Method) :=
  [.enter (.onAccept 5),.leave,.enter (.connection 0 .onRead),.answer ⟨3,0,[1,2,3]⟩,
    .enter (.connection 0 .forceClose),.leave,.answer ⟨0,0,[]⟩]

theorem destroyed_after_close_message :
    ∃ (c : Config World Query Result Callback Method) (next : Code Unit)
      (rest : List (Frame World Query Result Callback Method)),
      c.stack = .code (.call (.destructor 0) next) :: rest ∧ (c.state.connections 0).closed_ = true := by
  have before := system.play_reachable held 60 closedByMessage listening _ rfl
  have reached := before.exec (show system.exec held [.leave,.advance,.advance,.advance] _ = some _ from rfl)
  exact ⟨_,_,_,rfl,destroyed_after_close listening _ 0 _ _ listening_fresh reached rfl⟩

/-- A read finds the end of the stream. The callback made by `OnClose` has the last pointer, so
the destructor begins before `closed_` is set. -/
theorem destroyed_during_close :
    ∃ (c : Config World Query Result Callback Method) (next : Code Unit)
      (rest : List (Frame World Query Result Callback Method)),
      system.Reachable anyServer listening c ∧
      c.stack = .code (.call (.destructor 0) next) :: rest ∧ (c.state.connections 0).closed_ = false := by
  have before := system.play_reachable anyServer 60
    [.enter (.onAccept 5),.leave,.enter (.connection 0 .onRead),.answer ⟨0,0,[]⟩] listening _ rfl
  have reached := before.exec (show system.exec anyServer [.leave,.advance,.advance,.advance] _ = some _ from rfl)
  exact ⟨_,_,_,reached,rfl,rfl⟩

end Tmms.Network.TcpServer
