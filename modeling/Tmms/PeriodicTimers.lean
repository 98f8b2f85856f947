import Tmms.Recurrence
import Tmms.TimerFiring

/-! A periodic timer among others. `RunEvery` is called once with its callback; every later
occurrence is inserted by the destructor of the one before, while `PopUp` lets go of a slot. -/
namespace Tmms.Network.Timers

open Reentrant TcpConnection TimingWheel

def EntryPtr.runs (cb : Nat) : EntryPtr → Bool
  | .every _ _ other => other == cb
  | _ => false

section Periodic
variable (cb : Nat)

def insertedAt (t : Nat) (s : World) : Nat :=
  s.insertions.countP fun i => EntryPtr.runs cb i.entry && i.at_ == t

def releasedAt (t : Nat) (s : World) : Nat :=
  s.released.countP fun r => EntryPtr.runs cb r.entry && r.at_ == t

def called (s : World) : Bool := s.insertions.any fun i => EntryPtr.runs cb i.entry

/-- How many of the callbacks in progress are this one. -/
def inFlight (ctx : List Callback) : Nat :=
  ctx.countP fun c => match c with
    | .action e => EntryPtr.runs cb e
    | .handler _ _ => false

/-- `RunEvery` is called with this callback once at most, at tick `start` and for `interval`. -/
def onceEvery (delays : Nat → Bool) (start interval : Nat) : Environment World Query Answer Callback Method where
  admits := (environment delays).admits
  enters := fun ctx s m =>
    (environment delays).enters ctx s m &&
      match m with
      | .runEvery d other => other != cb || (d == interval && s.wheel.tick_ == start && !called cb s)
      | _ => true

variable (start interval : Nat)

/-- Each occurrence but the first is inserted in the tick in which the one before is destroyed. -/
structure Chain (pending : Nat) (s : World) : Prop where
  balance : ∀ t, insertedAt cb t s + (if t = s.wheel.tick_ then pending else 0) =
    releasedAt cb t s + (called cb s && t == start).toNat
  interval : ∀ i ∈ s.insertions, ∀ id d, i.entry = .every id d cb → d = interval ∧ i.delay = interval
  once : ((s.insertions.filter fun i => EntryPtr.runs cb i.entry).map Insertion.entry).Nodup
  past : ∀ r ∈ s.released, r.at_ ≤ s.wheel.tick_
  ordered : s.released.Pairwise fun later earlier => earlier.at_ ≤ later.at_

/-- What the logs say, beside what the rings hold. -/
def chainContract : Contract World Query Callback Method where
  inv := fun ctx s => Chain cb start interval (inFlight cb ctx) s
  rely := fun _ s after => called cb s = true → called cb after = true
  pre := fun ctx m s =>
    match m with
    | .insertEntry d e => Chain cb start interval (inFlight cb ctx) (began (.insertEntry d e) s)
    | .runEvery d other =>
      (other ≠ cb → Chain cb start interval (inFlight cb ctx) s) ∧
      (other = cb → d = interval ∧
        ((called cb s = true ∧ Chain cb start interval (inFlight cb ctx + 1) s) ∨
          (called cb s = false ∧ s.wheel.tick_ = start ∧ Chain cb start interval (inFlight cb ctx) s)))
    | .onTimer _ => inFlight cb ctx = 0 ∧ Chain cb start interval 0 s
    | _ => Chain cb start interval (inFlight cb ctx) s
  post := fun ctx _ s after =>
    Chain cb start interval (inFlight cb ctx) after ∧ (called cb s = true → called cb after = true)
  asks := fun _ _ _ => True
  mayFault := True

end Periodic

section Logs
variable {cb start interval pending : Nat} {s after : World}

structure Unlogged (s after : World) : Prop where
  insertions : after.insertions = s.insertions
  released : after.released = s.released
  tick : after.wheel.tick_ = s.wheel.tick_

theorem Chain.unlogged (chain : Chain cb start interval pending s) (same : Unlogged s after) :
    Chain cb start interval pending after := by
  obtain ⟨insertions,released,tick⟩ := same
  constructor
  · simpa only [insertedAt,releasedAt,called,insertions,released,tick] using chain.balance
  · rw [insertions]; exact chain.interval
  · rw [insertions]; exact chain.once
  · rw [released,tick]; exact chain.past
  · rw [released]; exact chain.ordered

theorem called_unlogged (same : after.insertions = s.insertions) : called cb after = called cb s := by
  rw [called,called,same]

/-- A later tick, with no callback in progress. -/
theorem Chain.later (chain : Chain cb start interval 0 s) (insertions : after.insertions = s.insertions)
    (released : after.released = s.released) (tick : s.wheel.tick_ ≤ after.wheel.tick_) :
    Chain cb start interval 0 after := by
  constructor
  · have balance := chain.balance
    simp only [ite_self] at balance ⊢
    simpa only [insertedAt,releasedAt,called,insertions,released] using balance
  · rw [insertions]; exact chain.interval
  · rw [insertions]; exact chain.once
  · rw [released]
    exact fun r among => le_trans (chain.past r among) tick
  · rw [released]; exact chain.ordered

theorem Chain.insert_other {d : Nat} {e : EntryPtr} (chain : Chain cb start interval pending s)
    (other : EntryPtr.runs cb e = false) : Chain cb start interval pending (began (.insertEntry d e) s) := by
  have inserted : ∀ t, insertedAt cb t (began (.insertEntry d e) s) = insertedAt cb t s := fun t => by
    simp [insertedAt,began,other]
  have same : called cb (began (.insertEntry d e) s) = called cb s := by
    simp only [called,began,List.any_cons,other,Bool.false_or]
  constructor
  · intro t
    rw [inserted,same]
    exact chain.balance t
  · intro i among id d same
    rcases List.mem_cons.mp among with rfl | old
    · simp only at same
      rw [same] at other
      simp [EntryPtr.runs] at other
    · exact chain.interval i old id d same
  · simpa [began,other] using chain.once
  · exact chain.past
  · exact chain.ordered

theorem Chain.release_other {e : EntryPtr} {alive : Bool} (chain : Chain cb start interval pending s)
    (other : EntryPtr.runs cb e = false) : Chain cb start interval pending
      { s with released := ⟨e,s.wheel.tick_,alive⟩ :: s.released } := by
  have released : ∀ t, releasedAt cb t { s with released := ⟨e,s.wheel.tick_,alive⟩ :: s.released } =
      releasedAt cb t s := fun t => by
    simp [releasedAt,other]
  constructor
  · intro t
    rw [released]
    exact chain.balance t
  · exact chain.interval
  · exact chain.once
  · intro r among
    rcases List.mem_cons.mp among with rfl | old
    · exact le_refl _
    · exact chain.past r old
  · exact List.pairwise_cons.mpr ⟨chain.past,chain.ordered⟩

/-- The destruction of an occurrence begins its callback. -/
theorem Chain.release {e : EntryPtr} {alive : Bool} (chain : Chain cb start interval pending s)
    (own : EntryPtr.runs cb e = true) : Chain cb start interval (pending + 1)
      { s with released := ⟨e,s.wheel.tick_,alive⟩ :: s.released } := by
  have released : ∀ t, releasedAt cb t { s with released := ⟨e,s.wheel.tick_,alive⟩ :: s.released } =
      releasedAt cb t s + if s.wheel.tick_ = t then 1 else 0 := fun t => by
    simp [releasedAt,own,List.countP_cons]
  constructor
  · intro t
    have balance : insertedAt cb t s + (if t = s.wheel.tick_ then pending else 0) = _ := chain.balance t
    rw [released]
    change insertedAt cb t s + (if t = s.wheel.tick_ then pending + 1 else 0) =
      _ + (called cb s && t == start).toNat
    by_cases now : t = s.wheel.tick_
    · rw [if_pos now] at balance
      rw [if_pos now,if_pos now.symm]
      omega
    · rw [if_neg now] at balance
      rw [if_neg now,if_neg (Ne.symm now)]
      omega
  · exact chain.interval
  · exact chain.once
  · intro r among
    rcases List.mem_cons.mp among with rfl | old
    · exact le_refl _
    · exact chain.past r old
  · exact List.pairwise_cons.mpr ⟨chain.past,chain.ordered⟩

/-- The next occurrence is inserted after the callback, the first one by the call of `RunEvery`. -/
theorem Chain.insert {id : Nat} (before : (called cb s = true ∧ Chain cb start interval (pending + 1) s) ∨
      (called cb s = false ∧ s.wheel.tick_ = start ∧ Chain cb start interval pending s))
    (fresh : ∀ i ∈ s.insertions, i.entry ≠ .every id interval cb) :
    Chain cb start interval pending (began (.insertEntry interval (.every id interval cb)) s) := by
  have own : EntryPtr.runs cb (.every id interval cb) = true := beq_self_eq_true cb
  have chain : Chain cb start interval pending s ∨ Chain cb start interval (pending + 1) s :=
    before.elim (fun again => .inr again.2) fun first => .inl first.2.2
  have logs : (∀ i ∈ s.insertions, ∀ id d, i.entry = .every id d cb → d = interval ∧ i.delay = interval) ∧
      ((s.insertions.filter fun i => EntryPtr.runs cb i.entry).map Insertion.entry).Nodup ∧
      (∀ r ∈ s.released, r.at_ ≤ s.wheel.tick_) ∧
      s.released.Pairwise fun later earlier => earlier.at_ ≤ later.at_ :=
    chain.elim (fun c => ⟨c.interval,c.once,c.past,c.ordered⟩) fun c => ⟨c.interval,c.once,c.past,c.ordered⟩
  have inserted : ∀ t, insertedAt cb t (began (.insertEntry interval (.every id interval cb)) s) =
      insertedAt cb t s + if s.wheel.tick_ = t then 1 else 0 := fun t => by
    simp [insertedAt,began,own,List.countP_cons]
  constructor
  · intro t
    have now : called cb (began (.insertEntry interval (.every id interval cb)) s) = true := by
      simp [called,began,own]
    rw [now]
    rw [inserted,Bool.true_and]
    change insertedAt cb t s + _ + (if t = s.wheel.tick_ then pending else 0) = releasedAt cb t s + _
    rcases before with ⟨already,chain⟩ | ⟨not_yet,tick,chain⟩
    · have balance := chain.balance t
      rw [already,Bool.true_and] at balance
      by_cases here : t = s.wheel.tick_
      · rw [if_pos here] at balance
        rw [if_pos here,if_pos here.symm]
        omega
      · rw [if_neg here] at balance
        rw [if_neg here,if_neg (Ne.symm here)]
        omega
    · have balance := chain.balance t
      rw [not_yet,Bool.false_and,Bool.toNat_false] at balance
      rw [← tick]
      by_cases here : t = s.wheel.tick_
      · rw [if_pos here] at balance
        rw [if_pos here,if_pos here.symm,beq_iff_eq.mpr here,Bool.toNat_true]
        omega
      · rw [if_neg here] at balance
        rw [if_neg here,if_neg (Ne.symm here),beq_false_of_ne here,Bool.toNat_false]
        omega
  · intro i among number d same
    rcases List.mem_cons.mp among with rfl | old
    · cases same
      exact ⟨rfl,rfl⟩
    · exact logs.1 i old number d same
  · have listed : ((began (.insertEntry interval (.every id interval cb)) s).insertions.filter
        fun i => EntryPtr.runs cb i.entry).map Insertion.entry =
        .every id interval cb :: (s.insertions.filter fun i => EntryPtr.runs cb i.entry).map Insertion.entry := by
      simp [began,own]
    rw [listed,List.nodup_cons]
    refine ⟨?_,logs.2.1⟩
    intro inside
    obtain ⟨i,among,same⟩ := List.mem_map.mp inside
    exact fresh i (List.mem_filter.mp among).1 same
  · exact logs.2.2.1
  · exact logs.2.2.2

end Logs

section Bodies
variable {cb start interval : Nat} {delays : Nat → Bool} {s : World} (ctx : List Callback)

def Goes (cb start interval : Nat) (ctx : List Callback) (first after : World) : Prop :=
  Chain cb start interval (inFlight cb ctx) after ∧ (called cb first = true → called cb after = true)

theorem Goes.refl (chain : Chain cb start interval (inFlight cb ctx) s) : Goes cb start interval ctx s s :=
  ⟨chain,id⟩

theorem Goes.trans {a b c : World} (first : Goes cb start interval ctx a b)
    (second : Goes cb start interval ctx b c) : Goes cb start interval ctx a c :=
  ⟨second.1,fun before => second.2 (first.2 before)⟩

theorem Goes.unlogged {a b c : World} (goes : Goes cb start interval ctx a b) (same : Unlogged b c) :
    Goes cb start interval ctx a c :=
  ⟨goes.1.unlogged same,fun before => by rw [called_unlogged same.insertions]; exact goes.2 before⟩

theorem chain_modify {first : World} (f : World → World) (same : ∀ s, Unlogged s (f s)) :
    Kept system (onceEvery cb delays start interval) (chainContract cb start interval) ctx
      (Goes cb start interval ctx first) (Prog.modify f) fun _ => True :=
  fun s holds => ⟨trivial,holds.unlogged ctx (same s)⟩

theorem invoked_unlogged (c : Callback) (s : World) : Unlogged s (system.invoked c s) := by
  cases c <;> exact ⟨rfl,rfl,rfl⟩

/-- A method that the chain only asks to find it well. -/
theorem chain_run {first : World} (m : Method)
    (pre : ∀ s, Chain cb start interval (inFlight cb ctx) s → (chainContract cb start interval).pre ctx m s) :
    Kept system (onceEvery cb delays start interval) (chainContract cb start interval) ctx
      (Goes cb start interval ctx first) (Prog.run m) fun _ => True :=
  fun s holds => ⟨pre s holds.1,fun _ done => ⟨trivial,holds.trans ctx done⟩⟩

theorem chain_invoke {first : World} (c : Callback) (other : inFlight cb (c :: ctx) = inFlight cb ctx) :
    Kept system (onceEvery cb delays start interval) (chainContract cb start interval) ctx
      (Goes cb start interval ctx first) (Prog.invoke c) fun _ => True := by
  intro s holds
  have goes := holds.unlogged ctx (invoked_unlogged c s)
  constructor
  · change Chain cb start interval (inFlight cb (c :: ctx)) (system.invoked c s)
    rw [other]
    exact goes.1
  · intro after kept inv
    refine ⟨trivial,?_,fun before => kept (goes.2 before)⟩
    rw [← other]
    exact inv

theorem inFlight_other {e : EntryPtr} (other : EntryPtr.runs cb e = false) :
    inFlight cb (.action e :: ctx) = inFlight cb ctx := by
  simp [inFlight,other]

theorem inFlight_own {e : EntryPtr} (own : EntryPtr.runs cb e = true) :
    inFlight cb (.action e :: ctx) = inFlight cb ctx + 1 := by
  simp [inFlight,own]

theorem inFlight_handler (conn : Nat) (c : TcpConnection.Callback) :
    inFlight cb (.handler conn c :: ctx) = inFlight cb ctx := by
  simp [inFlight]

theorem emplace_tick {type : TImingType} {k : Nat} {e : EntryPtr} {w after : TimingWheel}
    (put : w.emplace type k e = some after) : after.tick_ = w.tick_ := by
  obtain ⟨ring,_,rfl⟩ := Option.map_eq_some_iff.mp put
  rfl

theorem insertEntry_tick {id d : Nat} {e : EntryPtr} {w after : TimingWheel}
    (put : w.insertEntry id d e = some after) : after.tick_ = w.tick_ := by
  by_cases beyond : refused d
  · rw [insertEntry_refused id d beyond] at put
    cases put
    rfl
  · rw [insertEntry_eq id d beyond] at put
    exact emplace_tick put

theorem chain_insertEntry (d : Nat) (e : EntryPtr)
    (pre : (chainContract cb start interval).pre ctx (.insertEntry d e) s) :
    wp system (onceEvery cb delays start interval) (chainContract cb start interval) ctx (insertEntry d e)
      (fun _ after => (chainContract cb start interval).post ctx (.insertEntry d e) s after)
      (began (.insertEntry d e) s) := by
  simp only [insertEntry,wp_bind,wp_read]
  have grown : called cb s = true → called cb (began (.insertEntry d e) s) = true := by
    intro before
    simp only [called,began,List.any_cons]
    exact Bool.or_eq_true_iff.mpr (.inr before)
  split
  case h_1 => exact trivial
  case h_2 wheel put =>
    have same : Unlogged (began (.insertEntry d e) s)
        { began (.insertEntry d e) s with wheel := wheel, made := (began (.insertEntry d e) s).made + 1 } :=
      ⟨rfl,rfl,insertEntry_tick put⟩
    simp only [wp_bind,wp_modify,wp_run]
    refine ⟨Chain.unlogged pre same,fun after done => ⟨done.1,fun before => done.2 ?_⟩⟩
    exact grown before

theorem chain_fresh {d : Nat} {e : EntryPtr} (chain : Chain cb start interval (inFlight cb ctx) s)
    (other : EntryPtr.runs cb e = false) :
    (chainContract cb start interval).pre ctx (.insertEntry d e) { s with made := s.made + 1 } := by
  have same : Unlogged s { s with made := s.made + 1 } := ⟨rfl,rfl,rfl⟩
  exact Chain.insert_other (chain.unlogged same) other

theorem chain_runEvery (d other : Nat) (before : (contract delays).pre ctx (.runEvery d other) s)
    (pre : (chainContract cb start interval).pre ctx (.runEvery d other) s) :
    wp system (onceEvery cb delays start interval) (chainContract cb start interval) ctx (runEvery d other)
      (fun _ after => (chainContract cb start interval).post ctx (.runEvery d other) s after) s := by
  simp only [runEvery,wp_bind,wp_read,wp_modify,wp_run]
  have same : Unlogged s { s with made := s.made + 1 } := ⟨rfl,rfl,rfl⟩
  refine ⟨?_,fun after done => done⟩
  by_cases own : other = cb
  · subst own
    obtain ⟨rfl,cases⟩ := pre.2 rfl
    apply Chain.insert
    · exact cases.imp (fun again => ⟨again.1,again.2.unlogged same⟩)
        fun first => ⟨first.1,first.2.1,first.2.2.unlogged same⟩
    · intro i among entry
      have number := before.1.made.numbered i among s.made (by rw [entry]; rfl)
      exact Nat.lt_irrefl _ number
  · have apart : EntryPtr.runs cb (.every s.made d other) = false := beq_false_of_ne own
    exact chain_fresh ctx (pre.1 own) apart

/-- The destructor of an occurrence runs the callback, and inserts the next one. -/
theorem chain_destroy_own (id d : Nat) (before : (contract delays).pre ctx (.destroy (.every id d cb)) s)
    (chain : Chain cb start interval (inFlight cb ctx) s) :
    wp system (onceEvery cb delays start interval) (chainContract cb start interval) ctx
      (destroy (.every id d cb))
      (fun _ after => (chainContract cb start interval).post ctx (.destroy (.every id d cb)) s after)
      (began (.destroy (.every id d cb)) s) := by
  have own : EntryPtr.runs cb (.every id d cb) = true := beq_self_eq_true cb
  obtain ⟨i,among,entry,_⟩ := before.2.1.plain rfl before.2.2
  have already : called cb s = true := List.any_eq_true.mpr ⟨i,among,by rw [entry]; exact own⟩
  have same := (chain.interval i among id d entry).1
  subst same
  have released : Chain cb start d (inFlight cb ctx + 1) (began (.destroy (.every id d cb)) s) :=
    chain.release own
  simp only [destroy,wp_bind,wp_invoke,wp_run]
  refine ⟨?_,fun after kept inv => ⟨⟨fun other => absurd rfl other,fun _ => ⟨rfl,.inl ⟨?_,?_⟩⟩⟩,?_⟩⟩
  · change Chain cb start d (inFlight cb (.action (.every id d cb) :: ctx)) _
    rw [inFlight_own ctx own]
    exact released.unlogged (invoked_unlogged _ _)
  · exact kept already
  · have inv : Chain cb start d (inFlight cb (.action (.every id d cb) :: ctx)) after := inv
    rwa [inFlight_own ctx own] at inv
  · exact fun final done => ⟨done.1,fun called => done.2 (kept called)⟩

theorem chain_destroy (short : interval < 60) (e : EntryPtr) (before : (contract delays).pre ctx (.destroy e) s)
    (chain : Chain cb start interval (inFlight cb ctx) s) :
    wp system (onceEvery cb delays start interval) (chainContract cb start interval) ctx (destroy e)
      (fun _ after => (chainContract cb start interval).post ctx (.destroy e) s after)
      (began (.destroy e) s) := by
  cases e with
  | object number =>
    have goes : Goes cb start interval ctx s (began (.destroy (.object number)) s) := ⟨chain.release_other rfl,id⟩
    exact (chain_invoke ctx _ (inFlight_other ctx rfl)).wp _ goes
  | after number other =>
    have goes : Goes cb start interval ctx s (began (.destroy (.after number other)) s) := ⟨chain.release_other rfl,id⟩
    exact (chain_invoke ctx _ (inFlight_other ctx rfl)).wp _ goes
  | every number d other =>
    by_cases own : other = cb
    · subst own
      exact chain_destroy_own ctx number d before chain
    · have apart : EntryPtr.runs cb (.every number d other) = false := beq_false_of_ne own
      have goes : Goes cb start interval ctx s (began (.destroy (.every number d other)) s) :=
        ⟨chain.release_other apart,id⟩
      apply (Kept.bind (chain_invoke ctx _ (inFlight_other ctx apart)) fun _ _ =>
        chain_run ctx (.runEvery d other) fun after holds => ⟨fun _ => holds,fun same => absurd same own⟩).wp _ goes
  | timeout number conn =>
    simp only [destroy,wp_bind,wp_read,wp_ite,wp_run,wp_pure]
    have goes : Chain cb start interval (inFlight cb ctx) (began (.destroy (.timeout number conn)) s) :=
      chain.release_other rfl
    exact ⟨fun _ => ⟨goes,fun after done => done⟩,fun _ => ⟨goes,id⟩⟩
  | cascade number second entry =>
    have apart : EntryPtr.runs cb entry = false := by
      obtain ⟨i,among,_,_,long,_,_,rfl⟩ := cascade_origin before.1
      cases entry : i.entry with
      | every number d other =>
        by_contra own
        have same : other = cb := by simpa [EntryPtr.runs] using own
        subst same
        have delay := (chain.interval i among number d entry).2
        omega
      | _ => rfl
    exact ⟨chain.insert_other apart,fun after done => done⟩

theorem chain_drop (e : EntryPtr) (chain : Chain cb start interval (inFlight cb ctx) s) :
    wp system (onceEvery cb delays start interval) (chainContract cb start interval) ctx (drop e)
      (fun _ after => (chainContract cb start interval).post ctx (.drop e) s after) s := by
  simp only [drop,wp_bind,wp_read,wp_ite,wp_pure,wp_run]
  exact ⟨fun _ => ⟨chain,id⟩,fun _ => ⟨chain,fun after done => done⟩⟩

theorem chain_clear (chain : Chain cb start interval (inFlight cb ctx) s) :
    wp system (onceEvery cb delays start interval) (chainContract cb start interval) ctx clear
      (fun _ after => (chainContract cb start interval).post ctx .clear s after) s := by
  simp only [clear,wp_bind,wp_read,wp_ite,wp_pure,wp_query]
  refine ⟨fun _ => ⟨chain,id⟩,fun _ => ⟨trivial,fun a _ => ?_⟩⟩
  cases a with
  | result r => exact trivial
  | entry e =>
    simp only [wp_bind,wp_modify,wp_run]
    refine ⟨chain.unlogged ⟨rfl,rfl,rfl⟩,fun after done => ⟨done.1,fun last cleared => ⟨cleared.1,?_⟩⟩⟩
    exact fun before => cleared.2 (done.2 before)

theorem chain_popUp (type : TImingType) (chain : Chain cb start interval (inFlight cb ctx) s) :
    wp system (onceEvery cb delays start interval) (chainContract cb start interval) ctx (popUp type)
      (fun _ after => (chainContract cb start interval).post ctx (.popUp type) s after)
      (began (.popUp type) s) := by
  simp only [popUp,wp_bind,wp_modify,wp_run]
  exact ⟨chain.unlogged ⟨rfl,rfl,rfl⟩,fun after done => done⟩

theorem chain_onTimer (now : Int) (pre : (chainContract cb start interval).pre ctx (.onTimer now) s) :
    wp system (onceEvery cb delays start interval) (chainContract cb start interval) ctx (onTimer now)
      (fun _ after => (chainContract cb start interval).post ctx (.onTimer now) s after) s := by
  obtain ⟨alone,chain⟩ := pre
  rw [onTimer,wp_bind,wp_modify]
  have started : Unlogged s (if s.wheel.last_ts_ = 0 then
      { s with wheel := { s.wheel with last_ts_ := now } } else s) := by
    split <;> exact ⟨rfl,rfl,rfl⟩
  generalize (if s.wheel.last_ts_ = 0 then { s with wheel := { s.wheel with last_ts_ := now } } else s) = first at started
  have chain := chain.unlogged started
  have same : called cb first = called cb s := called_unlogged started.insertions
  rw [← alone] at chain
  simp only [wp_bind,wp_modify,wp_run,wp_read,wp_ite,wp_pure]
  refine ⟨fun _ => ⟨chain,fun before => by rwa [same]⟩,fun _ => ?_⟩
  let ticked : World := { first with wheel := { first.wheel with last_ts_ := now, tick_ := first.wheel.tick_ + 1 } }
  have goes : Goes cb start interval ctx s ticked := by
    refine ⟨?_,fun before => by rw [← same] at before; exact before⟩
    rw [alone] at chain ⊢
    exact chain.later rfl rfl (Nat.le_succ _)
  refine ⟨goes.1,fun after done => ?_⟩
  have goes := goes.trans ctx done
  have turn : ∀ final, Goes cb start interval ctx after final → Goes cb start interval ctx s final :=
    fun _ done => goes.trans ctx done
  exact ⟨fun _ => ⟨goes.1,turn⟩,fun _ => ⟨fun _ => ⟨goes.1,turn⟩,fun _ => ⟨fun _ => ⟨goes.1,turn⟩,fun _ => goes⟩⟩⟩

theorem chain_enableCheckIdleTimeout (conn d : Nat) (chain : Chain cb start interval (inFlight cb ctx) s) :
    wp system (onceEvery cb delays start interval) (chainContract cb start interval) ctx
      (enableCheckIdleTimeout conn d)
      (fun _ after => (chainContract cb start interval).post ctx (.enableCheckIdleTimeout conn d) s after) s := by
  simp only [enableCheckIdleTimeout,wp_bind,wp_read,wp_modify,wp_run,World.updateClient]
  refine ⟨Chain.insert_other (chain.unlogged ⟨rfl,rfl,rfl⟩) rfl,fun after done => done⟩

section Handlers
variable (conn : Nat) (first : World)

theorem chain_client (f : Client → Client) :
    Kept system (onceEvery cb delays start interval) (chainContract cb start interval) ctx
      (Goes cb start interval ctx first) (Prog.modify (·.updateClient conn f)) fun _ => True :=
  chain_modify ctx _ fun _ => ⟨rfl,rfl,rfl⟩

theorem chain_io (q : TcpConnection.Query) (values : Result → Prop)
    (among : ∀ s r, (environment delays).admits ctx s (.io conn q) (.result r) = true → values r) :
    Kept system (onceEvery cb delays start interval) (chainContract cb start interval) ctx
      (Goes cb start interval ctx first) (io conn q) values := by
  intro s holds
  simp only [io,wp_bind,wp_query,wp_pure]
  refine ⟨trivial,fun a admitted => ?_⟩
  cases a with
  | entry e => cases q <;> simp [onceEvery,environment] at admitted
  | result r =>
    have same : Unlogged s (system.answered (.io conn q) (.result r) s) := by
      cases q with
      | readFd fd | writev fd vec =>
        change Unlogged s (if 0 < r.ret then { s with activity := (conn,s.wheel.tick_) :: s.activity } else s)
        split <;> exact ⟨rfl,rfl,rfl⟩
      | _ => exact ⟨rfl,rfl,rfl⟩
    exact ⟨among s r admitted,holds.unlogged ctx same⟩

theorem chain_handler (m : TcpConnection.Method) :
    Kept system (onceEvery cb delays start interval) (chainContract cb start interval) ctx
      (Goes cb start interval ctx first) (Prog.run (.handler conn m)) fun _ => True :=
  chain_run ctx _ fun _ holds => holds

theorem chain_host :
    (host conn).Keeps system (onceEvery cb delays start interval) (chainContract cb start interval) ctx
      (Goes cb start interval ctx first) (fun _ => True) where
  self := fun _ holds => ⟨trivial,holds⟩
  update := fun f _ => chain_client ctx conn first fun c => { c with connection := f c.connection }
  messageCallback := chain_invoke ctx _ (inFlight_handler ctx conn .message)
  writeCompleteCallback := chain_invoke ctx _ (inFlight_handler ctx conn .writeComplete)
  write := fun _ _ _ => chain_io ctx conn first _ _ fun _ _ _ => trivial
  writev := fun _ _ => chain_io ctx conn first _ _ fun _ _ admitted =>
    ⟨by simpa [environment] using admitted,fun _ => trivial⟩
  readFd := fun _ => chain_io ctx conn first _ _ fun _ _ _ _ => trivial
  enableWriting := fun _ => chain_client ctx conn first _
  onClose := fun s holds => chain_handler ctx conn first .onClose s holds.2
  readLoop := chain_handler ctx conn first .readLoop
  writeLoop := chain_handler ctx conn first .writeLoop

theorem chain_onClose :
    Kept system (onceEvery cb delays start interval) (chainContract cb start interval) ctx
      (Goes cb start interval ctx first) (TcpConnection.onClose (host conn)) fun _ => True := by
  have keeps : (host conn).Keeps system (onceEvery cb delays start interval) (chainContract cb start interval) ctx
      (Goes cb start interval ctx first) (fun _ => True) := chain_host ctx conn first
  refine TcpConnection.onClose_kept keeps.self (chain_invoke ctx _ (inFlight_handler ctx conn .close))
    (chain_client ctx conn first _) ?_
  refine TcpConnection.close_kept keeps.self ?_ (chain_client ctx conn first _)
  intro fd
  apply Kept.bind (chain_io ctx conn first _ (fun _ => True) fun _ _ _ => trivial)
  exact fun _ _ => Kept.pure trivial

theorem chain_handler_body (m : TcpConnection.Method) (chain : Chain cb start interval (inFlight cb ctx) s) :
    wp system (onceEvery cb delays start interval) (chainContract cb start interval) ctx
      (TcpConnection.body (host conn) m)
      (fun _ after => (chainContract cb start interval).post ctx (.handler conn m) s after)
      (began (.handler conn m) s) := by
  have goes : Goes cb start interval ctx s (began (.handler conn m) s) :=
    (Goes.refl ctx chain).unlogged ctx (by cases m <;> exact ⟨rfl,rfl,rfl⟩)
  by_cases itself : m = .onClose
  · subst itself
    exact (chain_onClose ctx conn s).wp _ goes
  · exact body_kept (chain_host ctx conn s) m itself _ goes fun _ => trivial

end Handlers

theorem chain_expire (conn : Nat) (chain : Chain cb start interval (inFlight cb ctx) s) :
    wp system (onceEvery cb delays start interval) (chainContract cb start interval) ctx (expire conn)
      (fun _ after => (chainContract cb start interval).post ctx (.expire conn) s after) s :=
  (Kept.bind (chain_client ctx conn s _) fun _ _ => chain_handler ctx conn s .onClose).wp s (Goes.refl ctx chain)

theorem chain_runAfter (d other : Nat) (chain : Chain cb start interval (inFlight cb ctx) s) :
    wp system (onceEvery cb delays start interval) (chainContract cb start interval) ctx (runAfter d other)
      (fun _ after => (chainContract cb start interval).post ctx (.runAfter d other) s after) s := by
  simp only [runAfter,wp_bind,wp_read,wp_modify,wp_run]
  exact ⟨chain_fresh ctx chain rfl,fun after done => done⟩

theorem chain_body (short : interval < 60) (m : Method) (before : (contract delays).pre ctx m s)
    (pre : (chainContract cb start interval).pre ctx m s) :
    wp system (onceEvery cb delays start interval) (chainContract cb start interval) ctx (body m)
      (fun _ after => (chainContract cb start interval).post ctx m s after) (began m s) := by
  cases m with
  | insertEntry d e => exact chain_insertEntry ctx d e pre
  | runAfter d other => exact chain_runAfter ctx d other pre
  | runEvery d other => exact chain_runEvery ctx d other before pre
  | onTimer now => exact chain_onTimer ctx now pre
  | popUp type => exact chain_popUp ctx type pre
  | clear => exact chain_clear ctx pre
  | drop e => exact chain_drop ctx e pre
  | destroy e => exact chain_destroy ctx short e before pre
  | enableCheckIdleTimeout conn d => exact chain_enableCheckIdleTimeout ctx conn d pre
  | extendLife conn => exact before.elim
  | handler conn m => exact chain_handler_body ctx conn m pre
  | expire conn => exact chain_expire ctx conn pre

theorem chain_enters (m : Method) (s : World) (inv : Chain cb start interval (inFlight cb ctx) s)
    (allowed : (onceEvery cb delays start interval).enters ctx s m = true) :
    (chainContract cb start interval).pre ctx m s := by
  obtain ⟨allowed,own⟩ := Bool.and_eq_true_iff.mp allowed
  cases m with
  | insertEntry d e =>
    cases e with
    | object number => exact inv.insert_other rfl
    | _ => simp [environment] at allowed
  | runEvery d other =>
    refine ⟨fun _ => inv,?_⟩
    rintro rfl
    simp only [bne_self_eq_false,Bool.false_or,Bool.and_eq_true,beq_iff_eq,Bool.not_eq_true'] at own
    exact ⟨own.1.1,.inr ⟨own.2,own.1.2,inv⟩⟩
  | onTimer now =>
    simp only [environment,List.isEmpty_iff] at allowed
    subst allowed
    exact ⟨rfl,inv⟩
  | _ => exact inv

theorem chain_refines (short : interval < 60) :
    (chainContract cb start interval).Refines (contract delays) system (onceEvery cb delays start interval) where
  rely_refl := fun _ _ => id
  rely_trans := fun _ _ _ _ first second before => second (first before)
  body := fun ctx m _ before pre => chain_body ctx short m before pre
  enter := fun ctx m s _ inv allowed => chain_enters ctx m s inv allowed
  leave := fun _ _ _ _ _ _ post => post

theorem chain_sound (delays : Nat → Bool) (short : interval < 60) :
    ((contract delays).both (chainContract cb start interval)).Sound system
      (onceEvery cb delays start interval) := by
  have sound : (contract delays).Sound system (onceEvery cb delays start interval) :=
    (timers_sound delays).mono (fun _ _ _ _ => id) fun _ _ _ allowed => (Bool.and_eq_true_iff.mp allowed).1
  exact sound.both (chain_refines short)

end Bodies

/-- The ticks at which the callback ran, oldest first. -/
def invocations (cb : Nat) (s : World) : List Nat := (callsAmong (EntryPtr.runs cb) s).reverse

section Exactly
variable {cb start interval pending : Nat} {delays : Nat → Bool} {s : World}

theorem runs_iff {e : EntryPtr} : EntryPtr.runs cb e = true ↔ ∃ number d, e = .every number d cb := by
  cases e <;> simp [EntryPtr.runs]

theorem Chain.delay (chain : Chain cb start interval pending s) {i : Insertion} (among : i ∈ s.insertions)
    (own : EntryPtr.runs cb i.entry = true) : i.delay = interval := by
  obtain ⟨number,d,entry⟩ := runs_iff.mp own
  exact (chain.interval i among number d entry).2

theorem Chain.single (chain : Chain cb start interval pending s) {i j : Insertion} (among : i ∈ s.insertions)
    (other : j ∈ s.insertions) (own : EntryPtr.runs cb i.entry = true) (same : j.entry = i.entry) : j = i :=
  List.inj_on_of_nodup_map chain.once (List.mem_filter.mpr ⟨other,by rw [same]; exact own⟩)
    (List.mem_filter.mpr ⟨among,own⟩) same

theorem Chain.latest (chain : Chain cb start interval pending s) {i : Insertion} (among : i ∈ s.insertions)
    (own : EntryPtr.runs cb i.entry = true) : latest i.entry s = i.at_ + interval := by
  apply Nat.le_antisymm
  · apply latest_le
    intro j other same
    rw [chain.single among other own same,chain.delay among own]
  · rw [← chain.delay among own]
    exact le_latest i among rfl

theorem Chain.brief (chain : Chain cb start interval pending s) (short : interval < 60) {e : EntryPtr}
    (own : EntryPtr.runs cb e = true) : ∀ i ∈ s.insertions, i.entry = e → i.delay < 60 := by
  rintro i among rfl
  rw [chain.delay among own]
  exact short

theorem released_from (valid : Valid delays [] s) (chain : Chain cb start interval pending s)
    (short : interval < 60) {r : Release} (released : r ∈ s.released) (own : EntryPtr.runs cb r.entry = true) :
    ∃ i ∈ s.insertions, i.entry = r.entry ∧ r.at_ = i.at_ + interval := by
  obtain ⟨i,among,entry,_⟩ := valid.past.first r released
  refine ⟨i,among,entry,?_⟩
  rw [← entry] at own
  rw [← chain.latest among own]
  exact (release_latest valid (chain.brief short own) r released entry.symm).1

theorem releasedAt_early (valid : Valid delays [] s) (chain : Chain cb start interval pending s)
    (short : interval < 60) {t : Nat} (early : t < interval) : releasedAt cb t s = 0 := by
  rw [releasedAt,List.countP_eq_zero]
  intro r released counted
  obtain ⟨own,when⟩ := Bool.and_eq_true_iff.mp counted
  obtain ⟨i,_,_,later⟩ := released_from valid chain short released own
  rw [beq_iff_eq.mp when] at later
  omega

theorem releasedAt_late (chain : Chain cb start interval pending s) {t : Nat} (late : s.wheel.tick_ < t) :
    releasedAt cb t s = 0 := by
  rw [releasedAt,List.countP_eq_zero]
  intro r released counted
  have past := chain.past r released
  rw [beq_iff_eq.mp (Bool.and_eq_true_iff.mp counted).2] at past
  omega

theorem releasedAt_le (valid : Valid delays [] s) (chain : Chain cb start interval pending s)
    (short : interval < 60) (t : Nat) : releasedAt cb (t + interval) s ≤ insertedAt cb t s := by
  rw [releasedAt,insertedAt,List.countP_eq_length_filter,List.countP_eq_length_filter,
    ← List.length_map Release.entry,← List.length_map Insertion.entry]
  apply List.Subperm.length_le
  apply List.subperm_of_subset
  · exact valid.past.once.sublist (List.filter_sublist.map _)
  · intro e inside
    obtain ⟨r,chosen,rfl⟩ := List.mem_map.mp inside
    obtain ⟨released,counted⟩ := List.mem_filter.mp chosen
    obtain ⟨own,when⟩ := Bool.and_eq_true_iff.mp counted
    obtain ⟨i,among,entry,later⟩ := released_from valid chain short released own
    rw [beq_iff_eq.mp when] at later
    refine List.mem_map.mpr ⟨i,List.mem_filter.mpr ⟨among,?_⟩,entry⟩
    rw [entry,own,Bool.true_and,beq_iff_eq]
    omega

/-- What was inserted an interval ago has been destroyed, at the latest when the tick is over. -/
theorem insertedAt_le (valid : Valid delays [] s) (chain : Chain cb start interval pending s)
    (short : interval < 60) (t : Nat)
    (past : t + interval < s.wheel.tick_ ∨ t + interval = s.wheel.tick_ ∧ s.tmp = []) :
    insertedAt cb t s ≤ releasedAt cb (t + interval) s := by
  rw [releasedAt,insertedAt,List.countP_eq_length_filter,List.countP_eq_length_filter,
    ← List.length_map Release.entry,← List.length_map Insertion.entry]
  apply List.Subperm.length_le
  apply List.subperm_of_subset
  · refine chain.once.sublist (List.Sublist.map _ ?_)
    exact List.monotone_filter_right _ fun i counted => (Bool.and_eq_true_iff.mp counted).1
  · intro e inside
    obtain ⟨i,chosen,rfl⟩ := List.mem_map.mp inside
    obtain ⟨among,counted⟩ := List.mem_filter.mp chosen
    obtain ⟨own,when⟩ := Bool.and_eq_true_iff.mp counted
    have at_ := beq_iff_eq.mp when
    have due := chain.latest among own
    rcases fires_exactly valid i among rfl (chain.brief short own) with ⟨_,later,strictly⟩ | ⟨done,_⟩
    · rcases past with past | ⟨now,empty⟩
      · omega
      · have := strictly empty
        omega
    · have inside : latest i.entry s ∈ releases i.entry s := by rw [done]; exact List.mem_singleton_self _
      obtain ⟨r,found,when⟩ := List.mem_map.mp inside
      obtain ⟨released,same⟩ := List.mem_filter.mp found
      have entry : r.entry = i.entry := by simpa using same
      refine List.mem_map.mpr ⟨r,List.mem_filter.mpr ⟨released,?_⟩,entry⟩
      rw [entry,own,Bool.true_and,beq_iff_eq,when,due,at_]

theorem invocations_released (valid : Valid delays [] s) :
    invocations cb s = ((s.released.filter fun r => EntryPtr.runs cb r.entry).map Release.at_).reverse := by
  rw [invocations,calls_among valid (EntryPtr.runs cb) fun _ _ => rfl]

theorem count_invocations (valid : Valid delays [] s) (t : Nat) :
    (invocations cb s).count t = releasedAt cb t s := by
  rw [invocations_released valid,List.count_reverse,List.count_eq_countP,List.countP_map,List.countP_filter,releasedAt]
  congr 1
  funext r
  exact Bool.and_comm _ _

theorem invocations_ordered (valid : Valid delays [] s) (chain : Chain cb start interval pending s) :
    (invocations cb s).Pairwise (· ≤ ·) := by
  rw [invocations_released valid,List.pairwise_reverse,List.pairwise_map]
  exact chain.ordered.filter _

theorem start_le (valid : Valid delays [] s) (chain : Chain cb start interval pending s)
    (called : called cb s = true) : start ≤ s.wheel.tick_ := by
  by_contra future
  have none : insertedAt cb start s = 0 := by
    rw [insertedAt,List.countP_eq_zero]
    intro i among counted
    have past := valid.logged.past i among
    rw [beq_iff_eq.mp (Bool.and_eq_true_iff.mp counted).2] at past
    omega
  have balance := chain.balance start
  rw [called,Bool.true_and,beq_self_eq_true,Bool.toNat_true,none,if_neg (by omega)] at balance
  omega

theorem invocations_exact (valid : Valid delays [] s) (chain : Chain cb start interval pending s)
    (range : 1 ≤ interval ∧ interval ≤ 59) (called : called cb s = true) :
    ∃ n, invocations cb s = (List.range n).map (fun k => start + (k + 1) * interval) ∧
      start + n * interval ≤ s.wheel.tick_ ∧ s.wheel.tick_ ≤ start + (n + 1) * interval ∧
      (s.tmp = [] → s.wheel.tick_ < start + (n + 1) * interval) := by
  have short : interval < 60 := by omega
  have balance : ∀ t, t < s.wheel.tick_ → insertedAt cb t s = releasedAt cb t s + (t == start).toNat := by
    intro t past
    have count := chain.balance t
    rwa [called,Bool.true_and,if_neg (Nat.ne_of_lt past)] at count
  obtain ⟨n,counts,reached,bound,strictly⟩ := Recurrence.occurrences_of_balance range.1 balance
    (fun t early => releasedAt_early valid chain short early)
    (fun t past => Nat.le_antisymm (releasedAt_le valid chain short t)
      (insertedAt_le valid chain short t (.inl past)))
    (fun t now => now ▸ releasedAt_le valid chain short t)
    (fun t late => releasedAt_late chain late) (start_le valid chain called)
  refine ⟨n,?_,reached,bound,fun empty => strictly fun t now => ?_⟩
  · apply Recurrence.eq_multiples range.1 (invocations_ordered valid chain)
    intro t
    rw [count_invocations valid,counts]
  · rw [← now]
    exact Nat.le_antisymm (releasedAt_le valid chain short t) (insertedAt_le valid chain short t (.inr ⟨now,empty⟩))

theorem invocations_none (valid : Valid delays [] s) (never : called cb s = false) : invocations cb s = [] := by
  rw [invocations_released valid,List.reverse_eq_nil_iff,List.map_eq_nil_iff,List.filter_eq_nil_iff]
  intro r released own
  obtain ⟨i,among,entry,_⟩ := valid.past.first r released
  have called : called cb s = true := List.any_eq_true.mpr ⟨i,among,by rw [entry]; exact own⟩
  rw [never] at called
  cases called

theorem fresh_chain (fresh : Fresh s) : Chain cb start interval 0 s := by
  constructor
  · intro t
    rw [insertedAt,releasedAt,Timers.called,fresh.insertions,fresh.released,ite_self]
    rfl
  · rw [fresh.insertions]
    exact fun _ among => by cases among
  · rw [fresh.insertions]
    exact List.nodup_nil
  · rw [fresh.released]
    exact fun _ among => by cases among
  · rw [fresh.released]
    exact List.Pairwise.nil

end Exactly

/-- `RunEvery` was called with the callback at tick `start`, among whatever other timers: the
callback has run in the ticks `start + interval`, `start + 2 * interval` and so on up to now, and
in no other. -/
theorem periodic_exact (delays : Nat → Bool) (cb start interval : Nat) (range : 1 ≤ interval ∧ interval ≤ 59)
    (s : World) (c : Config World Query Answer Callback Method) (fresh : Fresh s)
    (reached : system.Reachable (onceEvery cb delays start interval) s c) (controlled : c.controlled) :
    (called cb c.state = false → invocations cb c.state = []) ∧
    (called cb c.state = true → ∃ n,
      invocations cb c.state = (List.range n).map (fun k => start + (k + 1) * interval) ∧
      start + n * interval ≤ c.state.wheel.tick_ ∧ c.state.wheel.tick_ ≤ start + (n + 1) * interval ∧
      (c.stack = [] → c.state.wheel.tick_ < start + (n + 1) * interval)) := by
  obtain ⟨⟨valid,settled⟩,chain⟩ :=
    reachable_invariant (chain_sound delays (show interval < 60 by omega)) s c
      ⟨fresh_valid delays s fresh,fresh_chain fresh⟩ reached controlled
  refine ⟨invocations_none valid,fun called => ?_⟩
  obtain ⟨n,exactly,reached,bound,strictly⟩ := invocations_exact valid chain range called
  refine ⟨n,exactly,reached,bound,fun outside => strictly (settled ?_).tmp⟩
  rw [outside]
  rfl

/-- Every two seconds from tick 1 on, with a timer of another kind in the same tick. -/
theorem periodic_exact_beside :
    ∃ c : Config World Query Answer Callback Method, c.state.wheel.tick_ = 5 ∧ c.stack = [] ∧
      invocations 7 c.state = [3,5] ∧ ∃ n,
        invocations 7 c.state = (List.range n).map (fun k => 1 + (k + 1) * 2) ∧
        1 + n * 2 ≤ c.state.wheel.tick_ ∧ c.state.wheel.tick_ ≤ 1 + (n + 1) * 2 ∧
        (c.stack = [] → c.state.wheel.tick_ < 1 + (n + 1) * 2) := by
  have reached := system.play_reachable (onceEvery 7 short 1 2) 60
    [.enter (.runAfter 3 9),.enter (.onTimer 1000),.enter (.onTimer 2000),.enter (.runEvery 2 7),
      .enter (.onTimer 3000),.enter (.onTimer 4000),.answer (.entry (.every 2 2 7)),.leave,
      .answer (.entry (.after 0 9)),.leave,.enter (.onTimer 5000),.enter (.onTimer 6000),
      .answer (.entry (.every 4 2 7)),.leave] Timers.start _ rfl
  refine ⟨_,?_,?_,?_,(periodic_exact short 7 1 2 (by decide) Timers.start _ start_fresh reached trivial).2 ?_⟩
  all_goals decide

end Tmms.Network.Timers
