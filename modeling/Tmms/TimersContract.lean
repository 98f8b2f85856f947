import Tmms.TimersInvariant

/-! The invariant over whole runs: every method of the wheel, and every handler of a
connection, keeps it, callbacks to any depth included. -/
namespace Tmms.Network.Timers

open Reentrant TcpConnection TimingWheel

structure Same (s after : World) : Prop where
  tick : after.wheel.tick_ = s.wheel.tick_
  turns : after.turns = s.turns
  tmp : after.tmp = s.tmp

theorem Same.refl (s : World) : Same s s := ⟨rfl,rfl,rfl⟩

theorem Same.trans {a b c : World} (first : Same a b) (second : Same b c) : Same a c :=
  ⟨second.tick.trans first.tick,second.turns.trans first.turns,second.tmp.trans first.tmp⟩

theorem began_insertions (m : Method) (s : World) (other : ∀ d e, m ≠ .insertEntry d e) :
    (began m s).insertions = s.insertions := by
  cases m with
  | insertEntry d e => exact absurd rfl (other d e)
  | destroy e => cases e <;> rfl
  | handler conn m => cases m <;> rfl
  | _ => rfl

theorem answered_insertions (q : Query) (a : Answer) (s : World) : (answered q a s).insertions = s.insertions := by
  unfold answered
  split
  · split <;> rfl
  · split <;> rfl
  · rfl

theorem invoked_insertions (c : Callback) (s : World) : (invoked c s).insertions = s.insertions := by
  cases c <;> rfl

structure Settled (s : World) : Prop where
  tmp : s.tmp = []
  minutes : s.turns .kTimingTypeMinute = s.wheel.tick_ / 60

variable (delays : Nat → Bool)

def contract : Contract World Query Callback Method where
  inv := fun ctx s => Valid delays [] s ∧ (ctx = [] → Settled s)
  rely := fun ctx s after => ctx ≠ [] → Same s after
  pre := fun _ m s =>
    match m with
    | .insertEntry d e => d < 2^32 ∧ (d = 0 → Bad delays) ∧ Ordered delays d e s ∧
        ∃ loose, Valid delays loose s ∧ Inserts loose d e s
    | .runAfter d _ | .runEvery d _ => Valid delays [] s ∧ delays d = true ∧ d < 2^32
    | .onTimer _ => Valid delays [] s ∧ Settled s
    | .popUp type => ∃ before, Valid delays [] before ∧ Turns type s.wheel before ∧
        s = { before with wheel := s.wheel }
    | .clear | .expire _ => Valid delays [] s
    | .drop e => Valid delays [e] s ∧ Dropped e s
    | .destroy e => Valid delays [e] s ∧ Dropped e s ∧ s.owned e = false
    | .enableCheckIdleTimeout _ d => Valid delays [] s ∧ delays d = true ∧ 0 < d ∧ d < 60
    | .extendLife _ => False
    | .handler conn m => Valid delays [] (began (.handler conn m) s)
  post := fun _ m s after => Valid delays [] after ∧
    match m with
    | .onTimer _ => Settled after
    | .popUp type => after.tmp = [] ∧ after.wheel.tick_ = s.wheel.tick_ ∧
        after.turns = (began (.popUp type) s).turns
    | .clear => after.tmp = [] ∧ after.wheel.tick_ = s.wheel.tick_ ∧ after.turns = s.turns
    | _ => Same s after
  asks := fun _ _ _ => True
  mayFault := Bad delays

section Bodies
variable {delays} {loose : List EntryPtr} {s : World} (ctx : List Callback)

theorem valid_frame (valid : Valid delays loose s) (clients : Nat → Client) (last : Int)
    (activity : List (Nat × Nat)) :
    Valid delays loose
      { s with clients := clients, activity := activity, wheel := { s.wheel with last_ts_ := last } } :=
  valid_unmoved valid ⟨rfl,rfl,rfl,rfl,Nat.le_refl _⟩ rfl rfl rfl rfl

/-- An entry that was put into no slot was refused. -/
theorem dropped_insert {d : Nat} {e : EntryPtr} {wheel : TimingWheel} (plain : e.isCascade = false)
    (alive : ∀ r ∈ s.released, r.entry ≠ e) (valid : Valid delays [] (inserted d e wheel s))
    (tick : wheel.tick_ = s.wheel.tick_) : Dropped e (inserted d e wheel s) where
  cascade := by
    intro wrapper
    rw [plain] at wrapper
    cases wrapper
  plain := by
    intro _ free
    have among : insertion d e s ∈ (inserted d e wheel s).insertions := mem_inserted.mpr (Or.inl rfl)
    refine ⟨insertion d e s,among,rfl,Or.inr ⟨tick.symm,fun i inside same => ?_⟩⟩
    by_contra accepted
    rcases valid.past.live i inside accepted with owned | ⟨r,released,again⟩ | ⟨x,none,_⟩
    · rw [same,free] at owned
      cases owned
    · exact alive r released (again.trans same)
    · cases none

theorem insertEntry_body (d : Nat) (e : EntryPtr)
    (pre : (contract delays).pre ctx (.insertEntry d e) s) :
    wp system (environment delays) (contract delays) ctx (insertEntry d e)
      (fun _ after => (contract delays).post ctx (.insertEntry d e) s after)
      (began (.insertEntry d e) s) := by
  obtain ⟨bound,undelayed,ordered,loose,valid,inserts⟩ := pre
  simp only [insertEntry,wp_bind,wp_read]
  have wheel : (began (.insertEntry d e) s).wheel = s.wheel := rfl
  have number : (began (.insertEntry d e) s).made = s.made := rfl
  rw [wheel,number]
  by_cases positive : 0 < d
  · obtain ⟨after,found,tick,kept⟩ := valid_insert valid inserts ordered positive bound
    rw [found]
    simp only [wp_bind,wp_modify,wp_run]
    change (contract delays).pre ctx (.drop e) (inserted d e after s) ∧ _
    refine ⟨⟨valid_loosen kept inserts.plain inserts.unreleased,?_⟩,fun last done => ?_⟩
    · exact dropped_insert inserts.plain inserts.unreleased kept tick
    · have same : Same (inserted d e after s) last := done.2
      exact ⟨done.1,same.tick.trans tick,same.turns,same.tmp⟩
  · have zero : d = 0 := by omega
    subst zero
    rw [insertEntry_zero s.made valid.rings.sized]
    exact undelayed rfl

theorem fresh_unreleased (valid : Valid delays [] s) {e : EntryPtr}
    (number : serial e = some s.made) : ∀ r ∈ s.released, r.entry ≠ e := by
  intro r among same
  obtain ⟨i,inside,entry,_⟩ := valid.past.first r among
  rw [← same,← entry] at number
  exact Nat.lt_irrefl _ (valid.made.numbered i inside _ number)

theorem valid_made (valid : Valid delays loose s) : Valid delays loose { s with made := s.made + 1 } :=
  valid_unmoved valid ⟨rfl,rfl,rfl,rfl,Nat.le_succ _⟩ rfl rfl rfl rfl

/-- An entry just made can be inserted. -/
theorem insert_fresh (valid : Valid delays [] s) {d : Nat} {e : EntryPtr} (allowed : delays d = true)
    (bound : d < 2^32) (plain : e.isCascade = false) (number : serial e = some s.made)
    (every : ∀ id interval cb, e = .every id interval cb → interval = d)
    (timeout : ∀ id conn, e = .timeout id conn → 0 < d ∧ d < 60) :
    (contract delays).pre ctx (.insertEntry d e) { s with made := s.made + 1 } := by
  refine ⟨bound,?_,⟨fun _ => allowed,?_,?_,?_⟩,[],valid_made valid,plain,fresh_unreleased valid number,Or.inl rfl⟩
  · intro zero
    subst zero
    exact ⟨0,allowed,by decide,rfl⟩
  · intro n same
    rw [number] at same
    cases same
    exact Nat.lt_succ_self _
  · intro id interval cb same
    rw [every id interval cb same]
    exact ⟨allowed,bound⟩
  · intro id conn same
    constructor
    · exact (timeout id conn same).2
    intro i among again
    rw [← again] at number
    exact Nat.lt_irrefl _ (valid.made.numbered i among _ number)

theorem runAfter_body (d cb : Nat) (pre : (contract delays).pre ctx (.runAfter d cb) s) :
    wp system (environment delays) (contract delays) ctx (runAfter d cb)
      (fun _ after => (contract delays).post ctx (.runAfter d cb) s after) s := by
  obtain ⟨valid,allowed,bound⟩ := pre
  simp only [runAfter,wp_bind,wp_read,wp_modify,wp_run]
  refine ⟨insert_fresh ctx valid allowed bound rfl rfl ?_ ?_,fun after done => ?_⟩
  · exact fun _ _ _ same => by cases same
  · exact fun _ _ same => by cases same
  · have same : Same { s with made := s.made + 1 } after := done.2
    exact ⟨done.1,same.tick,same.turns,same.tmp⟩

theorem runEvery_body (d cb : Nat) (pre : (contract delays).pre ctx (.runEvery d cb) s) :
    wp system (environment delays) (contract delays) ctx (runEvery d cb)
      (fun _ after => (contract delays).post ctx (.runEvery d cb) s after) s := by
  obtain ⟨valid,allowed,bound⟩ := pre
  simp only [runEvery,wp_bind,wp_read,wp_modify,wp_run]
  refine ⟨insert_fresh ctx valid allowed bound rfl rfl ?_ ?_,fun after done => ?_⟩
  · intro id interval cb same
    injection same with _ interval
    exact interval.symm
  · exact fun _ _ same => by cases same
  · have same : Same { s with made := s.made + 1 } after := done.2
    exact ⟨done.1,same.tick,same.turns,same.tmp⟩

theorem enableCheckIdleTimeout_body (conn d : Nat)
    (pre : (contract delays).pre ctx (.enableCheckIdleTimeout conn d) s) :
    wp system (environment delays) (contract delays) ctx (enableCheckIdleTimeout conn d)
      (fun _ after => (contract delays).post ctx (.enableCheckIdleTimeout conn d) s after) s := by
  obtain ⟨valid,allowed,positive,short⟩ := pre
  simp only [enableCheckIdleTimeout,wp_bind,wp_read,wp_modify,wp_run,World.updateClient]
  have framed := valid_frame valid (Function.update s.clients conn
    { s.clients conn with max_idle_time_ := d, timeout_entry_ := some (.timeout s.made conn) })
    s.wheel.last_ts_ s.activity
  refine ⟨insert_fresh ctx framed allowed (by omega) rfl rfl ?_ ?_,fun after done => ?_⟩
  · exact fun _ _ _ same => by cases same
  · exact fun _ _ _ => ⟨positive,short⟩
  · exact ⟨done.1,done.2.tick,done.2.turns,done.2.tmp⟩

theorem drop_body (e : EntryPtr) (pre : (contract delays).pre ctx (.drop e) s) :
    wp system (environment delays) (contract delays) ctx (drop e)
      (fun _ after => (contract delays).post ctx (.drop e) s after) s := by
  obtain ⟨valid,dropped⟩ := pre
  simp only [drop,wp_bind,wp_read,wp_ite,wp_pure,wp_run]
  refine ⟨fun owned => ⟨?_,Same.refl s⟩,fun free => ⟨⟨valid,dropped,?_⟩,fun after done => done⟩⟩
  · apply valid_settle valid _ owned
    by_contra wrapper
    rw [Bool.not_eq_false] at wrapper
    rw [cascade_not_owned valid wrapper (dropped.cascade wrapper)] at owned
    cases owned
  · exact Bool.not_eq_true _ ▸ free

/-- A user callback finds the invariant, and leaves it and what only the loop changes. -/
theorem invoke_body (c : Callback) {s : World} (valid : Valid delays [] (invoked c s)) :
    wp system (environment delays) (contract delays) ctx (Prog.invoke c)
      (fun _ after => Valid delays [] after ∧ Same s after) s := by
  have same : Same s (invoked c s) := by cases c <;> exact ⟨rfl,rfl,rfl⟩
  constructor
  · exact ⟨valid,fun none => absurd none (List.cons_ne_nil _ _)⟩
  intro after kept inv
  exact ⟨inv.1,same.trans (kept (List.cons_ne_nil _ _))⟩

theorem invoke_kept (conn : Nat) (c : TcpConnection.Callback) (start : World) :
    Kept system (environment delays) (contract delays) ctx
      (fun after => Valid delays [] after ∧ Same start after) (Prog.invoke (.handler conn c)) fun _ => True :=
  fun _ holds => wp_mono (invoke_body ctx (.handler conn c) holds.1) fun _ _ done =>
    ⟨trivial,done.1,holds.2.trans done.2⟩

/-- Where a coarse ring's entry comes from when it is let go of. -/
theorem cascade_origin {number second : Nat} {entry : EntryPtr} (valid : Valid delays [.cascade number second entry] s) :
    ∃ i ∈ s.insertions, ¬refused i.delay ∧ i.turn ≤ s.turns i.ring ∧ ¬i.delay < 60 ∧ i.id = number ∧
      i.rest = second ∧ i.entry = entry := by
  obtain ⟨i,among,accepted,turned,_,same⟩ :=
    valid.pending.out_log _ (Or.inr ⟨List.mem_singleton_self _,rfl⟩)
  have long : ¬i.delay < 60 := by
    intro short
    rw [Insertion.what_second short] at same
    have plain := valid.logged.plain i among
    rw [← same] at plain
    cases plain
  rw [Insertion.what_coarse long] at same
  injection same with number rest entry
  exact ⟨i,among,accepted,turned,long,number.symm,rest.symm,entry.symm⟩

/-- A coarse ring's entry hands its own entry back to the second ring. -/
theorem destroy_cascade (id second : Nat) (entry : EntryPtr)
    (valid : Valid delays [.cascade id second entry] s) :
    (contract delays).pre ctx (.insertEntry second entry) s := by
  obtain ⟨i,among,accepted,turned,long,rfl,rfl,rfl⟩ := cascade_origin valid
  have some := Insertion.turn_pos (valid.logged.positive i among) accepted
  have minute : i.ring = .kTimingTypeMinute := by
    cases ring : i.ring with
    | kTimingTypeSecond => exact absurd (Insertion.ring_second.mp ring) long
    | kTimingTypeMinute => rfl
    | kTimingTypeHour => rw [ring,valid.logged.never.1] at turned; omega
    | kTimingTypeDay => rw [ring,valid.logged.never.2] at turned; omega
  have short : i.rest < 60 := by
    rw [Insertion.rest,minute]
    exact Nat.mod_lt _ (by decide)
  have coarse := Insertion.ring_minute.mp minute
  have plain := valid.logged.plain i among
  refine ⟨by omega,fun zero => ?_,⟨fun beyond => by omega,valid.made.numbered i among,
    valid.made.every i among,fun id conn same => ?_⟩,_,valid,plain,fun r inside same => ?_,
    Or.inr ⟨short,i.id,rfl⟩⟩
  · rw [Insertion.rest,minute] at zero
    exact ⟨i.delay,valid.made.allowed i among coarse.1,coarse.2,zero⟩
  · exact absurd (valid.made.short i among id conn same) long
  · have apart := valid.past.apart r inside _ (List.mem_singleton_self _)
    rw [← Bool.not_eq_true,EntryPtr.holds_cascade plain] at apart
    exact apart (Or.inr same.symm)

/-- What is noted when a destructor begins and when it calls belongs together. -/
theorem valid_action {e : EntryPtr} (valid : Valid delays [e] s) (dropped : Dropped e s) (free : s.owned e = false)
    (other : ∀ id conn, e ≠ .timeout id conn) (plain : e.isCascade = false) :
    Valid delays [] (invoked (.action e) (began (.destroy e) s)) := by
  cases e with
  | timeout id conn => exact absurd rfl (other id conn)
  | cascade id second entry => cases plain
  | _ => exact valid_release valid rfl free dropped true s.timeouts _ (fun conn => by simp) rfl

theorem destroy_body (e : EntryPtr) (pre : (contract delays).pre ctx (.destroy e) s) :
    wp system (environment delays) (contract delays) ctx (destroy e)
      (fun _ after => (contract delays).post ctx (.destroy e) s after)
      (began (.destroy e) s) := by
  obtain ⟨valid,dropped,free⟩ := pre
  have action : (∀ id conn, e ≠ .timeout id conn) → e.isCascade = false →
      wp system (environment delays) (contract delays) ctx (Prog.invoke (.action e))
        (fun _ after => Valid delays [] after ∧ Same s after) (began (.destroy e) s) := by
    intro other plain
    apply wp_mono (invoke_body ctx _ (valid_action valid dropped free other plain))
    exact fun _ _ done => ⟨done.1,Same.trans (by cases e <;> exact ⟨rfl,rfl,rfl⟩) done.2⟩
  cases e with
  | object id => exact action (fun _ _ same => by cases same) rfl
  | after id cb => exact action (fun _ _ same => by cases same) rfl
  | every id interval cb =>
    obtain ⟨i,among,entry,_⟩ := dropped.plain rfl free
    have allowed := valid.made.every i among id interval cb entry
    rw [destroy,wp_bind]
    apply wp_mono (action (fun _ _ same => by cases same) rfl)
    exact fun _ after holds => ⟨⟨holds.1,allowed⟩,fun last done => ⟨done.1,holds.2.trans done.2⟩⟩
  | timeout id conn =>
    simp only [destroy,wp_bind,wp_read,wp_ite,wp_run,wp_pure]
    refine ⟨fun alive => ⟨?_,fun after done => ⟨done.1,done.2.tick,done.2.turns,done.2.tmp⟩⟩,fun dead => ⟨?_,rfl,rfl,rfl⟩⟩
    · have lives : (s.clients conn).alive = true := alive
      apply valid_release valid rfl free dropped (s.clients conn).alive (conn :: s.timeouts)
      · intro other
        simp [lives,eq_comm]
      · rw [lives]
        rfl
    · have dies : (s.clients conn).alive = false := Bool.not_eq_true _ ▸ dead
      apply valid_release valid rfl free dropped (s.clients conn).alive s.timeouts
      · intro other
        simp [dies]
      · rw [dies]
        rfl
  | cascade id second entry =>
    exact ⟨destroy_cascade ctx id second entry valid,fun after done => done⟩

theorem clear_body (pre : Valid delays [] s) :
    wp system (environment delays) (contract delays) ctx clear
      (fun _ after => (contract delays).post ctx .clear s after) s := by
  simp only [clear,wp_bind,wp_read,wp_ite,wp_pure,wp_query]
  refine ⟨fun empty => ⟨pre,empty,rfl,rfl⟩,fun _ => ⟨trivial,fun a admitted => ?_⟩⟩
  cases a with
  | result r => simp [environment] at admitted
  | entry e =>
    have inside : e ∈ s.tmp := by simpa [environment] using admitted
    simp only [wp_bind,wp_modify,wp_run]
    constructor
    · exact ⟨valid_take pre inside,dropped_take pre inside⟩
    intro after done
    have same : Same (taken e s) after := done.2
    refine ⟨done.1,fun last cleared => ⟨cleared.1,cleared.2.1,?_,?_⟩⟩
    · exact cleared.2.2.1.trans same.tick
    · exact cleared.2.2.2.trans same.turns

theorem popUp_body (type : TImingType) (pre : (contract delays).pre ctx (.popUp type) s) :
    wp system (environment delays) (contract delays) ctx (popUp type)
      (fun _ after => (contract delays).post ctx (.popUp type) s after)
      (began (.popUp type) s) := by
  obtain ⟨before,valid,turns,same⟩ := pre
  simp only [popUp,wp_bind,wp_modify,wp_run]
  have taken : ({ began (.popUp type) s with
      wheel := ((began (.popUp type) s).wheel.popUp type).2,
      tmp := ((began (.popUp type) s).wheel.popUp type).1 } : World) = popped type s.wheel before := by
    rw [same]
    rfl
  refine ⟨?_,fun after done => done⟩
  rw [taken]
  exact valid_popped valid turns

theorem settled_turns (valid : Valid delays [] s) (settled : Settled s) (last : Int) :
    Turns .kTimingTypeSecond { s.wheel with last_ts_ := last, tick_ := s.wheel.tick_ + 1 } s where
  rings := rfl
  empty := settled.tmp
  tick := by
    change 1 * (s.turns .kTimingTypeSecond + 1) = s.wheel.tick_ + 1
    rw [valid.logged.seconds,Nat.one_mul]
  advances := Nat.le_succ _
  ring := by
    left
    constructor
    · rfl
    change s.wheel.tick_ + 1 ≤ _
    rw [settled.minutes]
    omega

/-- One tick: the second ring turns, and every sixtieth time the minute ring after it. The
branches for the hour and day ring are dead. -/
theorem tick_body (last : Int) (valid : Valid delays [] s) (settled : Settled s) :
    wp system (environment delays) (contract delays) ctx (do
      Prog.modify fun s =>
        { s with wheel := { s.wheel with last_ts_ := last, tick_ := s.wheel.tick_ + 1 } }
      Prog.run (.popUp .kTimingTypeSecond)
      let s ← Prog.read
      if s.wheel.tick_ % kTimingMinute = 0 then Prog.run (.popUp .kTimingTypeMinute)
      else if s.wheel.tick_ % kTimingHour = 0 then Prog.run (.popUp .kTimingTypeHour)
      else if s.wheel.tick_ % kTimingDay = 0 then Prog.run (.popUp .kTimingTypeDay))
      (fun _ after => Valid delays [] after ∧ Settled after) s := by
  simp only [wp_bind,wp_modify,wp_run,wp_read,wp_ite,wp_pure]
  constructor
  · exact ⟨s,valid,settled_turns valid settled last,rfl⟩
  intro after done
  obtain ⟨kept,empty,tick,turns⟩ := done
  have ticked : after.wheel.tick_ = s.wheel.tick_ + 1 := tick
  have minutes : after.turns .kTimingTypeMinute = s.wheel.tick_ / 60 := by
    rw [turns,← settled.minutes]
    rfl
  simp only [ticked,kTimingMinute,kTimingHour,kTimingDay]
  refine ⟨fun whole => ?_,fun part => ⟨fun hour => ?_,fun _ => ⟨fun day => ?_,fun _ => ?_⟩⟩⟩
  · refine ⟨⟨after,kept,⟨rfl,empty,?_,Nat.le_refl _,Or.inr ⟨rfl,rfl⟩⟩,rfl⟩,fun final done => ?_⟩
    · simp only [unit,kTimingMinute]
      omega
    · obtain ⟨valid,empty,same,turns⟩ := done
      refine ⟨valid,empty,?_⟩
      have turned : final.turns .kTimingTypeMinute = after.turns .kTimingTypeMinute + 1 := by
        rw [turns]
        simp [began]
      rw [turned,same,ticked,minutes]
      omega
  · omega
  · omega
  · refine ⟨kept,empty,?_⟩
    rw [minutes,ticked]
    omega

theorem onTimer_body (now : Int) (pre : (contract delays).pre ctx (.onTimer now) s) :
    wp system (environment delays) (contract delays) ctx (onTimer now)
      (fun _ after => (contract delays).post ctx (.onTimer now) s after) s := by
  obtain ⟨valid,settled⟩ := pre
  rw [onTimer,wp_bind,wp_modify]
  have started : ∃ last, (if s.wheel.last_ts_ = 0 then
      { s with wheel := { s.wheel with last_ts_ := now } } else s) =
      ({ s with wheel := { s.wheel with last_ts_ := last } } : World) := by
    by_cases first : s.wheel.last_ts_ = 0
    · exact ⟨now,if_pos first⟩
    · exact ⟨s.wheel.last_ts_,if_neg first⟩
  obtain ⟨last,started⟩ := started
  rw [started]
  have framed := valid_frame valid s.clients last s.activity
  rw [wp_bind,wp_read,wp_ite]
  constructor
  · exact fun _ => ⟨framed,settled.tmp,settled.minutes⟩
  intro _
  exact tick_body ctx now framed ⟨settled.tmp,settled.minutes⟩

section Handlers
variable (conn : Nat) (start : World)

theorem client_kept (f : Client → Client) :
    Kept system (environment delays) (contract delays) ctx
      (fun after => Valid delays [] after ∧ Same start after)
      (Prog.modify (·.updateClient conn f)) fun _ => True :=
  fun s holds => ⟨trivial,valid_frame holds.1 _ s.wheel.last_ts_ s.activity,
    holds.2.tick,holds.2.turns,holds.2.tmp⟩

theorem io_kept (q : TcpConnection.Query) (values : Result → Prop)
    (among : ∀ s r, (environment delays).admits ctx s (.io conn q) (.result r) = true → values r) :
    Kept system (environment delays) (contract delays) ctx
      (fun after => Valid delays [] after ∧ Same start after) (io conn q) values := by
  intro s holds
  simp only [io,wp_bind,wp_query,wp_pure]
  constructor
  · trivial
  intro a admitted
  cases a with
  | entry e => cases q <;> simp [environment] at admitted
  | result r =>
    constructor
    · exact among s r admitted
    have noted : ∃ activity, system.answered (.io conn q) (.result r) s =
        { s with activity := activity } := by
      cases q with
      | readFd fd | writev fd vec =>
        by_cases moved : 0 < r.ret
        · exact ⟨_,if_pos moved⟩
        · exact ⟨s.activity,if_neg moved⟩
      | _ => exact ⟨s.activity,rfl⟩
    obtain ⟨activity,noted⟩ := noted
    rw [noted]
    exact ⟨valid_frame holds.1 s.clients s.wheel.last_ts_ activity,holds.2.tick,holds.2.turns,holds.2.tmp⟩

theorem handler_kept (m : TcpConnection.Method) (other : m ≠ .onTimeout) :
    Kept system (environment delays) (contract delays) ctx
      (fun after => Valid delays [] after ∧ Same start after) (Prog.run (.handler conn m))
      fun _ => True := by
  intro s holds
  have unnoted : began (.handler conn m) s = s := by
    cases m with
    | onTimeout => contradiction
    | _ => rfl
  refine ⟨?_,fun after done => ⟨trivial,done.1,holds.2.trans done.2⟩⟩
  change Valid delays [] (began (.handler conn m) s)
  rw [unnoted]
  exact holds.1

theorem host_keeps :
    (host conn).Keeps system (environment delays) (contract delays) ctx
      (fun after => Valid delays [] after ∧ Same start after) (fun _ => True) where
  self := fun _ holds => ⟨trivial,holds⟩
  update := fun f _ => client_kept ctx conn start fun c => { c with connection := f c.connection }
  messageCallback := invoke_kept ctx conn _ start
  writeCompleteCallback := invoke_kept ctx conn _ start
  write := fun _ _ _ => io_kept ctx conn start _ _ fun _ _ _ => trivial
  writev := fun _ _ => io_kept ctx conn start _ _ fun _ _ admitted =>
    ⟨by simpa [environment] using admitted,fun _ => trivial⟩
  readFd := fun _ => io_kept ctx conn start _ _ fun _ _ _ _ => trivial
  enableWriting := fun _ => client_kept ctx conn start _
  onClose := fun s holds => handler_kept ctx conn start .onClose (by decide) s holds.2
  readLoop := handler_kept ctx conn start .readLoop (by decide)
  writeLoop := handler_kept ctx conn start .writeLoop (by decide)

theorem onClose_keeps :
    Kept system (environment delays) (contract delays) ctx
      (fun after => Valid delays [] after ∧ Same start after) (TcpConnection.onClose (host conn))
      fun _ => True := by
  refine TcpConnection.onClose_kept (host_keeps ctx conn start).self (invoke_kept ctx conn _ start)
    (client_kept ctx conn start _) ?_
  refine TcpConnection.close_kept (host_keeps ctx conn start).self ?_ (client_kept ctx conn start _)
  intro fd
  apply Kept.bind (io_kept ctx conn start _ (fun _ => True) fun _ _ _ => trivial)
  exact fun _ _ => Kept.pure trivial

theorem handler_body (m : TcpConnection.Method) (pre : (contract delays).pre ctx (.handler conn m) s) :
    wp system (environment delays) (contract delays) ctx (TcpConnection.body (host conn) m)
      (fun _ after => (contract delays).post ctx (.handler conn m) s after)
      (began (.handler conn m) s) := by
  have same : Same s (began (.handler conn m) s) := by cases m <;> exact ⟨rfl,rfl,rfl⟩
  by_cases itself : m = .onClose
  · subst itself
    exact (onClose_keeps ctx conn s).wp _ ⟨pre,same⟩
  · exact body_kept (host_keeps ctx conn s) m itself _ ⟨pre,same⟩ fun _ => trivial

end Handlers

theorem expire_body (conn : Nat) (pre : Valid delays [] s) :
    wp system (environment delays) (contract delays) ctx (expire conn)
      (fun _ after => (contract delays).post ctx (.expire conn) s after) s :=
  (Kept.bind (client_kept ctx conn s _) fun _ _ =>
    handler_kept ctx conn s .onClose (by decide)).wp s ⟨pre,Same.refl s⟩

theorem method_body (m : Method) (pre : (contract delays).pre ctx m s) :
    wp system (environment delays) (contract delays) ctx (body m)
      (fun _ after => (contract delays).post ctx m s after) (began m s) := by
  cases m with
  | insertEntry d e => exact insertEntry_body ctx d e pre
  | runAfter d cb => exact runAfter_body ctx d cb pre
  | runEvery d cb => exact runEvery_body ctx d cb pre
  | onTimer now => exact onTimer_body ctx now pre
  | popUp type => exact popUp_body ctx type pre
  | clear => exact clear_body ctx pre
  | drop e => exact drop_body ctx e pre
  | destroy e => exact destroy_body ctx e pre
  | enableCheckIdleTimeout conn d => exact enableCheckIdleTimeout_body ctx conn d pre
  | extendLife conn => exact pre.elim
  | handler conn m => exact handler_body ctx conn m pre
  | expire conn => exact expire_body ctx conn pre

end Bodies

/-- What the user may call is what the contract is about. -/
theorem user_enters (ctx : List Callback) (m : Method) (s : World)
    (inv : (contract delays).inv ctx s) (allowed : (environment delays).enters ctx s m = true) :
    (contract delays).pre ctx m s := by
  obtain ⟨valid,settled⟩ := inv
  cases m with
  | insertEntry d e =>
    cases e with
    | object id =>
      simp only [environment,Bool.and_eq_true,decide_eq_true_eq,Bool.not_eq_true',
        List.any_eq_false,beq_iff_eq] at allowed
      refine ⟨allowed.1.2,fun zero => ⟨0,zero ▸ allowed.1.1,by decide,rfl⟩,
        ⟨fun _ => allowed.1.1,?_,?_,?_⟩,[],valid,rfl,allowed.2,Or.inl rfl⟩
      · exact fun n number => by cases number
      · exact fun _ _ _ same => by cases same
      · exact fun _ _ same => by cases same
    | _ => simp [environment] at allowed
  | runAfter d cb | runEvery d cb =>
    simp only [environment,Bool.and_eq_true,decide_eq_true_eq] at allowed
    exact ⟨valid,allowed⟩
  | onTimer now =>
    simp only [environment,List.isEmpty_iff] at allowed
    exact ⟨valid,settled allowed⟩
  | enableCheckIdleTimeout conn d =>
    simp only [environment,Bool.and_eq_true,decide_eq_true_eq] at allowed
    exact ⟨valid,allowed.1.1,allowed.1.2⟩
  | handler conn m =>
    cases m with
    | onTimeout => simp [environment] at allowed
    | _ => exact valid
  | expire conn => exact valid
  | _ => simp [environment] at allowed

theorem user_leaves (ctx : List Callback) (m : Method) (s after : World)
    (inv : (contract delays).inv ctx s) (allowed : (environment delays).enters ctx s m = true)
    (done : (contract delays).post ctx m s after) :
    (contract delays).inv ctx after ∧ (contract delays).rely ctx s after := by
  have steady : Same s after → (contract delays).inv ctx after ∧ (contract delays).rely ctx s after := by
    intro same
    refine ⟨⟨done.1,fun outside => ⟨?_,?_⟩⟩,fun _ => same⟩
    · exact same.tmp.trans (inv.2 outside).tmp
    · rw [same.turns,same.tick]
      exact (inv.2 outside).minutes
  cases m with
  | onTimer now =>
    simp only [environment,List.isEmpty_iff] at allowed
    exact ⟨⟨done.1,fun _ => done.2⟩,fun inside => absurd allowed inside⟩
  | popUp type => simp [environment] at allowed
  | clear => simp [environment] at allowed
  | _ => exact steady done.2

theorem timers_sound : (contract delays).Sound system (environment delays) where
  rely_refl := fun _ s _ => Same.refl s
  rely_trans := fun _ _ _ _ first second inside => (first inside).trans (second inside)
  body := fun ctx m _ pre => method_body ctx m pre
  enter := user_enters delays
  leave := user_leaves delays

theorem fresh_valid (s : World) (fresh : Fresh s) : (contract delays).inv [] s := by
  have none : ∀ i, i ∉ s.insertions := fun i => by rw [fresh.insertions]; exact List.not_mem_nil
  have quiet : ∀ r, r ∉ s.released := fun r => by rw [fresh.released]; exact List.not_mem_nil
  have tick : s.wheel.tick_ = 0 := by rw [fresh.wheel]; rfl
  have turns : ∀ type, s.turns type = 0 := fun type => by rw [fresh.turns]
  have empty : ∀ type k x, ¬s.wheel.Has type k x := by
    intro type k x
    rw [fresh.wheel]
    exact not_has_initial
  refine ⟨⟨?_,?_,?_,?_,?_⟩,fun _ => ⟨fresh.tmp,by rw [turns,tick]⟩⟩
  · refine ⟨by rw [turns,tick],by rw [turns,tick]; omega,⟨turns _,turns _⟩,?_,?_,?_,?_,?_,?_,?_⟩
    all_goals exact fun i among => absurd among (none i)
  · refine ⟨by rw [fresh.wheel]; exact initial_sized,fun type k x => ⟨fun has => absurd has (empty type k x),?_⟩⟩
    rintro ⟨i,among,_⟩
    exact absurd among (none i)
  · refine ⟨?_,fun i among => absurd among (none i)⟩
    rintro x (inside | ⟨loosed,_⟩)
    · rw [fresh.tmp] at inside; cases inside
    · cases loosed
  · refine ⟨?_,?_,?_,?_,?_,?_,fun i among => absurd among (none i)⟩
    · exact fun r among => absurd among (quiet r)
    · exact fun r among => absurd among (quiet r)
    · exact fun r among => absurd among (quiet r)
    · exact fun r among => absurd among (quiet r)
    · exact fun r among => absurd among (quiet r)
    · rw [fresh.released]; exact List.nodup_nil
  · refine ⟨?_,?_,?_,?_,?_,fun conn => ?_,by rw [fresh.acts,fresh.released]; rfl⟩
    · exact fun i among => absurd among (none i)
    · exact fun i among => absurd among (none i)
    · exact fun i among => absurd among (none i)
    · exact fun i among => absurd among (none i)
    · exact fun i among => absurd among (none i)
    · rw [fresh.timeouts]
      constructor
      · intro inside; cases inside
      · rintro ⟨r,among,_⟩
        exact absurd among (quiet r)

/-- Whenever the user is in control, the invariant holds; between ticks nothing is popped. -/
theorem timers_invariant (s : World) (c : Config World Query Answer Callback Method)
    (fresh : Fresh s) (reached : system.Reachable (environment delays) s c)
    (controlled : c.controlled) : Valid delays [] c.state ∧ (active c.stack = [] → Settled c.state) :=
  reachable_invariant (timers_sound delays) s c (fresh_valid delays s fresh) reached controlled

/-- Undefined behaviour needs a delay without a part for the second ring. -/
theorem timers_no_fault (s : World) (c : Config World Query Answer Callback Method)
    (fresh : Fresh s) (reached : system.Reachable (environment delays) s c)
    (proper : ¬Bad delays) : c.stack ≠ .code .fault :: rest :=
  reachable_no_fault (timers_sound delays) s c (fresh_valid delays s fresh) reached proper

end Tmms.Network.Timers
