import Tmms.IdleTimeout
import Tmms.TTime

/-! How the wheel tells the time. `OnTimer` compares the reading it is given with the one it
stored last; `Loop` gives it a reading that wraps every 65536 ms, and 0 also stands for
having no reading stored. -/
namespace Tmms.Network.Timers

open Reentrant Base TcpConnection

/-- The two fields of the wheel that `OnTimer` decides by. -/
structure Clock where
  last_ts_ : Int
  tick_ : Nat
  deriving DecidableEq

/-- `OnTimer` without what it lets go of. -/
def Clock.onTimer (k : Clock) (now : Int) : Clock :=
  let last := if k.last_ts_ = 0 then now else k.last_ts_
  if now - last < 1000 then ⟨last,k.tick_⟩ else ⟨now,k.tick_ + 1⟩

def World.clock (s : World) : Clock := ⟨s.wheel.last_ts_,s.wheel.tick_⟩

def readings : List (Move World Query Answer Callback Method) → List Int
  | [] => []
  | .enter (.onTimer now) :: moves => now :: readings moves
  | _ :: moves => readings moves

section Clock
variable (delays : Nat → Bool) (k : Clock)

/-- Between two calls of `OnTimer` nothing touches the clock. -/
def clockContract : Contract World Query Callback Method where
  inv := fun _ s => s.clock = k
  rely := fun _ _ _ => True
  pre := fun _ m s =>
    match m with
    | .onTimer _ => False
    | _ => s.clock = k
  post := fun _ _ _ after => after.clock = k
  asks := fun _ _ _ => True
  mayFault := True

/-- The same use of timers and connections, without ticks. -/
def untimed : Environment World Query Answer Callback Method where
  admits := (environment delays).admits
  enters := fun ctx s m =>
    match m with
    | .onTimer _ => false
    | _ => (environment delays).enters ctx s m

variable {delays k} {s : World} (ctx : List Callback)

theorem insertEntry_clock {w after : TimingWheel} {id d : Nat} {e : EntryPtr}
    (inserted : w.insertEntry id d e = some after) :
    after.last_ts_ = w.last_ts_ ∧ after.tick_ = w.tick_ := by
  have emplaced : ∀ type k x, w.emplace type k x = some after →
      after.last_ts_ = w.last_ts_ ∧ after.tick_ = w.tick_ := by
    intro type k x found
    obtain ⟨wheel,_,rfl⟩ := Option.map_eq_some_iff.mp found
    exact ⟨rfl,rfl⟩
  rw [TimingWheel.insertEntry] at inserted
  split at inserted
  · exact emplaced _ _ _ inserted
  split at inserted
  · exact emplaced _ _ _ inserted
  split at inserted
  · exact emplaced _ _ _ inserted
  split at inserted
  · cases inserted
    exact ⟨rfl,rfl⟩
  · exact emplaced _ _ _ inserted

theorem began_clock (m : Method) (s : World) : (began m s).clock = s.clock := by
  cases m with
  | destroy e => cases e <;> rfl
  | handler conn m => cases m <;> rfl
  | _ => rfl

theorem answered_clock (q : Query) (a : Answer) (s : World) : (answered q a s).clock = s.clock := by
  unfold answered
  split
  · split <;> rfl
  · split <;> rfl
  · rfl

/-- Running another method leaves the clock alone. -/
theorem run_clock (m : Method) (other : ∀ now, m ≠ .onTimer now) :
    Kept system (untimed delays) (clockContract k) ctx (·.clock = k) (Prog.run m) fun _ => True := by
  intro s holds
  constructor
  · cases m with
    | onTimer now => exact absurd rfl (other now)
    | _ => exact holds
  · exact fun after done => ⟨trivial,done⟩

theorem invoke_clock (c : Callback) :
    Kept system (untimed delays) (clockContract k) ctx (·.clock = k) (Prog.invoke c)
      fun _ => True :=
  fun _ holds => ⟨by cases c <;> exact holds,fun _ _ inv => ⟨trivial,inv⟩⟩

theorem modify_clock (f : World → World) (same : ∀ s, (f s).clock = s.clock) :
    Kept system (untimed delays) (clockContract k) ctx (·.clock = k) (Prog.modify f)
      fun _ => True :=
  fun s holds => ⟨trivial,(same s).trans holds⟩

theorem query_clock (q : Query) :
    Kept system (untimed delays) (clockContract k) ctx (·.clock = k) (Prog.query q) fun _ => True :=
  fun s holds => ⟨trivial,fun a _ => ⟨trivial,(answered_clock q a s).trans holds⟩⟩

theorem io_clock (conn : Nat) (q : TcpConnection.Query) (values : Result → Prop)
    (among : ∀ s a, (untimed delays).admits ctx s (.io conn q) a = true → values a.toResult) :
    Kept system (untimed delays) (clockContract k) ctx (·.clock = k) (io conn q) values :=
  fun s holds => ⟨trivial,fun a admitted => ⟨among s a admitted,(answered_clock _ a s).trans holds⟩⟩

theorem client_clock (conn : Nat) (f : Client → Client) :
    Kept system (untimed delays) (clockContract k) ctx (·.clock = k)
      (Prog.modify (·.updateClient conn f)) fun _ => True :=
  modify_clock ctx _ fun _ => rfl

theorem host_clock (conn : Nat) :
    (host conn).Keeps system (untimed delays) (clockContract k) ctx (·.clock = k) fun _ => True where
  self := fun _ holds => ⟨trivial,holds⟩
  update := fun f _ => client_clock ctx conn fun c => { c with connection := f c.connection }
  messageCallback := invoke_clock ctx _
  writeCompleteCallback := invoke_clock ctx _
  write := fun _ _ _ => io_clock ctx conn _ _ fun _ _ _ => trivial
  writev := fun _ vec => io_clock ctx conn _ _ fun _ a admitted => by
    cases a with
    | result r =>
      have bound : r.ret ≤ total vec := by simpa [untimed,environment] using admitted
      exact ⟨bound,fun _ => trivial⟩
    | entry e => cases admitted
  readFd := fun _ => io_clock ctx conn _ _ fun _ _ _ _ => trivial
  enableWriting := fun _ => client_clock ctx conn _
  onClose := fun s holds => run_clock ctx _ (fun _ same => by cases same) s holds.2
  readLoop := run_clock ctx _ fun _ same => by cases same
  writeLoop := run_clock ctx _ fun _ same => by cases same

theorem onClose_clock (conn : Nat) :
    Kept system (untimed delays) (clockContract k) ctx (·.clock = k)
      (TcpConnection.onClose (host conn)) fun _ => True := by
  have keeps : (host conn).Keeps system (untimed delays) (clockContract k) ctx (·.clock = k) fun _ => True :=
    host_clock ctx conn
  apply TcpConnection.onClose_kept keeps.self (invoke_clock ctx _) (client_clock ctx conn _)
  apply TcpConnection.close_kept keeps.self _ (client_clock ctx conn _)
  intro fd
  apply Kept.bind (io_clock ctx conn _ (fun _ => True) fun _ _ _ => trivial)
  exact fun _ _ => Kept.pure trivial

theorem insertEntry_body_clock (d : Nat) (e : EntryPtr) :
    Kept system (untimed delays) (clockContract k) ctx (·.clock = k) (insertEntry d e)
      fun _ => True := by
  intro s holds
  simp only [insertEntry,wp_bind,wp_read]
  split
  · trivial
  · next wheel inserted =>
    obtain ⟨last,tick⟩ := insertEntry_clock inserted
    have same : ({ s with wheel := wheel, made := s.made + 1 } : World).clock = k := by
      rw [← holds,World.clock,last,tick]
      rfl
    exact run_clock ctx (.drop e) (fun _ same => by cases same) _ same

theorem clear_clock :
    Kept system (untimed delays) (clockContract k) ctx (·.clock = k) clear fun _ => True := by
  apply Kept.bind Kept.read
  intro s _
  apply Kept.ite
  · exact fun _ => Kept.pure trivial
  intro _
  apply Kept.bind (query_clock ctx .pick)
  intro a _
  cases a with
  | result r => exact fun _ _ => trivial
  | entry e =>
    refine Kept.bind (modify_clock ctx (fun s => { s with tmp := s.tmp.filter (· ≠ e) }) fun _ => rfl) ?_
    intro _ _
    apply Kept.bind (run_clock ctx _ fun _ same => by cases same)
    exact fun _ _ => run_clock ctx _ fun _ same => by cases same

theorem destroy_clock (e : EntryPtr) :
    Kept system (untimed delays) (clockContract k) ctx (·.clock = k) (destroy e) fun _ => True := by
  cases e with
  | object id => exact invoke_clock ctx _
  | after id cb => exact invoke_clock ctx _
  | every id interval cb =>
    apply Kept.bind (invoke_clock ctx _)
    exact fun _ _ => run_clock ctx _ fun _ same => by cases same
  | cascade id second entry => exact run_clock ctx _ fun _ same => by cases same
  | timeout id conn =>
    apply Kept.bind Kept.read
    intro s _
    apply Kept.ite
    · exact fun _ => run_clock ctx _ fun _ same => by cases same
    · exact fun _ => Kept.pure trivial

theorem extendLife_clock (conn : Nat) :
    Kept system (untimed delays) (clockContract k) ctx (·.clock = k) (extendLife conn)
      fun _ => True := by
  apply Kept.bind Kept.read
  intro s _
  cases (s.clients conn).timeout_entry_ with
  | none => exact Kept.pure trivial
  | some tp =>
    apply Kept.ite
    · exact fun _ => run_clock ctx _ fun _ same => by cases same
    · exact fun _ => Kept.pure trivial

theorem body_clock (m : Method) (other : ∀ now, m ≠ .onTimer now) :
    Kept system (untimed delays) (clockContract k) ctx (·.clock = k) (body m) fun _ => True := by
  have insert : ∀ d e, Kept system (untimed delays) (clockContract k) ctx (·.clock = k)
      (Prog.run (.insertEntry d e)) fun _ => True :=
    fun d e => run_clock ctx _ fun _ same => by cases same
  cases m with
  | insertEntry d e => exact insertEntry_body_clock ctx d e
  | runAfter d cb | runEvery d cb =>
    apply Kept.bind Kept.read
    intro s _
    refine Kept.bind (modify_clock ctx (fun s => { s with made := s.made + 1 }) fun _ => rfl) ?_
    exact fun _ _ => insert d _
  | onTimer now => exact absurd rfl (other now)
  | popUp type =>
    refine Kept.bind (modify_clock ctx _ ?_) ?_
    · exact fun _ => rfl
    · exact fun _ _ => run_clock ctx _ fun _ same => by cases same
  | clear => exact clear_clock ctx
  | drop e =>
    apply Kept.bind Kept.read
    intro s _
    apply Kept.ite
    · exact fun _ => Kept.pure trivial
    · exact fun _ => run_clock ctx _ fun _ same => by cases same
  | destroy e => exact destroy_clock ctx e
  | enableCheckIdleTimeout conn d =>
    apply Kept.bind Kept.read
    intro s _
    refine Kept.bind (modify_clock ctx (fun s => { s with made := s.made + 1 }) fun _ => rfl) ?_
    intro _ _
    apply Kept.bind (client_clock ctx conn _)
    exact fun _ _ => insert d _
  | extendLife conn => exact extendLife_clock ctx conn
  | handler conn m =>
    by_cases itself : m = .onClose
    · subst itself
      exact onClose_clock ctx conn
    · intro s holds
      have keeps : (host conn).Keeps system (untimed delays) (clockContract k) ctx (·.clock = k) fun _ => True :=
        host_clock ctx conn
      have kept := body_kept keeps m itself s holds fun _ => trivial
      exact wp_mono kept fun _ _ same => ⟨trivial,same⟩
  | expire conn =>
    apply Kept.bind (client_clock ctx conn _)
    exact fun _ _ => run_clock ctx _ fun _ same => by cases same

theorem clock_sound : (clockContract k).Sound system (untimed delays) where
  rely_refl := fun _ _ => trivial
  rely_trans := fun _ _ _ _ _ _ => trivial
  body := by
    intro ctx m s pre
    have other : ∀ now, m ≠ .onTimer now := by
      rintro now rfl
      exact pre
    have holds : s.clock = k := by
      cases m with
      | onTimer now => exact absurd rfl (other now)
      | _ => exact pre
    exact (body_clock ctx m other).wp _ ((began_clock m s).trans holds)
  enter := by
    intro ctx m s inv allowed
    cases m with
    | onTimer now => cases allowed
    | _ => exact inv
  leave := fun _ _ _ _ _ _ done => ⟨done,trivial⟩

/-- `OnTimer` decides by the clock alone, and what it lets go of leaves the clock. -/
theorem onTimer_clock (now : Int) (s : World) :
    wp system (untimed delays) (clockContract (s.clock.onTimer now)) [] (onTimer now)
      (fun _ after => after.clock = s.clock.onTimer now) s := by
  have popUp : ∀ type, Kept system (untimed delays) (clockContract (s.clock.onTimer now)) []
      (·.clock = s.clock.onTimer now) (Prog.run (.popUp type)) fun _ => True :=
    fun type => run_clock [] _ fun _ same => by cases same
  have seen : (if s.wheel.last_ts_ = 0 then { s with wheel := { s.wheel with last_ts_ := now } }
      else s).clock = ⟨if s.clock.last_ts_ = 0 then now else s.clock.last_ts_,s.clock.tick_⟩ := by
    by_cases unset : s.wheel.last_ts_ = 0
    · simp [World.clock,unset]
    · simp [World.clock,unset]
  rw [onTimer,wp_bind,wp_modify]
  revert seen
  generalize (if s.wheel.last_ts_ = 0 then { s with wheel := { s.wheel with last_ts_ := now } }
    else s) = first
  intro seen
  have last : first.wheel.last_ts_ = if s.clock.last_ts_ = 0 then now else s.clock.last_ts_ :=
    congrArg Clock.last_ts_ seen
  have tick : first.wheel.tick_ = s.clock.tick_ := congrArg Clock.tick_ seen
  simp only [wp_bind,wp_read,wp_ite,wp_pure,wp_modify]
  constructor
  · intro early
    rw [last] at early
    exact seen.trans (if_pos early).symm
  · intro due
    have ticked : s.clock.onTimer now = ⟨now,s.clock.tick_ + 1⟩ := by
      rw [last] at due
      exact if_neg due
    apply wp_mono (popUp .kTimingTypeSecond _ _)
    · intro _ middle kept
      have coarse : Kept system (untimed delays) (clockContract (s.clock.onTimer now)) []
          (·.clock = s.clock.onTimer now) (do
            let s ← Prog.read
            if s.wheel.tick_ % kTimingMinute = 0 then Prog.run (.popUp .kTimingTypeMinute)
            else if s.wheel.tick_ % kTimingHour = 0 then Prog.run (.popUp .kTimingTypeHour)
            else if s.wheel.tick_ % kTimingDay = 0 then Prog.run (.popUp .kTimingTypeDay))
          fun _ => True := by
        apply Kept.bind Kept.read
        intro s _
        apply Kept.ite
        · exact fun _ => popUp _
        intro _
        apply Kept.ite
        · exact fun _ => popUp _
        intro _
        apply Kept.ite
        · exact fun _ => popUp _
        · exact fun _ => Kept.pure trivial
      exact (wp_bind _ _ _ _ _ _ _ _).mp (coarse.wp middle kept.2)
    · rw [ticked,World.clock,tick]

/-- A move other than a tick is one the untimed environment lets happen. -/
theorem step_untimed (c next : Config World Query Answer Callback Method)
    (move : Move World Query Answer Callback Method) (other : ∀ now, move ≠ .enter (.onTimer now))
    (stepped : system.step (environment delays) c move = some next) :
    system.step (untimed delays) c move = some next := by
  rw [← stepped]
  symm
  apply system.step_congr
  · rfl
  rintro m rfl
  cases m with
  | onTimer now => exact absurd rfl (other now)
  | _ => rfl

/-- A tick starts where nothing else is going on. -/
theorem step_onTimer (c next : Config World Query Answer Callback Method) (now : Int)
    (stepped : system.step (environment delays) c (.enter (.onTimer now)) = some next) :
    c.stack = [] ∧ next = ⟨c.state,[.code (onTimer now)]⟩ := by
  obtain ⟨s,stack⟩ := c
  match stack with
  | [] =>
    cases stepped
    exact ⟨rfl,rfl⟩
  | .user t :: rest => cases stepped
  | .code p :: rest => cases p <;> cases stepped

/-- What a stack promises of the clock, over a run: each reading is taken once. -/
theorem exec_clock (moves : List (Move World Query Answer Callback Method))
    (c final : Config World Query Answer Callback Method)
    (holds : Holds system (untimed delays) (clockContract k) c.stack c.state)
    (ran : system.exec (environment delays) moves c = some final) :
    Holds system (untimed delays) (clockContract ((readings moves).foldl Clock.onTimer k))
      final.stack final.state := by
  induction moves generalizing c k with
  | nil =>
    cases ran
    exact holds
  | cons move moves ih =>
    obtain ⟨next,stepped,rest⟩ := Option.bind_eq_some_iff.mp ran
    by_cases tick : ∃ now, move = .enter (.onTimer now)
    · obtain ⟨now,rfl⟩ := tick
      obtain ⟨idle,rfl⟩ := step_onTimer c next now stepped
      rw [idle] at holds
      have clock : c.state.clock = k := holds
      apply ih _ _ rest
      rw [← clock]
      exact onTimer_clock now c.state
    · have other : ∀ now, move ≠ .enter (.onTimer now) := fun now same => tick ⟨now,same⟩
      have same : readings (move :: moves) = readings moves := by
        cases move with
        | enter m =>
          cases m with
          | onTimer now => exact absurd rfl (other now)
          | _ => rfl
        | _ => rfl
      rw [same]
      exact ih _ (holds_step clock_sound c next move holds (step_untimed c next move other stepped)) rest

/-- Whenever the user is in control, the clock is what the readings so far have made of it. -/
theorem clock_readings (moves : List (Move World Query Answer Callback Method))
    (c final : Config World Query Answer Callback Method) (idle : c.stack = [])
    (ran : system.exec (environment delays) moves c = some final) (controlled : final.controlled) :
    final.state.clock = (readings moves).foldl Clock.onTimer c.state.clock := by
  have start : Holds system (untimed delays) (clockContract c.state.clock) c.stack c.state := by
    rw [idle]
    rfl
  exact holds_controlled final.stack final.state controlled (exec_clock moves c final start ran)

end Clock

/-- The real times behind what the wheel stores: of the reading in `last_ts_`, and of the
reading of the previous tick or, before any, the first one. -/
structure Polls where
  clock : Clock
  stored : Int
  since : Option Int

def Polls.initial : Polls := ⟨⟨0,0⟩,0,none⟩

def Polls.poll (p : Polls) (t : Int) : Polls :=
  let clock := p.clock.onTimer (nowMs t)
  if clock.tick_ = p.clock.tick_ then
    ⟨clock,if p.clock.last_ts_ = 0 then t else p.stored,p.since.or (some t)⟩
  else ⟨clock,t,some t⟩

def polled (times : List Int) : Polls := times.foldl Polls.poll .initial

theorem poll_clock (p : Polls) (t : Int) : (p.poll t).clock = p.clock.onTimer (nowMs t) := by
  simp only [Polls.poll]
  split <;> rfl

theorem polled_clock (times : List Int) :
    (polled times).clock = (times.map nowMs).foldl Clock.onTimer ⟨0,0⟩ := by
  have fold : ∀ (times : List Int) (p : Polls),
      (times.foldl Polls.poll p).clock = (times.map nowMs).foldl Clock.onTimer p.clock := by
    intro times
    induction times with
    | nil => exact fun p => rfl
    | cons t times ih =>
      intro p
      rw [List.foldl_cons,ih,poll_clock]
      rfl
  exact fold times .initial

/-- What the stored reading says of real time. -/
structure Polls.Sees (p : Polls) (latest : Int) : Prop where
  fresh : p.since = none → p.clock.last_ts_ = 0
  last : ∀ r, p.since = some r → p.clock.last_ts_ = nowMs p.stored
  reference : ∀ r, p.since = some r → r ≤ p.stored ∧ p.stored ≤ latest
  same : ∀ r, p.since = some r → nowMs r ≠ 0 → p.stored = r

/-- What `OnTimer` does with a reading. -/
theorem onTimer_cases (k : Clock) (now : Int) :
    k.last_ts_ = 0 ∧ k.onTimer now = ⟨now,k.tick_⟩ ∨
    k.last_ts_ ≠ 0 ∧ now - k.last_ts_ < 1000 ∧ k.onTimer now = k ∨
    k.last_ts_ ≠ 0 ∧ 1000 ≤ now - k.last_ts_ ∧ k.onTimer now = ⟨now,k.tick_ + 1⟩ := by
  by_cases unset : k.last_ts_ = 0
  · left
    simp [Clock.onTimer,unset]
  · right
    by_cases early : now - k.last_ts_ < 1000
    · left
      simp [Clock.onTimer,unset,early]
    · right
      simp only [Clock.onTimer,if_neg unset,if_neg early]
      exact ⟨unset,by omega,trivial⟩

theorem poll_sees (p : Polls) (latest t : Int) (sees : p.Sees latest) (later : latest ≤ t) :
    (p.poll t).Sees t := by
  rcases onTimer_cases p.clock (nowMs t) with ⟨unset,took⟩ | ⟨set,_,took⟩ | ⟨_,_,took⟩
  · have polled : p.poll t = ⟨⟨nowMs t,p.clock.tick_⟩,t,p.since.or (some t)⟩ := by
      simp [Polls.poll,took,unset]
    rw [polled]
    cases since : p.since with
    | none =>
      constructor
      · exact fun none => by cases none
      · exact fun _ _ => rfl
      · rintro r ⟨⟩
        exact ⟨Int.le_refl _,Int.le_refl _⟩
      · rintro r ⟨⟩ _
        rfl
    | some first =>
      obtain ⟨early,bound⟩ := sees.reference first since
      constructor
      · exact fun none => by cases none
      · exact fun _ _ => rfl
      · rintro r ⟨⟩
        exact ⟨early.trans (bound.trans later),Int.le_refl _⟩
      · rintro r ⟨⟩ some
        rw [sees.last first since,sees.same first since some] at unset
        exact absurd unset some
  · obtain ⟨first,since⟩ : ∃ r, p.since = some r := by
      rw [← Option.ne_none_iff_exists']
      exact fun none => set (sees.fresh none)
    have polled : p.poll t = p := by
      simp [Polls.poll,took,set,since]
      rw [← since]
    rw [polled]
    constructor
    · exact sees.fresh
    · exact sees.last
    · exact fun r since => ⟨(sees.reference r since).1,(sees.reference r since).2.trans later⟩
    · exact sees.same
  · have polled : p.poll t = ⟨⟨nowMs t,p.clock.tick_ + 1⟩,t,some t⟩ := by
      simp [Polls.poll,took]
    rw [polled]
    constructor
    · exact fun none => by cases none
    · exact fun _ _ => rfl
    · rintro r ⟨⟩
      exact ⟨Int.le_refl _,Int.le_refl _⟩
    · rintro r ⟨⟩ _
      rfl

/-- On a clock that does not go back, up to any later time. -/
theorem polled_sees (times : List Int) (t : Int) (ordered : (times ++ [t]).Pairwise (· ≤ ·)) :
    (polled times).Sees t := by
  induction times using List.reverseRecOn generalizing t with
  | nil =>
    constructor
    · exact fun _ => rfl
    all_goals exact fun _ none => by cases none
  | append_singleton times latest ih =>
    rw [List.append_assoc,List.pairwise_append] at ordered
    have later : latest ≤ t := by simpa using ordered.2.1
    have before : (times ++ [latest]).Pairwise (· ≤ ·) := by
      rw [List.pairwise_append]
      exact ⟨ordered.1,by simp,fun a among b inside => ordered.2.2 a among b (by simp_all)⟩
    have sees := poll_sees (polled times) latest latest (ih latest before) (Int.le_refl _)
    rw [polled,List.foldl_append]
    exact ⟨sees.fresh,sees.last,fun r since => ⟨(sees.reference r since).1,(sees.reference r since).2.trans later⟩,sees.same⟩

theorem onTimer_advances (k : Clock) (now : Int) :
    k.tick_ < (k.onTimer now).tick_ ↔ k.last_ts_ ≠ 0 ∧ 1000 ≤ now - k.last_ts_ := by
  rcases onTimer_cases k now with ⟨unset,took⟩ | ⟨_,early,took⟩ | ⟨set,due,took⟩
  · simp [took,unset]
  · rw [took]
    omega
  · simp [took,set,due]

/-- A stored reading from the last second before the wrap is never left behind. -/
theorem onTimer_stuck (k : Clock) (late : 31767 < k.last_ts_) (now : Int) (reading : now < 2^15) :
    k.onTimer now = k := by
  rcases onTimer_cases k now with ⟨unset,_⟩ | ⟨_,_,took⟩ | ⟨_,due,_⟩
  · omega
  · exact took
  · omega

theorem stuck_readings (k : Clock) (late : 31767 < k.last_ts_) (values : List Int)
    (read : ∀ value ∈ values, ∃ t, value = nowMs t) : values.foldl Clock.onTimer k = k := by
  induction values with
  | nil => rfl
  | cons value values ih =>
    obtain ⟨t,now⟩ := read value List.mem_cons_self
    have small : value < 2^15 := now ▸ (int16_range t).2
    rw [List.foldl_cons,onTimer_stuck k late value small]
    exact ih fun value among => read value (List.mem_cons_of_mem _ among)

/-- A loop that has polled at `times` polls at `t`, the previous tick (or the first reading)
having been at `r`. The stored reading was made at some `b`, which is `r` unless the reading
at `r` was 0. A due poll ticks if and only if a reading is stored and its clock has not lost
the second to a wrap; a stored reading above 31767 ends the ticks for good. -/
theorem due_poll_ticks (delays : Nat → Bool) (s : World)
    (c d : Config World Query Answer Callback Method) (fresh : Fresh s)
    (before after : List (Move World Query Answer Callback Method)) (times : List Int) (t r : Int)
    (ran : system.exec (environment delays) before ⟨s,[]⟩ = some c) (idle : c.stack = [])
    (read : readings before = times.map nowMs) (ordered : (times ++ [t]).Pairwise (· ≤ ·))
    (since : (polled times).since = some r)
    (went : system.exec (environment delays) after c = some d) (controlled : d.controlled)
    (poll : readings after = [nowMs t]) :
    (∃ b, c.state.wheel.last_ts_ = nowMs b ∧ r ≤ b ∧ b ≤ t ∧ (nowMs r ≠ 0 → b = r) ∧
      ((r + 1000 ≤ t → c.state.wheel.tick_ < d.state.wheel.tick_) ↔
        (r + 1000 ≤ t → nowMs b ≠ 0 ∧ 1000 + 2^16 * (wraps t - wraps b) ≤ t - b))) ∧
    (31767 < c.state.wheel.last_ts_ → ∀ later e,
      system.exec (environment delays) later c = some e → e.controlled →
      (∀ value ∈ readings later, ∃ u, value = nowMs u) →
      e.state.wheel.tick_ = c.state.wheel.tick_) := by
  have start : s.clock = ⟨0,0⟩ := by
    rw [World.clock,fresh.wheel]
    rfl
  have quiet : c.controlled := Config.controlled_of_nil idle
  have clock : c.state.clock = (polled times).clock := by
    rw [clock_readings before ⟨s,[]⟩ c rfl ran quiet,read,polled_clock]
    exact congrArg (List.foldl Clock.onTimer · _) start
  have sees := polled_sees times t ordered
  constructor
  · have last : c.state.wheel.last_ts_ = nowMs (polled times).stored :=
      (congrArg Clock.last_ts_ clock).trans (sees.last r since)
    obtain ⟨early,late⟩ := sees.reference r since
    refine ⟨(polled times).stored,last,early,late,sees.same r since,?_⟩
    apply imp_congr_right
    intro _
    have ticked : d.state.clock = c.state.clock.onTimer (nowMs t) := by
      rw [clock_readings after c d idle went controlled,poll]
      rfl
    have advances := onTimer_advances c.state.clock (nowMs t)
    rw [← ticked] at advances
    apply advances.trans
    change c.state.wheel.last_ts_ ≠ 0 ∧ 1000 ≤ nowMs t - c.state.wheel.last_ts_ ↔ _
    rw [last]
    apply and_congr_right'
    rw [nowMs,nowMs,int16_eq t,int16_eq (polled times).stored]
    omega
  · intro stuck later e final controlled values
    have same := clock_readings later c e idle final controlled
    rw [stuck_readings c.state.clock stuck _ values] at same
    exact congrArg Clock.tick_ same

def firstPoll : List (Move World Query Answer Callback Method) :=
  .enter (.onTimer (nowMs 2000)) :: List.replicate 4 .advance

theorem due_poll_ticks_first :
    ∃ c d : Config World Query Answer Callback Method, c.state.wheel.tick_ < d.state.wheel.tick_ ∧
    ((∃ b, c.state.wheel.last_ts_ = nowMs b ∧ 2000 ≤ b ∧ b ≤ 3500 ∧ (nowMs 2000 ≠ 0 → b = 2000) ∧
      ((2000 + 1000 ≤ (3500 : Int) → c.state.wheel.tick_ < d.state.wheel.tick_) ↔
        ((2000 : Int) + 1000 ≤ 3500 → nowMs b ≠ 0 ∧ 1000 + 2^16 * (wraps 3500 - wraps b) ≤ 3500 - b))) ∧
    (31767 < c.state.wheel.last_ts_ → ∀ later e,
      system.exec (environment short) later c = some e → e.controlled →
      (∀ value ∈ readings later, ∃ u, value = nowMs u) →
      e.state.wheel.tick_ = c.state.wheel.tick_)) := by
  refine ⟨_,_,?_,due_poll_ticks short start _ _ start_fresh firstPoll
    (.enter (.onTimer (nowMs 3500)) :: List.replicate 14 .advance) [2000] 3500 2000 rfl ?_ rfl ?_ rfl rfl ?_ rfl⟩
  · decide
  · rfl
  · decide
  · trivial

/-- A poll at 32000 ms, then one at 33000: the wheel does not tick, and will not again. -/
theorem due_poll_lost :
    ∃ (c d : Config World Query Answer Callback Method)
      (before after : List (Move World Query Answer Callback Method)),
      system.exec (environment short) before ⟨start,[]⟩ = some c ∧ c.stack = [] ∧
      readings before = [32000].map nowMs ∧
      system.exec (environment short) after c = some d ∧ d.stack = [] ∧
      readings after = [nowMs 33000] ∧ (polled [32000]).since = some 32000 ∧
      d.state.wheel.tick_ = c.state.wheel.tick_ ∧ 31767 < d.state.wheel.last_ts_ := by
  refine ⟨_,_,.enter (.onTimer (nowMs 32000)) :: List.replicate 4 .advance,
    .enter (.onTimer (nowMs 33000)) :: List.replicate 4 .advance,rfl,rfl,?_,rfl,rfl,?_⟩
  · decide
  · decide

end Tmms.Network.Timers
