import Tmms.TimerFiring

/-! Timers of a minute or more. The minute ring turns at whole minutes, whenever an insertion
was made, so the time since the last turn is taken off such a delay; what is left after the
turn goes to the second ring, unless nothing is left. The hour and day rings never turn. -/
namespace Tmms.Network.Timers

open Reentrant TimingWheel

section Cascade
variable {delays : Nat → Bool} {s : World}

theorem out_eq {i : Insertion} (minutes : 60 ≤ i.delay ∧ i.delay < 3600) :
    i.out = 60 * (i.turns + i.delay / 60) ∧ i.rest = i.delay % 60 ∧
      i.due = 60 * (i.turns + i.delay / 60) + i.delay % 60 := by
  have ring := Insertion.ring_minute.mpr minutes
  have out : i.out = 60 * (i.turns + i.delay / 60) := by
    rw [Insertion.out,Insertion.turn,ring]
    rfl
  have rest : i.rest = i.delay % 60 := by
    rw [Insertion.rest,ring]
    rfl
  refine ⟨out,rest,?_⟩
  rw [Insertion.due,if_neg (by omega),out,rest]

/-- A minute timer comes due early by the time since the last turn of its ring. -/
theorem due_minutes (valid : Valid delays [] s) (i : Insertion) (among : i ∈ s.insertions)
    (minutes : 60 ≤ i.delay ∧ i.delay < 3600) :
    i.due + (i.at_ - 60 * i.turns) = i.at_ + i.delay := by
  have phase := valid.logged.minute_turns i among (Insertion.ring_minute.mpr minutes)
  rw [(out_eq minutes).2.2]
  omega

theorem due_le (valid : Valid delays [] s) (i : Insertion) (among : i ∈ s.insertions)
    (bound : i.delay < 3600) : i.due ≤ i.at_ + i.delay := by
  by_cases short : i.delay < 60
  · rw [Insertion.due,if_pos short]
  · have := due_minutes valid i among ⟨by omega,bound⟩
    omega

/-- A timer of an hour or more stays in its ring. -/
theorem hours_kept (valid : Valid delays [] s) (i : Insertion) (among : i ∈ s.insertions)
    (long : 3600 ≤ i.delay) (accepted : ¬refused i.delay) (r : Release)
    (released : r ∈ s.released) : r.entry ≠ i.entry := by
  intro same
  rcases valid.past.last r released i among same.symm with beyond | ⟨bound,_⟩
  · exact accepted beyond
  · omega

/-- An entry none of whose insertions is for an hour or more is destroyed in time. -/
theorem minutes_released (valid : Valid delays [] s) (settled : Settled s) (i : Insertion)
    (among : i ∈ s.insertions) (brief : ∀ j ∈ s.insertions, j.entry = i.entry → j.delay < 3600)
    (passed : latest i.entry s ≤ s.wheel.tick_) :
    ∃ r ∈ s.released, r.entry = i.entry ∧ r.at_ ≤ latest i.entry s := by
  have accepted := not_refused_of_lt (brief i among rfl)
  rcases valid.past.live i among accepted with owned | ⟨r,released,same⟩ | ⟨x,loose,_⟩
  · rw [owned_iff] at owned
    rcases owned with ⟨type,k,x,has,holds⟩ | ⟨x,inside,_⟩
    · obtain ⟨j,other,ring,_,turn,rfl⟩ := (valid.rings.has_iff _ _ _).mp has
      have same := Insertion.holds_of_what (valid.logged.plain j other) (valid.logged.plain i among) holds
      have bound := brief j other same
      have asked := le_latest j other same
      have due := due_le valid j other bound
      by_cases seconds : j.delay < 60
      · rw [turn_second valid.logged other seconds,← ring,Insertion.ring_second.mpr seconds,
          valid.logged.seconds] at turn
        omega
      · have minutes : 60 ≤ j.delay ∧ j.delay < 3600 := ⟨by omega,bound⟩
        have minute := Insertion.ring_minute.mpr minutes
        have waits : j.turns + j.delay / 60 = s.turns .kTimingTypeMinute + 1 + k := by
          rw [← ring,minute,Insertion.turn,minute] at turn
          exact turn
        rw [(out_eq minutes).2.2,waits,settled.minutes] at due
        omega
    · rw [settled.tmp] at inside
      cases inside
  · refine ⟨r,released,same,?_⟩
    obtain ⟨j,other,entry,⟨seconds,due⟩ | ⟨_,beyond⟩⟩ := valid.past.first r released
    · rw [Insertion.due,if_pos seconds] at due
      rw [← due]
      exact le_latest j other (entry.trans same)
    · exact absurd (beyond i among same.symm) accepted
  · cases loose

/-- Where nothing is left for the second ring, no run gets past the turn. -/
theorem whole_minutes_stuck (valid : Valid delays [] s) (settled : Settled s) (i : Insertion)
    (among : i ∈ s.insertions) (minutes : 60 ≤ i.delay ∧ i.delay < 3600) (whole : i.delay % 60 = 0) :
    s.wheel.tick_ < 60 * (i.turns + i.delay / 60) := by
  have ring := Insertion.ring_minute.mpr minutes
  by_contra past
  have turned : i.turn ≤ s.turns i.ring := by
    rw [ring,settled.minutes,Insertion.turn,ring]
    simp only [unit,kTimingMinute]
    omega
  rcases valid.pending.log_out i among (by omega) (not_refused_of_lt minutes.2) turned
    with ⟨_,inside | loose⟩ | ⟨j,other,_,rest,_⟩
  · rw [settled.tmp] at inside
    cases inside
  · cases loose
  · have positive := valid.logged.positive j other
    rw [rest,(out_eq minutes).2.1,whole] at positive
    cases positive

end Cascade

/-- A timer of an hour or more does not fire at all, and a shorter one set right after a turn
of the minute ring does not fire early; any other fires early by the time since that turn,
unless its entry is inserted again for later. -/
theorem long_timers_not_early (delays : Nat → Bool) (s : World)
    (c : Config World Query Answer Callback Method) (fresh : Fresh s)
    (reached : system.Reachable (environment delays) s c) (controlled : c.controlled)
    (i : Insertion) (inserted : i ∈ c.state.insertions)
    (long : 60 ≤ i.delay ∧ i.delay < 31 * 86400) (r : Release) (released : r ∈ c.state.released)
    (same : r.entry = i.entry) :
    (3600 ≤ i.delay ∨ i.at_ = 60 * i.turns → i.at_ + i.delay ≤ r.at_) ∧
      (¬(3600 ≤ i.delay ∨ i.at_ = 60 * i.turns) →
        (∀ j ∈ c.state.insertions, j.entry = i.entry → j.due ≤ i.due) →
        r.at_ + (i.at_ - 60 * i.turns) = i.at_ + i.delay ∧ r.at_ < i.at_ + i.delay) := by
  obtain ⟨valid,_⟩ := timers_invariant delays s c fresh reached controlled
  have accepted : ¬refused i.delay := by
    simp only [refused,kTimingDay]
    omega
  obtain ⟨bound,due⟩ := (valid.past.last r released i inserted same.symm).resolve_left accepted
  have early := due_minutes valid i inserted ⟨long.1,bound⟩
  have phase := valid.logged.minute_turns i inserted (Insertion.ring_minute.mpr ⟨long.1,bound⟩)
  constructor
  · intro right
    rcases right with hours | aligned
    · omega
    · omega
  · intro wrong last
    have when : r.at_ ≤ i.due := by
      obtain ⟨j,other,entry,⟨_,at_⟩ | ⟨_,beyond⟩⟩ := valid.past.first r released
      · rw [← at_]
        exact last j other (entry.trans same)
      · exact absurd (beyond i inserted same.symm) accepted
    omega

def anyDelay (_ : Nat) : Bool := true

def seconds (first count : Nat) : List (Move World Query Answer Callback Method) :=
  (List.range count).map fun k => .enter (.onTimer (1000 * (first + k + 1 : Nat)))

def minuteRun (at_ : Nat) : Option (Config World Query Answer Callback Method) :=
  system.play (environment anyDelay) 60
    (seconds 0 (at_ + 1) ++ [.enter (.insertEntry 61 (.object 7))] ++
      seconds (at_ + 1) (60 - at_) ++ [.answer (.entry (.cascade 0 1 (.object 7)))] ++
      seconds 61 1 ++ [.answer (.entry (.object 7)),.leave]) ⟨start,[]⟩

def outcome (c : Config World Query Answer Callback Method) :
    List Insertion × List Release × Nat :=
  (c.state.insertions,c.state.released,c.stack.length)

theorem minuteRun_zero : (minuteRun 0).map outcome =
    some ([⟨1,.object 7,60,1,60⟩,⟨0,.object 7,0,61,0⟩],[⟨.object 7,61,true⟩],0) := by
  decide +kernel

theorem minuteRun_one : (minuteRun 1).map outcome =
    some ([⟨1,.object 7,60,1,60⟩,⟨0,.object 7,1,61,0⟩],[⟨.object 7,61,true⟩],0) := by
  decide +kernel

/-- 61 seconds from tick 0 end at tick 61. -/
theorem long_timers_not_early_aligned :
    ∃ (c : Config World Query Answer Callback Method) (i : Insertion) (r : Release),
      (i.at_ = 0 ∧ i.delay = 61 ∧ r.at_ = 61) ∧
      (3600 ≤ i.delay ∨ i.at_ = 60 * i.turns → i.at_ + i.delay ≤ r.at_) ∧
      (¬(3600 ≤ i.delay ∨ i.at_ = 60 * i.turns) →
        (∀ j ∈ c.state.insertions, j.entry = i.entry → j.due ≤ i.due) →
        r.at_ + (i.at_ - 60 * i.turns) = i.at_ + i.delay ∧ r.at_ < i.at_ + i.delay) := by
  obtain ⟨⟨s,stack⟩,played,ended⟩ := Option.map_eq_some_iff.mp minuteRun_zero
  simp only [outcome,Prod.mk.injEq,List.length_eq_zero_iff] at ended
  obtain ⟨insertions,released,rfl⟩ := ended
  have reached := system.play_reachable (environment anyDelay) 60 _ start _ played
  refine ⟨⟨s,[]⟩,⟨0,.object 7,0,61,0⟩,⟨.object 7,61,true⟩,⟨rfl,rfl,rfl⟩,
    long_timers_not_early anyDelay start _ start_fresh reached trivial _ ?_ ⟨?_,?_⟩ _ ?_ rfl⟩
  · simp [insertions]
  · decide
  · decide
  · simp [released]

/-- 61 seconds from tick 1 end at tick 61 as well, a second early. -/
theorem long_timer_early :
    ∃ (c : Config World Query Answer Callback Method) (i : Insertion) (r : Release),
      system.Reachable (environment anyDelay) start c ∧ i ∈ c.state.insertions ∧
      r ∈ c.state.released ∧ r.entry = i.entry ∧ i.delay = 61 ∧ i.at_ = 1 ∧ r.at_ = 61 ∧
      ¬i.at_ + i.delay ≤ r.at_ := by
  obtain ⟨⟨s,stack⟩,played,ended⟩ := Option.map_eq_some_iff.mp minuteRun_one
  simp only [outcome,Prod.mk.injEq,List.length_eq_zero_iff] at ended
  obtain ⟨insertions,released,rfl⟩ := ended
  have reached := system.play_reachable (environment anyDelay) 60 _ start _ played
  refine ⟨⟨s,[]⟩,⟨0,.object 7,1,61,0⟩,⟨.object 7,61,true⟩,reached,?_,?_,rfl,rfl,rfl,rfl,by decide⟩
  · simp [insertions]
  · simp [released]

/-- Between ticks, an accepted timer of an hour or more has not fired, however many ticks have
passed; one whose delay leaves nothing for the second ring keeps the run from ever passing
its turn. All others have fired once the latest tick asked for has passed, and without a
delay of the second kind nothing undefined happens. -/
theorem accepted_timers_released (delays : Nat → Bool) (s : World)
    (c : Config World Query Answer Callback Method) (fresh : Fresh s)
    (reached : system.Reachable (environment delays) s c) :
    (¬Bad delays → ∀ rest, c.stack ≠ .code .fault :: rest) ∧
    (c.stack = [] → ∀ i ∈ c.state.insertions, ¬refused i.delay →
      (3600 ≤ i.delay → ∀ r ∈ c.state.released, r.entry ≠ i.entry) ∧
      (60 ≤ i.delay ∧ i.delay < 3600 → i.delay % 60 = 0 → c.state.wheel.tick_ < i.at_ + i.delay) ∧
      ((∀ j ∈ c.state.insertions, j.entry = i.entry → j.delay < 3600) →
        latest i.entry c.state ≤ c.state.wheel.tick_ →
        ∃ r ∈ c.state.released, r.entry = i.entry ∧ r.at_ ≤ latest i.entry c.state)) := by
  constructor
  · exact fun proper rest => timers_no_fault delays s c fresh reached proper
  intro outside i inserted accepted
  have controlled : c.controlled := Config.controlled_of_nil outside
  obtain ⟨valid,settled⟩ := timers_invariant delays s c fresh reached controlled
  have settled := settled (by rw [outside]; rfl)
  refine ⟨fun long => hours_kept valid i inserted long accepted,fun minutes whole => ?_,?_⟩
  · have stuck := whole_minutes_stuck valid settled i inserted minutes whole
    have phase := valid.logged.minute_turns i inserted (Insertion.ring_minute.mpr minutes)
    omega
  · exact minutes_released valid settled i inserted

/-- 61 seconds from tick 0 have passed at tick 61. -/
theorem accepted_timers_released_minute :
    ∃ c : Config World Query Answer Callback Method, c.state.released = [⟨.object 7,61,true⟩] ∧
    (¬Bad anyDelay → ∀ rest, c.stack ≠ .code .fault :: rest) ∧
    (c.stack = [] → ∀ i ∈ c.state.insertions, ¬refused i.delay →
      (3600 ≤ i.delay → ∀ r ∈ c.state.released, r.entry ≠ i.entry) ∧
      (60 ≤ i.delay ∧ i.delay < 3600 → i.delay % 60 = 0 → c.state.wheel.tick_ < i.at_ + i.delay) ∧
      ((∀ j ∈ c.state.insertions, j.entry = i.entry → j.delay < 3600) →
        latest i.entry c.state ≤ c.state.wheel.tick_ →
        ∃ r ∈ c.state.released, r.entry = i.entry ∧ r.at_ ≤ latest i.entry c.state)) := by
  obtain ⟨c,played,ended⟩ := Option.map_eq_some_iff.mp minuteRun_zero
  simp only [outcome,Prod.mk.injEq] at ended
  have reached := system.play_reachable (environment anyDelay) 60 _ start _ played
  exact ⟨c,ended.2.1,accepted_timers_released anyDelay start c start_fresh reached⟩

section Waiting
variable (delays : Nat → Bool) (s : World)

structure Uneventful (s after : World) : Prop where
  tmp : after.tmp = []
  tick : after.wheel.tick_ = s.wheel.tick_
  last : after.wheel.last_ts_ = s.wheel.last_ts_
  insertions : after.insertions = s.insertions
  released : after.released = s.released

theorem popUp_idle (type : TImingType) (front : ∀ x, ¬s.wheel.Has type 0 x) :
    ∃ after, system.Completes (environment delays) [] (Prog.run (.popUp type)) s () after ∧
      Uneventful s after ∧ after.wheel = (s.wheel.popUp type).2 := by
  have empty : (s.wheel.popUp type).1 = [] := by
    rw [List.eq_nil_iff_forall_not_mem]
    intro x inside
    exact front x ((popUp_front x).mp inside)
  refine ⟨{ began (.popUp type) s with wheel := (s.wheel.popUp type).2, tmp := (s.wheel.popUp type).1 },
    ?_,⟨empty,rfl,rfl,rfl,rfl⟩,rfl⟩
  apply System.completes_run
  apply System.completes_bind (System.completes_modify _)
  apply System.completes_run
  apply System.completes_bind System.completes_read
  exact System.completes_pos empty (System.completes_pure ())

/-- A tick in which nothing comes out of a ring. -/
theorem tick_idle (started : 0 < s.wheel.last_ts_) (second : ∀ x, ¬s.wheel.Has .kTimingTypeSecond 0 x)
    (minute : (s.wheel.tick_ + 1) % 60 = 0 → ∀ x, ¬s.wheel.Has .kTimingTypeMinute 0 x) :
    ∃ moves after, system.exec (environment delays) moves ⟨s,[]⟩ = some ⟨after,[]⟩ ∧
      after.wheel.tick_ = s.wheel.tick_ + 1 ∧ 0 < after.wheel.last_ts_ ∧
      after.insertions = s.insertions ∧ after.released = s.released := by
  let ticked : World := { s with wheel :=
    { s.wheel with last_ts_ := s.wheel.last_ts_ + 1000, tick_ := s.wheel.tick_ + 1 } }
  obtain ⟨first,popped,idle,rotated⟩ := popUp_idle delays ticked .kTimingTypeSecond second
  have unset : ¬s.wheel.last_ts_ = 0 := by omega
  have counted : ¬s.wheel.last_ts_ + 1000 - s.wheel.last_ts_ < 1000 := by omega
  have turned : ∃ after, system.Completes (environment delays) []
      (onTimer (s.wheel.last_ts_ + 1000)) s () after ∧ Uneventful ticked after := by
    by_cases whole : first.wheel.tick_ % 60 = 0
    · rw [idle.tick] at whole
      obtain ⟨last,again,idles,_⟩ := popUp_idle delays first .kTimingTypeMinute fun x has => by
        rw [rotated,has_popUp] at has
        exact minute whole x has
      refine ⟨last,?_,idles.tmp,idles.tick.trans idle.tick,idles.last.trans idle.last,
        idles.insertions.trans idle.insertions,idles.released.trans idle.released⟩
      apply System.completes_bind (System.completes_modify _)
      simp only [if_neg unset]
      apply System.completes_bind System.completes_read
      apply System.completes_neg counted
      apply System.completes_bind (System.completes_modify _)
      apply System.completes_bind popped
      apply System.completes_bind System.completes_read
      exact System.completes_pos (idle.tick ▸ whole) again
    · have hour : ¬first.wheel.tick_ % 3600 = 0 := by omega
      have day : ¬first.wheel.tick_ % 86400 = 0 := by omega
      refine ⟨first,?_,idle⟩
      apply System.completes_bind (System.completes_modify _)
      simp only [if_neg unset]
      apply System.completes_bind System.completes_read
      apply System.completes_neg counted
      apply System.completes_bind (System.completes_modify _)
      apply System.completes_bind popped
      apply System.completes_bind System.completes_read
      exact System.completes_neg whole (System.completes_neg hour
        (System.completes_neg day (System.completes_pure ())))
  obtain ⟨after,done,same⟩ := turned
  have outside : (⟨s,[]⟩ : Config World Query Answer Callback Method).controlled := trivial
  obtain ⟨moves,run⟩ :=
    System.completes_enter (m := Method.onTimer (s.wheel.last_ts_ + 1000)) outside rfl done
  refine ⟨moves,after,run,same.tick,?_,same.insertions,same.released⟩
  rw [same.last]
  change 0 < s.wheel.last_ts_ + 1000
  omega

variable {delays s}

/-- What is in one of the small rings was inserted for less than an hour. -/
theorem brief_of_has (valid : Valid delays [] s) {type : TImingType} {k : Nat} {x : EntryPtr}
    (has : s.wheel.Has type k x) (small : type = .kTimingTypeSecond ∨ type = .kTimingTypeMinute) :
    ∃ i ∈ s.insertions, i.ring = type ∧ i.turn = s.turns type + 1 + k ∧ i.delay < 3600 := by
  obtain ⟨i,among,ring,_,turn,_⟩ := (valid.rings.has_iff _ _ _).mp has
  refine ⟨i,among,ring,turn,?_⟩
  rcases small with rfl | rfl
  · have := Insertion.ring_second.mp ring
    omega
  · exact (Insertion.ring_minute.mp ring).2

/-- A timer of an hour, set at tick 0, at any later time. -/
theorem hour_waits (ticks : Nat) :
    ∃ c, system.Reachable (environment anyDelay) start c ∧ c.stack = [] ∧
      c.state.wheel.tick_ = ticks ∧ 0 < c.state.wheel.last_ts_ ∧
      c.state.insertions = [⟨0,.object 7,0,3600,0⟩] ∧ c.state.released = [] := by
  induction ticks with
  | zero =>
    have reached := system.play_reachable (environment anyDelay) 60
      [.enter (.onTimer 1000),.enter (.insertEntry 3600 (.object 7))] start _ rfl
    refine ⟨_,reached,?_⟩
    decide
  | succ ticks ih =>
    obtain ⟨⟨s,stack⟩,reached,rfl,tick,started,insertions,released⟩ := ih
    obtain ⟨valid,_⟩ := timers_invariant anyDelay start _ start_fresh reached trivial
    have quiet : ∀ x type k, type = .kTimingTypeSecond ∨ type = .kTimingTypeMinute →
        ¬s.wheel.Has type k x := by
      intro x type k small has
      obtain ⟨i,among,_,_,brief⟩ := brief_of_has valid has small
      rw [insertions,List.mem_singleton] at among
      rw [among] at brief
      exact absurd brief (by decide)
    obtain ⟨moves,after,run,later,going,same,none⟩ := tick_idle anyDelay s started
      (fun x => quiet x _ 0 (Or.inl rfl)) (fun _ x => quiet x _ 0 (Or.inr rfl))
    refine ⟨⟨after,[]⟩,reached.exec run,rfl,?_,going,same.trans insertions,none.trans released⟩
    rw [later]
    exact congrArg (· + 1) tick

end Waiting

/-- An hour later, the timer has not fired. -/
theorem accepted_timer_lost :
    ∃ (c : Config World Query Answer Callback Method) (i : Insertion),
      system.Reachable (environment anyDelay) start c ∧ c.stack = [] ∧
      i ∈ c.state.insertions ∧ i.delay = 3600 ∧ ¬refused i.delay ∧
      i.at_ + i.delay ≤ c.state.wheel.tick_ ∧ ¬∃ r ∈ c.state.released, r.entry = i.entry := by
  obtain ⟨c,reached,outside,tick,_,insertions,released⟩ := hour_waits 3600
  refine ⟨c,⟨0,.object 7,0,3600,0⟩,reached,outside,?_,rfl,?_,?_,?_⟩
  · simp [insertions]
  · simp [refused,kTimingDay]
  · exact Nat.le_of_eq tick.symm
  · simp [released]

end Tmms.Network.Timers
