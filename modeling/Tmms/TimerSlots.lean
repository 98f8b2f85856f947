import Tmms.TimerCascade

/-! The slots that insertions index. A delay of zero asks for the slot before the first; it comes
from the user, or is what is left of whole minutes when the minute ring turns. -/
namespace Tmms.Network.Timers

open Reentrant TimingWheel

def Insertion.index (i : Insertion) : Nat := pred32 (i.delay / unit i.ring)

def Insertion.InRange (i : Insertion) (wheel : TimingWheel) : Prop :=
  refused i.delay ∨ i.index < (wheel.Wheels_ i.ring).length

section Slots
variable {delays : Nat → Bool} {s : World} {ctx : List Callback}

/-- With a delay, an insertion that is not refused stays within its ring. -/
theorem inRange_of_pos {i : Insertion} (sized : s.wheel.Sized) (positive : 0 < i.delay) :
    i.InRange s.wheel := by
  by_cases beyond : refused i.delay
  · exact .inl beyond
  obtain ⟨some,inside⟩ := ringOf_slot positive beyond
  have bound : i.delay < 2^32 := by
    simp only [refused,kTimingDay] at beyond
    omega
  right
  rw [sized,Insertion.index,Insertion.ring,pred32_pos some (lt_of_le_of_lt (Nat.div_le_self _ _) bound)]
  omega

theorem insertEntry_faults (e : EntryPtr) (sized : s.wheel.Sized) :
    system.Faults (environment delays) ctx (insertEntry 0 e) (began (.insertEntry 0 e) s) := by
  apply System.faults_bind System.completes_read
  have none : (began (.insertEntry 0 e) s).wheel.insertEntry (began (.insertEntry 0 e) s).made 0 e = none :=
    insertEntry_zero _ sized
  rw [none]
  exact System.faults_fault

theorem insertEntry_completes {d : Nat} (e : EntryPtr) (sized : s.wheel.Sized) (positive : 0 < d)
    (bound : d < 2^32) (accepted : ¬refused d) :
    ∃ after, system.Completes (environment delays) ctx (insertEntry d e) (began (.insertEntry d e) s) () after ∧
      after.wheel.tick_ = s.wheel.tick_ ∧ after.wheel.last_ts_ = s.wheel.last_ts_ ∧
      after.insertions = insertion d e s :: s.insertions ∧ after.released = s.released := by
  obtain ⟨wheel,put,_,last,tick,has⟩ := insertEntry_spec (x := e) s.made d sized positive bound accepted
  refine ⟨inserted d e wheel s,?_,tick,last,rfl,rfl⟩
  apply System.completes_bind System.completes_read
  have found : (began (.insertEntry d e) s).wheel.insertEntry (began (.insertEntry d e) s).made d e = some wheel :=
    put
  rw [found]
  apply System.completes_bind (System.completes_modify _)
  apply System.completes_run
  apply System.completes_bind System.completes_read
  refine System.completes_pos ?_ (System.completes_pure ())
  have slot : d / unit (ringOf d) - 1 + 1 = d / unit (ringOf d) :=
    Nat.sub_add_cancel (ringOf_slot positive accepted).1
  exact (owned_iff _ _).mpr (.inl ⟨_,_,_,(has _ _ _).mpr (.inr ⟨rfl,slot,rfl⟩),(insertion d e s).what_holds⟩)

/-- A slot whose entry has nothing left for the second ring. -/
theorem popUp_faults {id : Nat} {e : EntryPtr} (sized : s.wheel.Sized)
    (only : ∀ type k x, s.wheel.Has type k x ↔ type = .kTimingTypeMinute ∧ k = 0 ∧ x = .cascade id 0 e) :
    system.Faults (environment delays) ctx (Prog.run (.popUp .kTimingTypeMinute)) s := by
  have popped : ∀ x, x ∈ (s.wheel.popUp .kTimingTypeMinute).1 ↔ x = .cascade id 0 e := by
    intro x
    rw [popUp_front,only]
    simp
  apply System.faults_run
  apply System.faults_bind (System.completes_modify _)
  apply System.faults_run
  apply System.faults_bind System.completes_read
  apply System.faults_neg
  · intro empty
    have inside := (popped _).mpr rfl
    rw [show (s.wheel.popUp .kTimingTypeMinute).1 = [] from empty] at inside
    cases inside
  apply System.faults_bind (System.completes_query (a := .entry (.cascade id 0 e)) ?_)
  · apply System.faults_bind (System.completes_modify _)
    apply System.faults_first
    apply System.faults_run
    apply System.faults_bind System.completes_read
    apply System.faults_neg
    · rw [owned_iff]
      rintro (⟨type,k,x,has,_⟩ | ⟨x,inside,_⟩)
      · have before := (only _ _ _).mp ((has_popUp type).mp has)
        split at before
        · omega
        · exact absurd before.1 ‹_›
      · obtain ⟨among,other⟩ := List.mem_filter.mp inside
        exact absurd ((popped x).mp among) (by simpa using other)
    · apply System.faults_run
      apply System.faults_run
      exact insertEntry_faults e (popUp_sized sized)
  · exact List.contains_iff_mem.mpr ((popped _).mpr rfl)

/-- The state of a run in which nothing but an object's insertion for `d` has happened so far. -/
structure Waits (d : Nat) (s : World) : Prop where
  going : 0 < s.wheel.last_ts_
  insertions : ∃ id e, s.insertions = [⟨id,e,0,d,0⟩]

theorem waits_start {d : Nat} (fresh : Fresh s) (allowed : delays d = true) (minutes : 60 ≤ d ∧ d < 3600) :
    ∃ c, system.Reachable (environment delays) s c ∧ c.stack = [] ∧ c.state.wheel.tick_ = 0 ∧ Waits d c.state := by
  let going : World := { s with wheel := { s.wheel with last_ts_ := 1000 } }
  have unset : s.wheel.last_ts_ = 0 := by
    rw [fresh.wheel]
    rfl
  have started : system.Completes (environment delays) [] (onTimer 1000) s () going := by
    apply System.completes_bind (System.completes_modify _)
    simp only [if_pos unset]
    apply System.completes_bind System.completes_read
    exact System.completes_pos (show (1000 : Int) - 1000 < 1000 by decide) (System.completes_pure ())
  obtain ⟨first,began⟩ := System.completes_enter (m := Method.onTimer 1000)
    (show (⟨s,[]⟩ : Config World Query Answer Callback Method).controlled from trivial) rfl started
  have sized : going.wheel.Sized := by
    intro type
    change (s.wheel.Wheels_ type).length = _
    rw [fresh.wheel]
    exact initial_sized type
  have accepted := not_refused_of_lt minutes.2
  obtain ⟨after,put,tick,last,insertions,_⟩ :=
    @insertEntry_completes delays going [] d (.object 0) sized (by omega) (by omega) accepted
  have enters : (environment delays).enters [] going (.insertEntry d (.object 0)) = true := by
    have released : going.released = [] := fresh.released
    simp only [environment,allowed,released]
    simp
    omega
  obtain ⟨second,inserted⟩ := System.completes_enter (m := Method.insertEntry d (.object 0))
    (show (⟨going,[]⟩ : Config World Query Answer Callback Method).controlled from trivial) enters put
  refine ⟨⟨after,[]⟩,System.Reachable.exec ⟨first,began⟩ inserted,rfl,?_,?_,?_⟩
  · rw [tick]
    change s.wheel.tick_ = 0
    rw [fresh.wheel]
    rfl
  · rw [last]
    change (0 : Int) < 1000
    decide
  · refine ⟨going.made,.object 0,?_⟩
    have tick : going.wheel.tick_ = 0 := by
      change s.wheel.tick_ = 0
      rw [fresh.wheel]
      rfl
    have turns : going.turns (ringOf d) = 0 := by
      change s.turns _ = 0
      rw [fresh.turns]
    have none : going.insertions = [] := fresh.insertions
    rw [insertions,insertion,tick,turns,none]

/-- What the rings hold then. -/
theorem waits_has {d : Nat} (waits : Waits d s) (valid : Valid delays [] s) (settled : Settled s)
    (minutes : 60 ≤ d ∧ d < 3600) (whole : d % 60 = 0) :
    ∃ id e, ∀ type k x, s.wheel.Has type k x ↔
      type = .kTimingTypeMinute ∧ d = 60 * (s.wheel.tick_ / 60 + 1 + k) ∧ x = .cascade id 0 e := by
  obtain ⟨id,e,insertions⟩ := waits.insertions
  let i : Insertion := ⟨id,e,0,d,0⟩
  have ring : i.ring = .kTimingTypeMinute := Insertion.ring_minute.mpr minutes
  have turn : i.turn = d / 60 := by
    rw [Insertion.turn,ring]
    exact Nat.zero_add _
  have what : i.what = .cascade id 0 e := by
    rw [Insertion.what_coarse (show ¬d < 60 by omega),(out_eq minutes).2.1]
    exact congrArg (EntryPtr.cascade id · e) whole
  refine ⟨id,e,fun type k x => ?_⟩
  rw [valid.rings.has_iff,insertions]
  constructor
  · rintro ⟨_,among,kind,_,out,rfl⟩
    cases List.mem_singleton.mp among
    have kind : i.ring = type := kind
    rw [ring] at kind
    subst kind
    have out : i.turn = _ := out
    rw [turn,settled.minutes] at out
    exact ⟨rfl,by omega,what⟩
  · rintro ⟨rfl,when,rfl⟩
    refine ⟨i,List.mem_singleton_self _,ring,not_refused_of_lt minutes.2,?_,what.symm⟩
    rw [turn,settled.minutes]
    omega

theorem waits_tick {d : Nat} (fresh : Fresh s) (allowed : delays d = true) (minutes : 60 ≤ d ∧ d < 3600)
    (whole : d % 60 = 0) (n : Nat) (before : n < d) :
    ∃ c, system.Reachable (environment delays) s c ∧ c.stack = [] ∧ c.state.wheel.tick_ = n ∧ Waits d c.state := by
  induction n with
  | zero => exact waits_start fresh allowed minutes
  | succ n ih =>
    obtain ⟨⟨now,stack⟩,reached,rfl,tick,waits⟩ := ih (by omega)
    obtain ⟨valid,settled⟩ := timers_invariant delays s _ fresh reached trivial
    obtain ⟨id,e,has⟩ := waits_has waits valid (settled rfl) minutes whole
    have tick : now.wheel.tick_ = n := tick
    obtain ⟨moves,after,run,later,going,same,_⟩ := tick_idle delays now waits.going
      (fun x front => by cases ((has _ _ _).mp front).1)
      (fun turned x front => by
        have when := ((has _ _ _).mp front).2.1
        omega)
    refine ⟨⟨after,[]⟩,reached.exec run,rfl,?_,going,?_⟩
    · rw [later,tick]
    · obtain ⟨id,e,insertions⟩ := waits.insertions
      exact ⟨id,e,same.trans insertions⟩

/-- The minute ring turns, and nothing is left of the delay. -/
theorem waits_fault {d : Nat} (waits : Waits d s) (valid : Valid delays [] s) (settled : Settled s)
    (minutes : 60 ≤ d ∧ d < 3600) (whole : d % 60 = 0) (last : s.wheel.tick_ + 1 = d) :
    ∃ moves after more, system.exec (environment delays) moves ⟨s,[]⟩ = some ⟨after,.code .fault :: more⟩ := by
  obtain ⟨id,e,has⟩ := waits_has waits valid settled minutes whole
  let ticked : World := { s with wheel :=
    { s.wheel with last_ts_ := s.wheel.last_ts_ + 1000, tick_ := s.wheel.tick_ + 1 } }
  have second : ∀ x, ¬ticked.wheel.Has .kTimingTypeSecond 0 x :=
    fun x front => by cases ((has _ _ _).mp front).1
  obtain ⟨first,popped,idle,rotated⟩ := popUp_idle delays ticked .kTimingTypeSecond second
  have unset : ¬s.wheel.last_ts_ = 0 := by
    have := waits.going
    omega
  have counted : ¬s.wheel.last_ts_ + 1000 - s.wheel.last_ts_ < 1000 := by omega
  have turned : first.wheel.tick_ % kTimingMinute = 0 := by
    rw [idle.tick]
    change (s.wheel.tick_ + 1) % 60 = 0
    omega
  have sized : first.wheel.Sized := by
    rw [rotated]
    exact popUp_sized fun type => valid.rings.sized type
  have only : ∀ type k x, first.wheel.Has type k x ↔
      type = .kTimingTypeMinute ∧ k = 0 ∧ x = .cascade id 0 e := by
    intro type k x
    rw [rotated,has_popUp]
    refine (has _ _ _).trans ⟨?_,?_⟩
    · rintro ⟨rfl,when,rfl⟩
      rw [if_neg (by decide)] at when
      exact ⟨rfl,by omega,rfl⟩
    · rintro ⟨rfl,rfl,rfl⟩
      rw [if_neg (by decide)]
      exact ⟨rfl,by omega,rfl⟩
  have outside : (⟨s,[]⟩ : Config World Query Answer Callback Method).controlled := trivial
  apply System.faults_enter (m := Method.onTimer (s.wheel.last_ts_ + 1000)) outside rfl
  apply System.faults_bind (System.completes_modify _)
  change system.Faults _ _ _ (if s.wheel.last_ts_ = 0 then _ else s)
  rw [if_neg unset]
  apply System.faults_bind System.completes_read
  apply System.faults_neg counted
  apply System.faults_bind (System.completes_modify _)
  apply System.faults_bind popped
  apply System.faults_bind System.completes_read
  exact System.faults_pos turned (popUp_faults sized only)

/-- A delay without a part for the second ring indexes a slot that is not there, at once or when
the minute ring turns. -/
theorem bad_delay_faults {d : Nat} (fresh : Fresh s) (allowed : delays d = true) (hour : d < 3600)
    (whole : d % 60 = 0) :
    ∃ c rest, system.Reachable (environment delays) s c ∧ c.stack = .code .fault :: rest := by
  by_cases zero : d = 0
  · subst zero
    have enters : (environment delays).enters [] s (.insertEntry 0 (.object 0)) = true := by
      simp [environment,allowed,fresh.released]
    have sized : s.wheel.Sized := by
      rw [fresh.wheel]
      exact initial_sized
    obtain ⟨moves,after,more,run⟩ := System.faults_enter (m := Method.insertEntry 0 (.object 0))
      (show (⟨s,[]⟩ : Config World Query Answer Callback Method).controlled from trivial) enters
      (insertEntry_faults _ sized)
    exact ⟨_,more,⟨moves,run⟩,rfl⟩
  · have minutes : 60 ≤ d ∧ d < 3600 := ⟨by omega,hour⟩
    obtain ⟨⟨now,stack⟩,reached,rfl,tick,waits⟩ := waits_tick fresh allowed minutes whole (d - 1) (by omega)
    obtain ⟨valid,settled⟩ := timers_invariant delays s _ fresh reached trivial
    have last : now.wheel.tick_ + 1 = d := by
      have tick : now.wheel.tick_ = d - 1 := tick
      omega
    obtain ⟨moves,after,more,run⟩ := waits_fault waits valid (settled rfl) minutes whole last
    exact ⟨_,more,reached.exec run,rfl⟩

end Slots

/-- The rings keep their sizes, and every slot asked for is there, if and only if no delay is a
whole number of minutes below an hour, zero included. -/
theorem slots_in_range (delays : Nat → Bool) (s : World) (fresh : Fresh s) :
    (∀ c, system.Reachable (environment delays) s c → c.controlled → c.state.wheel.Sized) ∧
    ((∀ c, system.Reachable (environment delays) s c → (∀ rest, c.stack ≠ .code .fault :: rest) ∧
        (c.controlled → ∀ i ∈ c.state.insertions, i.InRange c.state.wheel)) ↔ ¬Bad delays) := by
  refine ⟨fun c reached controlled => ?_,?_,?_⟩
  · exact (timers_invariant delays s c fresh reached controlled).1.rings.sized
  · rintro within ⟨d,allowed,hour,whole⟩
    obtain ⟨c,rest,reached,top⟩ := bad_delay_faults fresh allowed hour whole
    exact (within c reached).1 rest top
  · refine fun proper c reached => ⟨fun rest => timers_no_fault delays s c fresh reached proper,?_⟩
    intro controlled i among
    have valid := (timers_invariant delays s c fresh reached controlled).1
    exact inRange_of_pos valid.rings.sized (valid.logged.positive i among)

def minuteAndSecond (d : Nat) : Bool := d == 61

/-- A timer of 61 seconds goes to slot 0 of the minute ring. -/
theorem slots_in_range_minute :
    ∃ (c : Config World Query Answer Callback Method) (i : Insertion), c.state.insertions = [i] ∧
      i.delay = 61 ∧ i.index = 0 ∧ i.InRange c.state.wheel := by
  have proper : ¬Bad minuteAndSecond := by
    rintro ⟨d,allowed,_,whole⟩
    simp only [minuteAndSecond,beq_iff_eq] at allowed
    omega
  have reached := system.play_reachable (environment minuteAndSecond) 60
    [.enter (.insertEntry 61 (.object 7))] start _ rfl
  have within := ((slots_in_range minuteAndSecond start start_fresh).2.mpr proper _ reached).2 trivial
  refine ⟨_,_,?_,?_,?_,within ⟨0,.object 7,0,61,0⟩ ?_⟩
  · rfl
  · rfl
  · decide
  · exact List.mem_singleton_self _

/-- `InsertEntry` without a delay asks for slot 4294967295 of sixty. -/
theorem slot_out_of_range :
    ∃ (c : Config World Query Answer Callback Method) (i : Insertion),
      system.Reachable (environment anyDelay) start c ∧ (∃ rest, c.stack = .code .fault :: rest) ∧
      c.state.insertions = [i] ∧ i.delay = 0 ∧ i.index = 4294967295 ∧
      (c.state.wheel.Wheels_ i.ring).length = 60 ∧ ¬i.InRange c.state.wheel := by
  have reached := system.play_reachable (environment anyDelay) 60 [.enter (.insertEntry 0 (.object 7))] start _ rfl
  refine ⟨_,⟨0,.object 7,0,0,0⟩,reached,⟨_,rfl⟩,rfl,rfl,by decide,by decide,?_⟩
  rintro (beyond | inside)
  · exact absurd beyond (by simp [refused])
  · exact absurd inside (by decide)

end Tmms.Network.Timers
