import Mathlib.Data.List.GetD
import Mathlib.Data.List.Range
import Tmms.PeriodicTimers
import Tmms.TimerCalendar
import Tmms.WheelPace

/-! What timers mean in real time. The readings of the clock wrap and a tick may come late, but two
ticks are never less than a second of real time apart; so no timer runs before its time by more than
the wheel's own coarseness, however the loop polls. -/
namespace Tmms.Network.Timers

open Reentrant Base

/-- The real times of the polls that tick, among polls at `times` from `p` on. -/
def Polls.ticks (p : Polls) : List Int → List Int
  | [] => []
  | t :: times => (if (p.poll t).clock.tick_ = p.clock.tick_ then [] else [t]) ++ (p.poll t).ticks times

def Spaced (low : Int) : List Int → Prop
  | [] => True
  | t :: times => low ≤ t ∧ Spaced (t + 1000) times

section Spaced
variable {low : Int} {times : List Int}

theorem Spaced.weaken {lower : Int} (spaced : Spaced low times) (less : lower ≤ low) : Spaced lower times := by
  cases times with
  | nil => trivial
  | cons t times => exact ⟨less.trans spaced.1,spaced.2⟩

theorem Spaced.le_getElem (spaced : Spaced low times) (k : Nat) (inside : k < times.length) :
    low + 1000 * k ≤ times[k] := by
  induction times generalizing low k with
  | nil => cases inside
  | cons t times ih =>
    cases k with
    | zero => simpa using spaced.1
    | succ k =>
      have rest := ih spaced.2 k (Nat.lt_of_succ_lt_succ inside)
      have first := spaced.1
      rw [List.getElem_cons_succ]
      push_cast
      omega

theorem Spaced.drop (spaced : Spaced low times) (k : Nat) (inside : k < times.length) :
    Spaced (times[k] + 1000) (times.drop (k + 1)) := by
  induction times generalizing low k with
  | nil => cases inside
  | cons t times ih =>
    cases k with
    | zero => exact spaced.2
    | succ k => exact ih spaced.2 k (Nat.lt_of_succ_lt_succ inside)

theorem Spaced.apart (spaced : Spaced low times) (j k : Nat) (before : j < k) (inside : k < times.length) :
    times[j] + 1000 * (k - j : Nat) ≤ times[k] := by
  have rest := (spaced.drop j (before.trans inside)).le_getElem (k - (j + 1)) (by rw [List.length_drop]; omega)
  rw [List.getElem_drop] at rest
  have same : j + 1 + (k - (j + 1)) = k := by omega
  simp only [same] at rest
  omega

end Spaced

section Ticks
variable {p : Polls} {latest : Int}

theorem foldl_ticks (times : List Int) (p : Polls) :
    (times.foldl Polls.poll p).clock.tick_ = p.clock.tick_ + (p.ticks times).length := by
  induction times generalizing p with
  | nil => rfl
  | cons t times ih =>
    rw [List.foldl_cons,ih,Polls.ticks,List.length_append,← Nat.add_assoc]
    congr 1
    by_cases same : (p.poll t).clock.tick_ = p.clock.tick_
    · rw [if_pos same,same]
      rfl
    · rw [if_neg same]
      rw [poll_clock] at same ⊢
      rcases onTimer_cases p.clock (nowMs t) with ⟨_,took⟩ | ⟨_,_,took⟩ | ⟨_,_,took⟩
      · rw [took] at same
        exact absurd rfl same
      · rw [took] at same
        exact absurd rfl same
      · rw [took]
        rfl

theorem ticks_append (first second : List Int) (p : Polls) :
    p.ticks (first ++ second) = p.ticks first ++ (first.foldl Polls.poll p).ticks second := by
  induction first generalizing p with
  | nil => rfl
  | cons t first ih => rw [List.cons_append,Polls.ticks,ih,Polls.ticks,List.append_assoc,List.foldl_cons]

theorem ticks_mem (times : List Int) (p : Polls) : ∀ t ∈ p.ticks times, t ∈ times := by
  induction times generalizing p with
  | nil => exact fun _ among => nomatch among
  | cons x times ih =>
    intro t among
    rcases List.mem_append.mp among with new | later
    · split at new
      · cases new
      · rw [List.mem_singleton.mp new]
        exact List.mem_cons_self
    · exact List.mem_cons_of_mem _ (ih _ t later)

/-- A tick comes a second or more of real time after the reading it is compared with. -/
theorem tick_after (sees : p.Sees latest) (t : Int) (later : latest ≤ t)
    (ticks : (p.poll t).clock.tick_ ≠ p.clock.tick_) :
    p.stored + 1000 ≤ t ∧ (p.poll t).stored = t ∧ (p.poll t).since = some t := by
  rcases onTimer_cases p.clock (nowMs t) with ⟨_,took⟩ | ⟨_,_,took⟩ | ⟨set,due,took⟩
  · rw [poll_clock,took] at ticks
    exact absurd rfl ticks
  · rw [poll_clock,took] at ticks
    exact absurd rfl ticks
  · obtain ⟨r,since⟩ : ∃ r, p.since = some r := by
      rw [← Option.ne_none_iff_exists']
      exact fun none => set (sees.fresh none)
    have bound := (sees.reference r since).2
    refine ⟨?_,by simp [Polls.poll,took],by simp [Polls.poll,took]⟩
    -- the readings differ by the real difference less whole wraps
    rw [sees.last r since,nowMs,nowMs] at due
    simp only [int16] at due
    omega

/-- A poll that does not tick may replace the stored reading by a later one. -/
theorem stored_le (sees : p.Sees latest) (t : Int) (later : latest ≤ t) (stored : p.since ≠ none) :
    p.stored ≤ (p.poll t).stored ∧ (p.poll t).since ≠ none := by
  obtain ⟨r,since⟩ := Option.ne_none_iff_exists'.mp stored
  have bound := (sees.reference r since).2
  simp only [Polls.poll]
  split
  · refine ⟨?_,by simp [since]⟩
    split
    · exact bound.trans later
    · exact Int.le_refl _
  · exact ⟨bound.trans later,by simp⟩

theorem ticks_spaced (times : List Int) (p : Polls) (latest low u : Int) (sees : p.Sees latest)
    (ordered : (latest :: times).Pairwise (· ≤ ·)) (after : ∀ t ∈ times, u ≤ t)
    (from_ : low ≤ u ∨ p.since ≠ none ∧ low ≤ p.stored + 1000) : Spaced low (p.ticks times) := by
  induction times generalizing p latest low with
  | nil => trivial
  | cons t times ih =>
    obtain ⟨first,rest⟩ := List.pairwise_cons.mp ordered
    have later := first t List.mem_cons_self
    have seen := poll_sees p latest t sees later
    have after' : ∀ x ∈ times, u ≤ x := fun x among => after x (List.mem_cons_of_mem _ among)
    rw [Polls.ticks]
    split
    · refine ih (p.poll t) t low seen rest after' ?_
      rcases from_ with low | ⟨since,low⟩
      · exact Or.inl low
      · obtain ⟨grown,still⟩ := stored_le sees t later since
        exact Or.inr ⟨still,by omega⟩
    · next ticks =>
      obtain ⟨gap,stored,since⟩ := tick_after sees t later ticks
      refine ⟨?_,ih (p.poll t) t (t + 1000) seen rest after' (Or.inr ⟨by rw [since]; simp,by rw [stored]⟩)⟩
      rcases from_ with low | ⟨_,low⟩
      · exact low.trans (after t List.mem_cons_self)
      · omega

end Ticks

section Runs
variable {delays : Nat → Bool} {s : World}

/-- Where the user is in control, the wheel has ticked once for each of these polls. -/
theorem run_ticks (fresh : Fresh s) (moves : List (Move World Query Answer Callback Method))
    (c : Config World Query Answer Callback Method) (ran : system.exec (environment delays) moves ⟨s,[]⟩ = some c)
    (controlled : c.controlled) (times : List Int) (read : readings moves = times.map nowMs) :
    c.state.wheel.tick_ = (Polls.initial.ticks times).length := by
  have clock := clock_readings moves ⟨s,[]⟩ c rfl ran controlled
  have start : s.clock = ⟨0,0⟩ := by
    rw [World.clock,fresh.wheel]
    rfl
  have tick : c.state.clock.tick_ = (polled times).clock.tick_ := by
    rw [clock,start,read,polled_clock]
  exact tick.trans ((foldl_ticks times .initial).trans (Nat.zero_add _))

/-- A tick of polls later than `u` that comes after `n` others. -/
theorem tick_late (past polls : List Int) (u v : Int) (ordered : (past ++ u :: polls ++ [v]).Pairwise (· ≤ ·))
    (n : Nat) (inside : n < ((polled past).ticks polls).length) : u + 1000 * n ≤ v := by
  obtain ⟨first,_,last⟩ := List.pairwise_append.mp ordered
  obtain ⟨_,front,across⟩ := List.pairwise_append.mp first
  have sees : (polled past).Sees u := by
    apply polled_sees
    rw [List.pairwise_append]
    refine ⟨(List.pairwise_append.mp first).1,by simp,fun a among b inside => ?_⟩
    rw [List.mem_singleton.mp inside]
    exact across a among u List.mem_cons_self
  have spaced : Spaced u ((polled past).ticks polls) :=
    ticks_spaced polls (polled past) u u u sees front (fun t among => (List.pairwise_cons.mp front).1 t among)
      (Or.inl (Int.le_refl _))
  have poll := ticks_mem polls (polled past) _ (List.getElem_mem inside)
  refine (spaced.le_getElem n inside).trans (last _ ?_ v (List.mem_singleton_self _))
  exact List.mem_append_right _ (List.mem_cons_of_mem _ poll)

end Runs

/-- A timer asked for at real time `u` or later has, when its entry is destroyed, taken its delay of
real time, except for a second, and except for a minute more where the delay is a minute or more:
however the loop polls, and however often the readings of its clock wrap. -/
theorem timer_takes_seconds (delays : Nat → Bool) (given : ∀ d, delays d = true → regular d = true) (s : World)
    (fresh : Fresh s) (before after : List (Move World Query Answer Callback Method))
    (c d : Config World Query Answer Callback Method)
    (ran : system.exec (environment delays) before ⟨s,[]⟩ = some c) (asked : c.controlled)
    (went : system.exec (environment delays) after c = some d) (controlled : d.controlled)
    (past polls : List Int) (first : readings before = past.map nowMs) (second : readings after = polls.map nowMs)
    (u v : Int) (ordered : (past ++ u :: polls ++ [v]).Pairwise (· ≤ ·))
    (i : Insertion) (inserted : i ∈ d.state.insertions) (later : c.state.wheel.tick_ ≤ i.at_)
    (r : Release) (released : r ∈ d.state.released) (same : r.entry = i.entry) :
    u + 1000 * i.delay ≤ v + 1000 * (if i.delay < 60 then 1 else 61) := by
  have run : system.exec (environment delays) (before ++ after) ⟨s,[]⟩ = some d := by
    rw [System.exec_append,ran]
    exact went
  have reached : system.Reachable (environment delays) s d := ⟨_,run⟩
  obtain ⟨valid,_⟩ := timers_invariant delays s d fresh reached controlled
  obtain ⟨when,happened⟩ := release_booked valid given r released
  have due := le_booked i inserted same.symm
  rw [← when] at due
  have early := run_ticks fresh before c ran asked past first
  have late := run_ticks fresh (before ++ after) d run controlled (past ++ polls) (by
    rw [readings_append,first,second,List.map_append])
  rw [ticks_append,List.length_append,← early] at late
  change d.state.wheel.tick_ = c.state.wheel.tick_ + ((polled past).ticks polls).length at late
  have regular := insertions_regular valid given i inserted
  have some := valid.logged.positive i inserted
  have gap := tick_late past polls u v ordered (i.due - c.state.wheel.tick_ - 1)
  split
  · next short =>
    have asks : i.due = i.at_ + i.delay := if_pos short
    have gap := gap (by omega)
    omega
  · next long =>
    have bound := due_late s d fresh reached i inserted ⟨by omega,regular.1⟩
    have gap := gap (by omega)
    omega

def followed (moves : List (Move World Query Answer Callback Method × Nat)) :
    List (Move World Query Answer Callback Method) :=
  moves.flatMap fun move => move.1 :: List.replicate move.2 .advance

def firstReading : List (Move World Query Answer Callback Method) := followed [(.enter (.onTimer (nowMs 29000)),4)]

def threeSeconds : List (Move World Query Answer Callback Method) :=
  followed [(.enter (.insertEntry 3 (.object 7)),7),(.enter (.onTimer (nowMs 30100)),14),
    (.enter (.onTimer (nowMs 31200)),14),(.enter (.onTimer (nowMs 32300)),10),(.answer (.entry (.object 7)),6),
    (.leave,9)]

theorem threeSeconds_runs :
    ((system.exec (environment regular) firstReading ⟨start,[]⟩).bind fun c =>
      (system.exec (environment regular) threeSeconds c).map fun d => (c.state.wheel.tick_,c.stack.length,outcome d)) =
    some (0,0,[⟨0,.object 7,0,3,0⟩],[⟨.object 7,3,true⟩],0) := by
  decide +kernel

theorem timer_takes_seconds_three :
    ∃ c d, system.exec (environment regular) firstReading ⟨start,[]⟩ = some c ∧
      system.exec (environment regular) threeSeconds c = some d ∧ d.state.released = [⟨.object 7,3,true⟩] ∧
      (30000 : Int) + 1000 * (3 : Nat) ≤ 32300 + 1000 * (if 3 < 60 then 1 else 61) := by
  obtain ⟨c,ran,more⟩ := Option.bind_eq_some_iff.mp threeSeconds_runs
  obtain ⟨d,went,ended⟩ := Option.map_eq_some_iff.mp more
  simp only [outcome,Prod.mk.injEq,List.length_eq_zero_iff] at ended
  obtain ⟨tick,asked,insertions,released,back⟩ := ended
  refine ⟨c,d,ran,went,released,?_⟩
  refine timer_takes_seconds regular (fun _ given => given) start start_fresh firstReading threeSeconds c d ran
    (Config.controlled_of_nil asked) went (Config.controlled_of_nil back)
    [29000] [30100,31200,32300] rfl rfl 30000 32300 (by decide) ⟨0,.object 7,0,3,0⟩ ?_ ?_ ⟨.object 7,3,true⟩ ?_ rfl
  · simp [insertions]
  · exact Nat.le_of_eq tick
  · simp [released]

end Tmms.Network.Timers
