import Tmms.ReentrantRecords
import Tmms.TimerCascade

/-! The wheel as a calendar. Delays of less than an hour that leave something for the second ring may
be mixed in any way: each insertion books its entry for one tick, and an entry is destroyed at the
latest tick it is booked for. -/
namespace Tmms.Network.Timers

open Reentrant TcpConnection TimingWheel

/-- A delay for one of the two rings that turn, with something left for the second ring. -/
def regular (d : Nat) : Bool := decide (d < 3600 ∧ d % 60 ≠ 0)

def booked (e : EntryPtr) (s : World) : Nat :=
  ((s.insertions.filter (·.entry = e)).map Insertion.due).foldr max 0

section Booked
variable {delays : Nat → Bool} {s : World} {e : EntryPtr}

theorem le_booked (i : Insertion) (among : i ∈ s.insertions) (same : i.entry = e) : i.due ≤ booked e s := by
  apply List.le_max_of_le (x := i.due) _ (Nat.le_refl _)
  exact List.mem_map.mpr ⟨i,List.mem_filter.mpr ⟨among,by simpa using same⟩,rfl⟩

theorem booked_le (bound : Nat) (each : ∀ i ∈ s.insertions, i.entry = e → i.due ≤ bound) : booked e s ≤ bound := by
  apply List.max_le_of_forall_le
  intro due inside
  obtain ⟨i,chosen,rfl⟩ := List.mem_map.mp inside
  obtain ⟨among,same⟩ := List.mem_filter.mp chosen
  exact each i among (by simpa using same)

/-- All insertions are for regular delays. -/
theorem insertions_regular (valid : Valid delays [] s) (given : ∀ d, delays d = true → regular d = true)
    (i : Insertion) (among : i ∈ s.insertions) : i.delay < 3600 ∧ i.delay % 60 ≠ 0 := by
  have positive := valid.logged.positive i among
  by_cases short : i.delay < 60
  · omega
  · have allowed := given _ (valid.made.allowed i among (by omega))
    exact of_decide_eq_true allowed

/-- What keeps an entry alive has it booked for this tick or a later one. -/
theorem booked_of_owned (valid : Valid delays [] s) (given : ∀ d, delays d = true → regular d = true)
    (plain : e.isCascade = false) (owned : s.owned e = true) :
    ∃ i ∈ s.insertions, i.entry = e ∧ s.wheel.tick_ ≤ i.due ∧ (s.tmp = [] → s.wheel.tick_ < i.due) := by
  rw [owned_iff] at owned
  rcases owned with ⟨type,k,x,has,holds⟩ | ⟨x,inside,holds⟩
  · obtain ⟨i,among,ring,_,turn,rfl⟩ := (valid.rings.has_iff _ _ _).mp has
    have same := Insertion.holds_of_what (valid.logged.plain i among) plain holds
    obtain ⟨bound,rest⟩ := insertions_regular valid given i among
    have later : s.wheel.tick_ < i.due := by
      by_cases seconds : i.delay < 60
      · rw [turn_second valid.logged among seconds,← ring,Insertion.ring_second.mpr seconds,
          valid.logged.seconds] at turn
        rw [Insertion.due,if_pos seconds]
        omega
      · have minutes : 60 ≤ i.delay ∧ i.delay < 3600 := ⟨by omega,bound⟩
        have minute := Insertion.ring_minute.mpr minutes
        have waits : i.turns + i.delay / 60 = s.turns .kTimingTypeMinute + 1 + k := by
          rw [← ring,minute,Insertion.turn,minute] at turn
          exact turn
        have turned := valid.logged.minutes.2
        rw [(out_eq minutes).2.2,waits]
        omega
    exact ⟨i,among,same,Nat.le_of_lt later,fun _ => later⟩
  · obtain ⟨i,among,_,_,out,rfl⟩ := valid.pending.out_log x (Or.inl inside)
    have same := Insertion.holds_of_what (valid.logged.plain i among) plain holds
    refine ⟨i,among,same,?_,fun empty => ?_⟩
    · by_cases seconds : i.delay < 60
      · rw [Insertion.out,Insertion.ring_second.mpr seconds,unit,Nat.one_mul,
          turn_second valid.logged among seconds] at out
        rw [Insertion.due,if_pos seconds,out]
      · rw [Insertion.due,if_neg seconds,out]
        exact Nat.le_add_right _ _
    · rw [empty] at inside
      cases inside

theorem release_booked (valid : Valid delays [] s) (given : ∀ d, delays d = true → regular d = true) (r : Release)
    (released : r ∈ s.released) : r.at_ = booked r.entry s ∧ r.at_ ≤ s.wheel.tick_ := by
  obtain ⟨i,among,entry,when⟩ := valid.past.first r released
  have accepted : ∀ j ∈ s.insertions, ¬refused j.delay := fun j inside =>
    not_refused_of_lt (insertions_regular valid given j inside).1
  obtain ⟨short,due⟩ := when.resolve_right fun beyond => accepted i among (beyond.2 i among entry)
  constructor
  · apply Nat.le_antisymm
    · rw [← due]
      exact le_booked i among entry
    · apply booked_le
      intro j inside same
      exact ((valid.past.last r released j inside same).resolve_left (accepted j inside)).2
  · have past := short_of_not_owned valid (valid.past.gone r released) i among entry short
    rw [← due,Insertion.due,if_pos short]
    exact past

/-- An entry is destroyed once, at the latest tick it is booked for. -/
theorem fires_booked (valid : Valid delays [] s) (given : ∀ d, delays d = true → regular d = true)
    (i : Insertion) (inserted : i ∈ s.insertions) :
    (releases i.entry s = [] ∧ s.wheel.tick_ ≤ booked i.entry s ∧ (s.tmp = [] → s.wheel.tick_ < booked i.entry s)) ∨
      (releases i.entry s = [booked i.entry s] ∧ booked i.entry s ≤ s.wheel.tick_) := by
  by_cases released : ∃ r ∈ s.released, r.entry = i.entry
  · obtain ⟨r,among,same⟩ := released
    obtain ⟨when,past⟩ := release_booked valid given r among
    rw [same] at when
    refine Or.inr ⟨?_,when ▸ past⟩
    rw [releases,← same,filter_once s.released valid.past.once r among,same,← when]
    rfl
  · have none : releases i.entry s = [] := by
      rw [releases,List.map_eq_nil_iff,List.filter_eq_nil_iff]
      intro r among same
      exact released ⟨r,among,by simpa using same⟩
    have accepted := not_refused_of_lt (insertions_regular valid given i inserted).1
    rcases valid.past.live i inserted accepted with owned | gone | ⟨x,loose,_⟩
    · obtain ⟨j,among,same,later,strictly⟩ := booked_of_owned valid given (valid.logged.plain i inserted) owned
      have bound := le_booked j among same
      exact Or.inl ⟨none,by omega,fun empty => by have := strictly empty; omega⟩
    · exact absurd gone released
    · cases loose

end Booked

section Early
variable {delays : Nat → Bool}

abbrev Unwritten (s after : World) : Prop := after.insertions = s.insertions

theorem modify_unwritten (f : World → World) (same : ∀ s, (f s).insertions = s.insertions) :
    (Prog.modify f : Code Unit).Steady Unwritten :=
  .modify fun s => same s

theorem io_unwritten (conn : Nat) (q : TcpConnection.Query) : (io conn q).Steady Unwritten :=
  fun _ _ _ => trivial

theorem host_unwritten (conn : Nat) : (host conn).Steady Unwritten where
  self := fun _ => trivial
  update := fun _ _ => modify_unwritten _ fun _ => rfl
  mark := modify_unwritten _ fun _ => rfl
  forget := modify_unwritten _ fun _ => rfl
  closeCallback := fun _ _ => trivial
  messageCallback := fun _ _ => trivial
  writeCompleteCallback := fun _ _ => trivial
  write := fun _ _ _ => io_unwritten conn _
  writev := fun _ _ => io_unwritten conn _
  readFd := fun _ => io_unwritten conn _
  closeFd := fun _ => .bind (io_unwritten conn _) fun _ _ => trivial
  enableWriting := fun _ => modify_unwritten _ fun _ => rfl
  onClose := fun _ _ => trivial
  readLoop := fun _ _ => trivial
  writeLoop := fun _ _ => trivial

/-- No code of the wheel writes the log of insertions. -/
theorem body_unwritten (m : Method) : (body m).Steady Unwritten := by
  have reads : (Prog.read : Code World).Steady Unwritten := fun _ => trivial
  have runs : ∀ m, (Prog.run m : Code Unit).Steady Unwritten := fun _ _ _ => trivial
  have invokes : ∀ c, (Prog.invoke c : Code Unit).Steady Unwritten := fun _ _ _ => trivial
  have nothing : (pure () : Code Unit).Steady Unwritten := fun _ => trivial
  cases m with
  | insertEntry d e =>
    refine .bind reads fun s => ?_
    cases s.wheel.insertEntry s.made d e with
    | none => exact fun _ => trivial
    | some wheel => exact .bind (modify_unwritten _ fun _ => rfl) fun _ => runs _
  | runAfter d cb => exact .bind reads fun _ => .bind (modify_unwritten _ fun _ => rfl) fun _ => runs _
  | runEvery d cb => exact .bind reads fun _ => .bind (modify_unwritten _ fun _ => rfl) fun _ => runs _
  | onTimer now =>
    refine .bind (modify_unwritten _ fun s => by split <;> rfl) fun _ => .bind reads fun _ => .ite nothing ?_
    refine .bind (modify_unwritten _ fun _ => rfl) fun _ => .bind (runs _) fun _ => .bind reads fun _ => ?_
    exact .ite (runs _) (.ite (runs _) (.ite (runs _) nothing))
  | popUp type => exact .bind (modify_unwritten _ fun _ => rfl) fun _ => runs _
  | clear =>
    refine .bind reads fun _ => .ite nothing (.bind (fun _ _ _ => trivial) fun a => ?_)
    cases a with
    | result r => exact fun _ => trivial
    | entry e => exact .bind (modify_unwritten _ fun _ => rfl) fun _ => .bind (runs _) fun _ => runs _
  | drop e => exact .bind reads fun _ => .ite nothing (runs _)
  | destroy e =>
    cases e with
    | object id => exact invokes _
    | after id cb => exact invokes _
    | every id interval cb => exact .bind (invokes _) fun _ => runs _
    | cascade id second entry => exact runs _
    | timeout id conn => exact .bind reads fun _ => .ite (runs _) nothing
  | enableCheckIdleTimeout conn d =>
    refine .bind reads fun _ => .bind (modify_unwritten _ fun _ => rfl) fun _ => ?_
    exact .bind (modify_unwritten _ fun _ => rfl) fun _ => runs _
  | extendLife conn =>
    refine .bind reads fun s => ?_
    cases (s.clients conn).timeout_entry_ with
    | none => exact nothing
    | some tp => exact .ite (runs _) nothing
  | handler conn m => exact TcpConnection.body_steady (host_unwritten conn) m
  | expire conn => exact .bind (modify_unwritten _ fun _ => rfl) fun _ => runs _

/-- An insertion into the minute ring comes at most a turn of it late. -/
def Phased (insertions : List Insertion) : Prop :=
  ∀ i ∈ insertions, i.ring = .kTimingTypeMinute → i.at_ ≤ 60 * i.turns + 60

theorem phased_records :
    (contract delays).Records system (environment delays) World.insertions Phased where
  quiet := body_unwritten
  answered := by
    intro ctx q a s _ _ phased
    rwa [show (system.answered q a s).insertions = s.insertions from answered_insertions q a s]
  began := by
    intro ctx m s pre phased
    by_cases insert : ∃ d e, m = .insertEntry d e
    · obtain ⟨d,e,rfl⟩ := insert
      obtain ⟨_,_,_,loose,valid,_⟩ := pre
      intro i among ring
      rcases List.mem_cons.mp among with rfl | old
      · change s.wheel.tick_ ≤ 60 * s.turns (ringOf d) + 60
        have minute : ringOf d = .kTimingTypeMinute := ring
        rw [minute]
        exact valid.logged.minutes.2
      · exact phased i old ring
    · have same : (began m s).insertions = s.insertions := began_insertions m s fun d e same => insert ⟨d,e,same⟩
      exact same ▸ phased
  invoked := by
    intro ctx c s _ phased
    exact (invoked_insertions c s).symm ▸ phased

/-- A minute at most is taken off a delay. -/
theorem due_late (s : World) (c : Config World Query Answer Callback Method) (fresh : Fresh s)
    (reached : system.Reachable (environment delays) s c) (i : Insertion) (inserted : i ∈ c.state.insertions)
    (minutes : 60 ≤ i.delay ∧ i.delay < 3600) : i.at_ + i.delay ≤ i.due + 60 := by
  have none : Phased s.insertions := by
    rw [fresh.insertions]
    exact fun _ among => nomatch among
  have phased : Phased c.state.insertions :=
    reachable_recorded (timers_sound delays) phased_records s c (fresh_valid delays s fresh) none reached
  have late := phased i inserted (Insertion.ring_minute.mpr minutes)
  rw [(out_eq minutes).2.2]
  omega

end Early

/-- In every run whose delays are below an hour and leave something for the second ring, in any
mix and any order: each inserted entry is destroyed exactly once, at the latest tick it is booked
for. A delay below a minute books it for the tick asked for; a longer one books it early by the time
since the last turn of the minute ring, a minute at most. Nothing undefined happens. -/
theorem timers_booked (delays : Nat → Bool) (given : ∀ d, delays d = true → regular d = true) (s : World)
    (c : Config World Query Answer Callback Method) (fresh : Fresh s)
    (reached : system.Reachable (environment delays) s c) :
    (∀ rest, c.stack ≠ .code .fault :: rest) ∧
    (c.controlled → ∀ i ∈ c.state.insertions,
      ((releases i.entry c.state = [] ∧ c.state.wheel.tick_ ≤ booked i.entry c.state ∧
          (c.stack = [] → c.state.wheel.tick_ < booked i.entry c.state)) ∨
        (releases i.entry c.state = [booked i.entry c.state] ∧ booked i.entry c.state ≤ c.state.wheel.tick_)) ∧
      (i.delay < 60 → i.due = i.at_ + i.delay) ∧
      (60 ≤ i.delay → i.due ≤ i.at_ + i.delay ∧ i.at_ + i.delay ≤ i.due + 60)) := by
  have proper : ¬Bad delays := by
    rintro ⟨d,allowed,_,whole⟩
    exact (of_decide_eq_true (given d allowed)).2 whole
  refine ⟨fun rest => timers_no_fault delays s c fresh reached proper,fun controlled i inserted => ⟨?_,?_,?_⟩⟩
  · obtain ⟨valid,settled⟩ := timers_invariant delays s c fresh reached controlled
    rcases fires_booked valid given i inserted with ⟨none,later,strictly⟩ | done
    · refine Or.inl ⟨none,later,fun outside => strictly (settled ?_).tmp⟩
      rw [outside]
      rfl
    · exact Or.inr done
  · exact fun short => if_pos short
  · intro long
    obtain ⟨valid,_⟩ := timers_invariant delays s c fresh reached controlled
    have minutes : 60 ≤ i.delay ∧ i.delay < 3600 := ⟨long,(insertions_regular valid given i inserted).1⟩
    exact ⟨due_le valid i inserted minutes.2,due_late s c fresh reached i inserted minutes⟩

def mixedRun : Option (Config World Query Answer Callback Method) :=
  system.play (environment regular) 60
    (seconds 0 2 ++ [.enter (.insertEntry 61 (.object 7)),.enter (.insertEntry 30 (.object 7))] ++
      seconds 2 30 ++ [.answer (.entry (.object 7))] ++ seconds 32 29 ++
      [.answer (.entry (.cascade 0 1 (.object 7)))] ++ seconds 61 1 ++ [.answer (.entry (.object 7)),.leave]) ⟨start,[]⟩

theorem mixedRun_outcome : mixedRun.map outcome =
    some ([⟨2,.object 7,60,1,60⟩,⟨1,.object 7,1,30,1⟩,⟨0,.object 7,1,61,0⟩],[⟨.object 7,61,true⟩],0) := by
  decide +kernel

theorem timers_booked_mixed :
    ∃ c : Config World Query Answer Callback Method, c.state.released = [⟨.object 7,61,true⟩] ∧
    (∀ rest, c.stack ≠ .code .fault :: rest) ∧
    (c.controlled → ∀ i ∈ c.state.insertions,
      ((releases i.entry c.state = [] ∧ c.state.wheel.tick_ ≤ booked i.entry c.state ∧
          (c.stack = [] → c.state.wheel.tick_ < booked i.entry c.state)) ∨
        (releases i.entry c.state = [booked i.entry c.state] ∧ booked i.entry c.state ≤ c.state.wheel.tick_)) ∧
      (i.delay < 60 → i.due = i.at_ + i.delay) ∧
      (60 ≤ i.delay → i.due ≤ i.at_ + i.delay ∧ i.at_ + i.delay ≤ i.due + 60)) := by
  obtain ⟨c,played,ended⟩ := Option.map_eq_some_iff.mp mixedRun_outcome
  simp only [outcome,Prod.mk.injEq] at ended
  have reached := system.play_reachable (environment regular) 60 _ start _ played
  exact ⟨c,ended.2.1,timers_booked regular (fun _ given => given) start c start_fresh reached⟩

end Tmms.Network.Timers
