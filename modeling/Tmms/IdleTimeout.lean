import Tmms.TimerCascade

/-! The idle check of a connection. Its entry is inserted once, by `EnableCheckIdleTimeout`;
no handler calls `ExtendLife`, so the entry expires after that time whatever the connection
does, and the check fires unless the connection is gone by then. -/
namespace Tmms.Network.Timers

open Reentrant TcpConnection

section Idle
variable {delays : Nat → Bool} {s : World}

theorem single_release (valid : Valid delays [] s) (r other : Release) (among : r ∈ s.released)
    (inside : other ∈ s.released) (same : r.entry = other.entry) : r = other := by
  have chosen := filter_once s.released valid.past.once other inside
  have found : r ∈ s.released.filter (·.entry = other.entry) :=
    List.mem_filter.mpr ⟨among,by simpa using same⟩
  rw [chosen] at found
  exact List.mem_singleton.mp found

/-- The entry of an idle check is destroyed when its time has passed, at that very tick. -/
theorem check_released (valid : Valid delays [] s) (settled : Settled s) (i : Insertion)
    (among : i ∈ s.insertions) {id conn : Nat} (check : i.entry = .timeout id conn)
    (passed : i.at_ + i.delay ≤ s.wheel.tick_) :
    ∃ r ∈ s.released, r.entry = i.entry ∧ r.at_ = i.at_ + i.delay := by
  have only : ∀ j ∈ s.insertions, j.entry = i.entry → j = i := fun j other same =>
    valid.made.single j other i among id conn (same.trans check) check
  have brief := valid.made.short i among id conn check
  have last : latest i.entry s ≤ i.at_ + i.delay := by
    apply latest_le
    intro j other same
    rw [only j other same]
  obtain ⟨r,released,same,_⟩ := minutes_released valid settled i among
    (fun j other same => by rw [only j other same]; omega) (last.trans passed)
  obtain ⟨j,other,entry,⟨_,due⟩ | ⟨_,beyond⟩⟩ := valid.past.first r released
  · rw [only j other (entry.trans same),Insertion.due,if_pos brief] at due
    exact ⟨r,released,same,due.symm⟩
  · exact absurd (beyond i among same.symm) (not_refused_of_lt (by omega))

end Idle

/-- Between ticks, `OnTimeout` has not been called on a connection if and only if each of its
idle checks whose time has passed expired after the connection had been destroyed. What the
connection read and wrote plays no part. -/
theorem idle_timeout_exact (delays : Nat → Bool) (s : World)
    (c : Config World Query Answer Callback Method) (fresh : Fresh s)
    (reached : system.Reachable (environment delays) s c) (between : c.stack = []) (conn : Nat) :
    conn ∉ c.state.timeouts ↔ ∀ i ∈ c.state.insertions, ∀ id, i.entry = .timeout id conn →
      i.at_ + i.delay ≤ c.state.wheel.tick_ →
      ∃ r ∈ c.state.released, r.entry = i.entry ∧ r.at_ = i.at_ + i.delay ∧ r.alive = false := by
  have controlled : c.controlled := Config.controlled_of_nil between
  obtain ⟨valid,settled⟩ := timers_invariant delays s c fresh reached controlled
  have settled := settled (by rw [between]; rfl)
  rw [valid.made.timeouts]
  constructor
  · intro quiet i among id check passed
    obtain ⟨r,released,same,when⟩ := check_released valid settled i among check passed
    refine ⟨r,released,same,when,?_⟩
    by_contra alive
    exact quiet ⟨r,released,id,same.trans check,Bool.not_eq_false _ ▸ alive⟩
  · rintro gone ⟨r,released,id,entry,alive⟩
    obtain ⟨i,among,same,_⟩ := valid.past.first r released
    have check := same.trans entry
    have brief := valid.made.short i among id conn check
    have passed := short_of_not_owned valid (valid.past.gone r released) i among same brief
    obtain ⟨other,inside,also,_,dead⟩ := gone i among id check passed
    have one := single_release valid r other released inside (same.symm.trans also.symm)
    rw [one,dead] at alive
    cases alive

def connected : World :=
  { start with clients := fun _ =>
    ⟨⟨5,kEventRead,false,false,false,false,[],[]⟩,true,true,none,0⟩ }

theorem connected_fresh : Fresh connected := ⟨rfl,rfl,rfl,rfl,rfl,rfl,rfl⟩

def activeRun : List (Move World Query Answer Callback Method) :=
  [.enter (.enableCheckIdleTimeout 0 2),.enter (.onTimer 1000),
    .enter (.handler 0 .onRead),.answer (.result ⟨1,0,[65]⟩),.answer (.result ⟨-1,EAGAIN,[]⟩),
    .enter (.onTimer 2000),
    .enter (.handler 0 .onRead),.answer (.result ⟨1,0,[66]⟩),.answer (.result ⟨-1,EAGAIN,[]⟩),
    .enter (.onTimer 3000),.answer (.entry (.timeout 0 0)),.answer (.result ⟨0,0,[]⟩)]

/-- The check has fired, the connection being alive. -/
theorem idle_timeout_exact_fired :
    ∃ c : Config World Query Answer Callback Method, 0 ∈ c.state.timeouts ∧
      (0 ∉ c.state.timeouts ↔ ∀ i ∈ c.state.insertions, ∀ id, i.entry = .timeout id 0 →
        i.at_ + i.delay ≤ c.state.wheel.tick_ →
        ∃ r ∈ c.state.released, r.entry = i.entry ∧ r.at_ = i.at_ + i.delay ∧ r.alive = false) := by
  have reached := system.play_reachable (environment short) 60 activeRun connected _ rfl
  refine ⟨_,?_,idle_timeout_exact short connected _ connected_fresh reached ?_ 0⟩
  · decide
  · decide

/-- A connection that is active in every tick is timed out all the same. -/
theorem idle_timeout_active :
    ∃ c, system.Reachable (environment short) connected c ∧ c.stack = [] ∧
      (∀ t < c.state.wheel.tick_, (0,t) ∈ c.state.activity) ∧ 0 ∈ c.state.timeouts ∧
      (c.state.clients 0).max_idle_time_ = 2 ∧ c.state.wheel.tick_ = 2 := by
  have reached := system.play_reachable (environment short) 60 activeRun connected _ rfl
  refine ⟨_,reached,?_⟩
  decide

end Tmms.Network.Timers
