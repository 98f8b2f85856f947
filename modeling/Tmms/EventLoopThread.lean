import Tmms.Transition

/-! A thread that owns an event loop, and the thread that starts and stops it: one step at a time,
in any order. -/
namespace Tmms.Network.EventLoopThread

inductive Who where
  | thread
  | owner
  deriving DecidableEq

inductive Place where
  | construct
  | lock
  -- the predicate of the wait
  | test
  | waiting
  | publish
  | setValue
  -- `looping_ = true` at the head of `EventLoop::Loop`
  | enter
  | looping
  | turn
  | clear
  | unlock
  | destroy
  | finished
  deriving DecidableEq

/-- Where the owner is: in `Run`, called by itself or by the destructor, or in the rest of the
destructor. -/
inductive Owner where
  | idle
  | once
  | lock
  | running
  | notify
  | unlock
  | get
  | loop
  | quit
  | join
  | destroyed
  deriving DecidableEq

structure State where
  loop_ : Bool
  lock_ : Option Who
  running_ : Bool
  once_ : Bool
  promise_loop_ : Bool
  looping_ : Bool
  thread : Place
  owner : Owner
  destroying : Bool
  deriving DecidableEq

def initial : State where
  loop_ := false
  lock_ := none
  running_ := false
  once_ := false
  promise_loop_ := false
  looping_ := false
  thread := .construct
  owner := .idle
  destroying := false

def quit (s : State) : State := { s with looping_ := false }

def startEventLoop (s : State) : Option State :=
  match s.thread with
  | .construct => some { s with thread := .lock }
  | .lock => if s.lock_ = none then some { s with lock_ := some .thread,thread := .test } else none
  | .test =>
    if s.running_ then some { s with thread := .publish }
    else some { s with lock_ := none,thread := .waiting }
  | .waiting => none
  | .publish => some { s with loop_ := true,thread := .setValue }
  | .setValue => some { s with promise_loop_ := true,thread := .enter }
  | .enter => some { s with looping_ := true,thread := .looping }
  | .looping => some { s with thread := if s.looping_ then .turn else .clear }
  | .turn => some { s with thread := .looping }
  | .clear => some { s with loop_ := false,thread := .unlock }
  | .unlock => some { s with lock_ := none,thread := .destroy }
  | .destroy => some { quit s with thread := .finished }
  | .finished => none

/-- Where the owner goes when `Run` returns. -/
def returned (s : State) : Owner := if s.destroying then .loop else .idle

def ownerStep (s : State) : Option State :=
  match s.owner with
  | .idle => none
  | .once => some { s with owner := if s.once_ then returned s else .lock }
  | .lock => if s.lock_ = none then some { s with lock_ := some .owner,owner := .running } else none
  | .running => some { s with running_ := true,owner := .notify }
  | .notify => some { s with thread := if s.thread = .waiting then .lock else s.thread,owner := .unlock }
  | .unlock => some { s with lock_ := none,owner := .get }
  | .get => if s.promise_loop_ then some { s with once_ := true,owner := returned s } else none
  | .loop => some { s with owner := if s.loop_ then .quit else .join }
  | .quit => some { quit s with owner := .join }
  | .join => if s.thread = .finished then some { s with owner := .destroyed } else none
  | .destroyed => none

inductive Move where
  | thread
  -- the wait on the condition ends on its own
  | wake
  | run
  | destroy
  | owner
  deriving DecidableEq

def step (s : State) : Move → Option State
  | .thread => startEventLoop s
  | .wake => if s.thread = .waiting then some { s with thread := .lock } else none
  | .run => if s.owner = .idle then some { s with owner := .once } else none
  | .destroy => if s.owner = .idle then some { s with owner := .once,destroying := true } else none
  | .owner => ownerStep s

def Place.entered : Place → Bool
  | .looping | .turn | .clear | .unlock | .destroy | .finished => true
  | _ => false

/-- How many steps the thread has before it ends, when `looping_` is false. -/
def Place.remaining : Place → Nat
  | .turn => 5
  | .looping => 4
  | .clear => 3
  | .unlock => 2
  | .destroy => 1
  | _ => 0

/-- From here `looping_` stays false whatever is done, the thread is never held up, and when it has
taken five more steps it has ended, so that the join goes through. -/
def Stops (s : State) : Prop :=
  ∀ moves later, Transition.exec step moves s = some later →
    later.looping_ = false ∧ (later.thread = .finished ∨ ∃ next, step later .thread = some next) ∧
      (5 ≤ moves.count .thread → later.thread = .finished) ∧
      (later.thread = .finished → later.owner = .join → ∃ next, step later .owner = some next)

structure Stopped (s : State) : Prop where
  looping_ : s.looping_ = false
  entered : s.thread.entered

theorem Stopped.thread {s next : State} (stopped : Stopped s) (stepped : startEventLoop s = some next) :
    Stopped next ∧ next.thread.remaining + 1 = s.thread.remaining := by
  obtain ⟨looping_,entered⟩ := stopped
  unfold startEventLoop at stepped
  split at stepped <;> rename_i place <;> rw [place] at entered
  case h_7 | h_1 | h_2 | h_3 | h_4 | h_5 | h_6 => cases entered
  case h_8 =>
    rw [looping_] at stepped
    cases stepped
    rw [place]
    exact ⟨⟨rfl,rfl⟩,rfl⟩
  case h_12 =>
    cases stepped
    rw [place]
    exact ⟨⟨rfl,rfl⟩,rfl⟩
  case h_13 => cases stepped
  all_goals
    cases stepped
    rw [place]
    exact ⟨⟨looping_,rfl⟩,rfl⟩

/-- No one else moves the thread once it is in `Loop`. -/
theorem Stopped.other {s next : State} {move : Move} (stopped : Stopped s) (other : move ≠ .thread)
    (stepped : step s move = some next) : Stopped next ∧ next.thread = s.thread := by
  obtain ⟨looping_,entered⟩ := stopped
  have awake : s.thread ≠ .waiting := by
    intro waiting
    rw [waiting] at entered
    cases entered
  have same : next.looping_ = s.looping_ ∨ next.looping_ = false := by
    cases move <;> grind [step,ownerStep,quit]
  have place : next.thread = s.thread := by
    cases move <;> grind [step,ownerStep,quit]
  refine ⟨⟨?_,by rwa [place]⟩,place⟩
  rcases same with same | same
  · rw [same,looping_]
  · exact same

theorem Stopped.run {moves : List Move} {s later : State} (stopped : Stopped s)
    (run : Transition.exec step moves s = some later) :
    Stopped later ∧ later.thread.remaining + moves.count .thread = s.thread.remaining := by
  induction moves generalizing s with
  | nil =>
    cases run
    exact ⟨stopped,rfl⟩
  | cons move moves ih =>
    obtain ⟨next,stepped,rest⟩ := Option.bind_eq_some_iff.mp run
    by_cases own : move = .thread
    · subst own
      obtain ⟨kept,lower⟩ := stopped.thread stepped
      obtain ⟨after,count⟩ := ih kept rest
      refine ⟨after,?_⟩
      rw [List.count_cons_self]
      omega
    · obtain ⟨kept,same⟩ := stopped.other own stepped
      obtain ⟨after,count⟩ := ih kept rest
      rw [same] at count
      rw [List.count_cons_of_ne own]
      exact ⟨after,count⟩

structure Started (s : State) : Prop where
  once_ : s.once_ → s.promise_loop_
  owner : s.owner = .loop ∨ s.owner = .quit ∨ s.owner = .join ∨ s.owner = .destroyed → s.promise_loop_
  thread : s.promise_loop_ → s.thread = .enter ∨ s.thread.entered

theorem Started.move {s next : State} {move : Move} (started : Started s)
    (stepped : step s move = some next) : Started next := by
  obtain ⟨once_,owner,thread⟩ := started
  cases move with
  | thread =>
    refine ⟨?_,?_,?_⟩ <;> grind [step,startEventLoop,quit,Place.entered]
  | owner =>
    refine ⟨?_,?_,?_⟩ <;> grind [step,ownerStep,returned,quit,Place.entered]
  | _ =>
    refine ⟨?_,?_,?_⟩ <;> grind [step,Place.entered]

theorem Started.reachable {s : State} (reached : Transition.Reachable step (fun _ => True) initial s) :
    Started s :=
  reached.invariant Started (fun _ _ _ _ started stepped => started.move stepped)
    ⟨by decide,by decide,by decide⟩

theorem Place.finished_or_goes_on {place : Place} (entered : place.entered) :
    place = .finished ∨ 0 < place.remaining := by
  cases place <;> first | exact .inl rfl | exact .inr (by decide) | cases entered

/-- The steps of the thread outside the wait and outside `lock_`. -/
theorem startEventLoop_enabled {s : State} (remaining : 0 < s.thread.remaining) :
    ∃ next, startEventLoop s = some next := by
  cases place : s.thread <;> rw [place] at remaining <;>
    first | cases remaining; done | exact ⟨_,by rw [startEventLoop,place]⟩

theorem Stopped.stops {s : State} (stopped : Stopped s) : Stops s := by
  intro moves later run
  obtain ⟨after,count⟩ := stopped.run run
  have bound : s.thread.remaining ≤ 5 := by
    cases s.thread <;> decide
  refine ⟨after.looping_,?_,?_,?_⟩
  · exact (Place.finished_or_goes_on after.entered).imp_right startEventLoop_enabled
  · intro enough
    exact (Place.finished_or_goes_on after.entered).resolve_right (by omega)
  · intro finished join
    exact ⟨_,by rw [step,ownerStep,join]; exact if_pos finished⟩

/-- A loop that `~EventLoopThread` has quit stays stopped, and the destructor gets through, if and
only if the thread had got as far as `looping_ = true` in `Loop`. -/
theorem stops_iff_entered {s stopped : State}
    (reached : Transition.Reachable step (fun _ => True) initial s) (quitting : s.owner = .quit)
    (stepped : step s .owner = some stopped) : Stops stopped ↔ s.thread.entered := by
  have equal : stopped = { quit s with owner := .join } := by
    simp only [step,ownerStep,quitting] at stepped
    exact (Option.some.inj stepped).symm
  constructor
  · intro stops
    have started := Started.reachable reached
    rcases started.thread (started.owner (.inr (.inl quitting))) with before | entered
    · -- the thread's next step sets `looping_` again
      have again : Transition.exec step [.thread] stopped =
          some { stopped with looping_ := true,thread := .looping } := by
        simp [Transition.exec,step,startEventLoop,equal,quit,before]
      cases (stops _ _ again).1
    · exact entered
  · intro entered
    subst equal
    exact Stopped.stops ⟨rfl,entered⟩

/-- The owner destroys the object at once, and comes to `loop_->Quit()` while the thread has
fulfilled the promise and not yet called `Loop`. -/
def hasty : List Move :=
  [.thread,.thread,.thread,.destroy,.owner,.owner,.owner,.owner,.owner,.thread,.thread,.thread,.thread,
    .owner,.owner]

theorem stops_iff_entered_later :
    ∃ s stopped, Transition.exec step (hasty ++ [.thread]) initial = some s ∧
      step s .owner = some stopped ∧ Stops stopped := by
  refine ⟨_,_,rfl,rfl,?_⟩
  exact (stops_iff_entered ⟨hasty ++ [.thread],fun _ _ => trivial,rfl⟩ rfl rfl).mpr rfl

theorem loops_after_quit :
    ¬ ∀ s stopped later : State, Transition.Reachable step (fun _ => True) initial s → s.owner = .quit →
      step s .owner = some stopped → Transition.Reachable step (fun _ => True) stopped later →
        later.looping_ = false := by
  intro stays
  have quiet := stays _ _ _ ⟨hasty,fun _ _ => trivial,rfl⟩ rfl rfl ⟨[.thread],fun _ _ => trivial,rfl⟩
  exact absurd quiet (by decide)

end Tmms.Network.EventLoopThread
