import Tmms.FunctorQueue
import Tmms.Transition

/-! The pipe that wakes a loop. A producer pushes its functor and then writes eight bytes,
both with `lock_` held; the loop's thread blocks in `epoll_wait`, takes one message for each
report of the pipe, and goes on to `RunFunctions`. Messages can stay behind, up to a full
pipe, so what wakes the loop is not what is in the pipe but the edge a write has raised. -/
namespace Tmms.Network.WakeUp

open FunctorQueue (Func Thread Phase Coherent)

inductive Point where
  | blocking
  -- in the `for` loop; whether the report of the pipe is still to come
  | dispatching (pipe : Bool)
  | functions
  | timers
  deriving DecidableEq

structure State where
  queue : FunctorQueue.State
  point : Point
  fill : Nat
  -- an edge of the pipe that `epoll_wait` has not reported
  edge : Bool

def initial : State where
  queue := FunctorQueue.initial
  point := .blocking
  fill := 0
  edge := false

inductive Move where
  | queue (move : FunctorQueue.Move)
  -- `epoll_wait` returns a batch, the report of the pipe in it or not, or it fails
  | wait (pipe : Bool)
  | interrupted
  | onRead
  | endBatch
  | endTimers

/-- Which moves of the queue the loop's thread makes where; other threads are not bound. -/
def Point.allows (point : Point) : FunctorQueue.Move → Bool
  | .call .loop _ => point != .blocking && point != .functions
  | .nested | .finish => point != .blocking
  | .runFunctions | .lockLoop | .front | .pop | .unlockLoop => point == .functions
  | _ => true

/-- `PipeEvent::Write` of eight bytes, to a pipe that holds `capacity` such messages. -/
def write (capacity : Nat) (s : State) : State :=
  if s.fill < capacity then { s with fill := s.fill + 1, edge := true } else s

/-- What a move of the queue does to the pipe and to the loop's place. -/
def react (capacity : Nat) (s : State) : FunctorQueue.Move → State
  | .wakeUp _ => write capacity s
  | .unlockLoop => { s with point := .timers }
  | _ => s

def step (capacity : Nat) (s : State) : Move → Option State
  | .queue move =>
    if s.point.allows move then
      (FunctorQueue.step s.queue move).map fun queue => { react capacity s move with queue := queue }
    else none
  | .wait pipe =>
    if s.point = .blocking ∧ (pipe = true → s.edge = true) then
      some { s with point := .dispatching pipe, edge := s.edge && !pipe }
    else none
  | .interrupted => if s.point = .blocking then some s else none
  | .onRead =>
    if s.point = .dispatching true ∧ s.queue.frames = [] then
      some { s with point := .dispatching false, fill := s.fill - 1 }
    else none
  | .endBatch =>
    if s.point = .dispatching false ∧ s.queue.frames = [] then some { s with point := .functions }
    else none
  | .endTimers =>
    if s.point = .timers ∧ s.queue.frames = [] then some { s with point := .blocking } else none

def Reachable (capacity : Nat) (s : State) : Prop :=
  Transition.Reachable (step capacity) (fun _ => True) initial s

theorem step_queue {capacity : Nat} {s next : State} {move : FunctorQueue.Move}
    (stepped : step capacity s (.queue move) = some next) :
    s.point.allows move = true ∧ ∃ queue, FunctorQueue.step s.queue move = some queue ∧
      next = { react capacity s move with queue := queue } := by
  simp only [step] at stepped
  split at stepped
  · next allowed =>
    obtain ⟨queue,moved,rfl⟩ := Option.map_eq_some_iff.mp stepped
    exact ⟨allowed,queue,moved,rfl⟩
  · contradiction

/-- Something will make the loop look at its queue: the edge, or else the producer of the only
functor in it, which has pushed and not yet written. -/
def Stirred (s : State) : Prop :=
  s.edge = true ∨ ∃ n f, s.queue.producers n = .waking ∧ s.queue.functions_ = [f]

/-- What holds after every step of any thread. -/
structure Awake (capacity : Nat) (s : State) : Prop where
  coherent : Coherent s.queue
  inside : s.queue.phase ≠ .outside → s.point = .functions
  full : s.fill ≤ capacity
  -- without an edge, reported or not, there is room
  room : s.edge = false → s.point ≠ .dispatching true → s.fill < capacity
  stirred : s.point = .blocking ∨ s.point = .timers → s.queue.functions_ ≠ [] → Stirred s

theorem initial_awake (capacity : Nat) (positive : 1 ≤ capacity) : Awake capacity initial := by
  constructor
  · exact FunctorQueue.initial_coherent
  · intro inside
    exact absurd rfl inside
  · exact Nat.zero_le _
  · exact fun _ _ => positive
  · intro _ waiting
    exact absurd rfl waiting

section Step
variable {capacity : Nat} {s : State} {queue : FunctorQueue.State}

theorem outside (awake : Awake capacity s) (elsewhere : s.point ≠ .functions) :
    s.queue.phase = .outside := by
  by_contra inside
  exact elsewhere (awake.inside inside)

/-- The loop takes up its queue before it blocks again. -/
theorem soon {point : Point} {stirred : Prop} (blocking : point ≠ .blocking) (timers : point ≠ .timers)
    (away : point = .blocking ∨ point = .timers) : stirred := by
  rcases away with here | here
  · exact absurd here blocking
  · exact absurd here timers

theorem write_full (awake : Awake capacity s) : (write capacity s).fill ≤ capacity := by
  unfold write
  split
  · next room => exact room
  · exact awake.full

/-- Where the loop blocks or is about to, a write finds room or an edge. -/
theorem write_edge (awake : Awake capacity s) (away : s.point ≠ .dispatching true) :
    (write capacity s).edge = true := by
  unfold write
  split
  · rfl
  · next full =>
    cases edge : s.edge with
    | true => rfl
    | false => exact absurd (awake.room edge away) full

theorem write_point : (write capacity s).point = s.point := by
  unfold write
  split
  · rfl
  · rfl

theorem still (awake : Awake capacity s) (coherent : Coherent queue)
    (phase : queue.phase ≠ .outside → s.point = .functions)
    (functions_ : queue.functions_ = s.queue.functions_)
    (waking : ∀ n, s.queue.producers n = .waking → queue.producers n = .waking) :
    Awake capacity { s with queue := queue } := by
  refine ⟨coherent,phase,awake.full,awake.room,?_⟩
  intro away waiting
  rw [functions_] at waiting
  rcases awake.stirred away waiting with edge | ⟨n,f,woken,only⟩
  · exact Or.inl edge
  · exact Or.inr ⟨n,f,waking n woken,functions_.trans only⟩

/-- A step of the loop's thread from `RunFunctions` to `RunFunctions`. -/
theorem within (awake : Awake capacity s) (coherent : Coherent queue) (functions : s.point = .functions) :
    Awake capacity { s with queue := queue } := by
  refine ⟨coherent,fun _ => functions,awake.full,awake.room,soon ?_ ?_⟩
  · rw [functions]
    decide
  · rw [functions]
    decide

theorem waking_update {producers : Nat → FunctorQueue.Producer} {n m : Nat} {p : FunctorQueue.Producer}
    (other : producers n ≠ .waking) (waking : producers m = .waking) :
    Function.update producers n p m = .waking := by
  rw [Function.update_of_ne]
  · exact waking
  · rintro rfl
    exact other waking

theorem push_stirred (awake : Awake capacity s) (n : Nat) (f : Func)
    (pushing : s.queue.producers n = .pushing f) (away : s.point = .blocking ∨ s.point = .timers) :
    s.edge = true ∨ s.queue.functions_ = [] := by
  by_cases waiting : s.queue.functions_ = []
  · exact Or.inr waiting
  · rcases awake.stirred away waiting with edge | ⟨m,g,waking,_⟩
    · exact Or.inl edge
    · -- two producers would hold `lock_`
      have first := awake.coherent.producer n (by rw [pushing]; rfl)
      rw [awake.coherent.producer m (by rw [waking]; rfl)] at first
      cases first
      rw [waking] at pushing
      cases pushing

theorem queue_awake (awake : Awake capacity s) (move : FunctorQueue.Move)
    (allowed : s.point.allows move = true) (moved : FunctorQueue.step s.queue move = some queue) :
    Awake capacity { react capacity s move with queue := queue } := by
  have coherent := FunctorQueue.step_coherent s.queue queue move awake.coherent moved
  have same : ∀ n, s.queue.producers n = .waking → s.queue.producers n = .waking := fun _ waking => waking
  cases FunctorQueue.step_cases moved with
  | given f outside idle => exact still awake coherent awake.inside rfl same
  | nested run f rest below frames => exact still awake coherent awake.inside rfl same
  | finished run below frames => exact still awake coherent awake.inside rfl same
  | calling n f outside =>
    apply still awake coherent awake.inside rfl
    exact fun m => waking_update (by rw [outside]; intro same; cases same)
  | locked n f locking free =>
    apply still awake coherent awake.inside rfl
    exact fun m => waking_update (by rw [locking]; intro same; cases same)
  | unlocked n unlocking =>
    apply still awake coherent awake.inside rfl
    exact fun m => waking_update (by rw [unlocking]; intro same; cases same)
  | pushed n f pushing =>
    refine ⟨coherent,awake.inside,awake.full,awake.room,?_⟩
    intro away _
    rcases push_stirred awake n f pushing away with edge | empty
    · exact Or.inl edge
    · refine Or.inr ⟨n,f,Function.update_self _ _ _,?_⟩
      change s.queue.functions_ ++ [f] = [f]
      rw [empty]
      rfl
  | woken n waking =>
    have place : (write capacity s).point = s.point := write_point
    refine ⟨coherent,fun inside => place.trans (awake.inside inside),write_full awake,?_,?_⟩
    · intro edge away
      have raised : (write capacity s).edge = true := write_edge awake fun report => away (place.trans report)
      exact absurd (raised.symm.trans edge) (by decide)
    · intro (away : (write capacity s).point = .blocking ∨ (write capacity s).point = .timers) _
      have elsewhere : s.point ≠ .dispatching true := by
        intro report
        rw [place,report] at away
        exact soon (by decide) (by decide) away
      exact Or.inl (write_edge awake elsewhere)
  | entered outside idle => exact within awake coherent (eq_of_beq allowed)
  | held locking free => exact within awake coherent (eq_of_beq allowed)
  | begun f rest draining waiting => exact within awake coherent (eq_of_beq allowed)
  | popped running idle => exact within awake coherent (eq_of_beq allowed)
  | released draining empty =>
    have functions : s.point = .functions := eq_of_beq allowed
    refine ⟨coherent,fun inside => absurd rfl inside,awake.full,?_,?_⟩
    · intro edge _
      apply awake.room edge
      rw [functions]
      decide
    · intro _ waiting
      exact absurd empty waiting

/-- Every step keeps the invariant. -/
theorem step_awake (positive : 1 ≤ capacity) (s : State) (move : Move) (next : State)
    (awake : Awake capacity s) (stepped : step capacity s move = some next) : Awake capacity next := by
  cases move with
  | queue move =>
    obtain ⟨allowed,queue,moved,rfl⟩ := step_queue stepped
    exact queue_awake awake move allowed moved
  | wait pipe =>
    simp only [step] at stepped
    split at stepped
    · next ready =>
      cases stepped
      have quiet := outside awake (by rw [ready.1]; decide)
      refine ⟨awake.coherent,absurd quiet,awake.full,?_,soon nofun nofun⟩
      intro edge away
      cases pipe with
      | true => exact absurd rfl away
      | false =>
        apply awake.room
        · simpa using edge
        · rw [ready.1]
          decide
    · contradiction
  | interrupted =>
    simp only [step] at stepped
    split at stepped
    · cases stepped
      exact awake
    · contradiction
  | onRead =>
    simp only [step] at stepped
    split at stepped
    · next ready =>
      cases stepped
      have quiet := outside awake (by rw [ready.1]; decide)
      have full := awake.full
      refine ⟨awake.coherent,absurd quiet,?_,?_,soon nofun nofun⟩
      · exact Nat.le_trans (Nat.sub_le _ _) full
      · intro _ _
        change s.fill - 1 < capacity
        omega
    · contradiction
  | endBatch =>
    simp only [step] at stepped
    split at stepped
    · next ready =>
      cases stepped
      refine ⟨awake.coherent,fun _ => rfl,awake.full,?_,soon nofun nofun⟩
      intro edge _
      apply awake.room edge
      rw [ready.1]
      decide
    · contradiction
  | endTimers =>
    simp only [step] at stepped
    split at stepped
    · next ready =>
      cases stepped
      have quiet := outside awake (by rw [ready.1]; decide)
      refine ⟨awake.coherent,absurd quiet,awake.full,?_,fun _ => awake.stirred (Or.inr ready.1)⟩
      intro edge _
      apply awake.room edge
      rw [ready.1]
      decide
    · contradiction

end Step

theorem reachable_awake {capacity : Nat} (positive : 1 ≤ capacity) {s : State}
    (reached : Reachable capacity s) : Awake capacity s :=
  reached.invariant (Awake capacity) (fun s move next _ => step_awake positive s move next) (initial_awake capacity positive)

/-- With no thread in `RunInLoop` past its lock, what is queued has its edge. -/
theorem stirred_unlocked {capacity : Nat} (positive : 1 ≤ capacity) {s : State}
    (reached : Reachable capacity s) (blocking : s.point = .blocking)
    (waiting : s.queue.functions_ ≠ []) (free : s.queue.lock_ = none) : s.edge = true := by
  have awake := reachable_awake positive reached
  rcases awake.stirred (Or.inl blocking) waiting with edge | ⟨n,f,waking,_⟩
  · exact edge
  · have held := awake.coherent.producer n (by rw [waking]; rfl)
    rw [free] at held
    cases held

/-- In every run, where the loop is about to block with functors in its queue, an edge of the
pipe is pending; or one producer has pushed the only one of them, holds `lock_` and has its
write before it, which finds room and raises the edge. -/
theorem no_lost_wakeUp (capacity : Nat) (positive : 1 ≤ capacity) (s : State)
    (reached : Reachable capacity s) (blocking : s.point = .blocking)
    (waiting : s.queue.functions_ ≠ []) :
    s.edge = true ∨ ∃ n f, s.queue.functions_ = [f] ∧ s.queue.producers n = .waking ∧
      s.queue.lock_ = some (.other n) ∧ s.fill < capacity ∧
      ∃ next, step capacity s (.queue (.wakeUp n)) = some next ∧ next.edge = true := by
  have awake := reachable_awake positive reached
  have away : s.point ≠ .dispatching true := by
    rw [blocking]
    decide
  cases edge : s.edge with
  | true => exact Or.inl rfl
  | false =>
    rcases awake.stirred (Or.inl blocking) waiting with raised | ⟨n,f,waking,only⟩
    · rw [edge] at raised
      cases raised
    · have held := awake.coherent.producer n (by rw [waking]; rfl)
      refine Or.inr ⟨n,f,only,waking,held,awake.room edge away,?_⟩
      obtain ⟨queue,moved⟩ : ∃ queue, FunctorQueue.step s.queue (.wakeUp n) = some queue := by
        simp [FunctorQueue.step,waking]
      refine ⟨{ write capacity s with queue := queue },?_,write_edge awake away⟩
      simp [step,Point.allows,moved,react]

/-- A pipe with room for one message. The loop has been given the report of the first write
when the second one finds the pipe full; it runs both functors and blocks, and a third
thread is between its push and its write. -/
def crowded : List Move :=
  [.queue (.call (.other 0) (.mk 0 [])),.queue (.lock 0),.queue (.push 0),.queue (.wakeUp 0),
    .queue (.unlock 0),.wait true,
    .queue (.call (.other 1) (.mk 1 [])),.queue (.lock 1),.queue (.push 1),.queue (.wakeUp 1),
    .queue (.unlock 1),.onRead,.endBatch,
    .queue .runFunctions,.queue .lockLoop,.queue .front,.queue .finish,.queue .pop,.queue .front,
    .queue .finish,.queue .pop,.queue .unlockLoop,.endTimers,
    .queue (.call (.other 2) (.mk 2 [])),.queue (.lock 2),.queue (.push 2)]

theorem no_lost_wakeUp_crowded :
    ∃ s, s.queue.functions_ ≠ [] ∧
      (s.edge = true ∨ ∃ n f, s.queue.functions_ = [f] ∧ s.queue.producers n = .waking ∧
        s.queue.lock_ = some (.other n) ∧ s.fill < 1 ∧
        ∃ next, step 1 s (.queue (.wakeUp n)) = some next ∧ next.edge = true) := by
  refine ⟨_,?_,no_lost_wakeUp 1 (by decide) _ ⟨crowded,fun _ _ => trivial,rfl⟩ rfl ?_⟩
  · exact List.cons_ne_nil _ _
  · exact List.cons_ne_nil _ _

/-- Between the push and the write there is no edge. -/
theorem pushed_without_edge :
    ∃ s, Reachable 1 s ∧ s.point = .blocking ∧ s.queue.functions_ ≠ [] ∧ s.edge = false := by
  refine ⟨_,⟨crowded,fun _ _ => trivial,rfl⟩,rfl,?_,rfl⟩
  exact List.cons_ne_nil _ _

end Tmms.Network.WakeUp
