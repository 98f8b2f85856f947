import Mathlib.Algebra.Ring.Nat
import Mathlib.Data.List.Basic
import Mathlib.Logic.Function.Basic

/-! Functors given to a loop from any thread. Another thread takes `lock_`, pushes and wakes
the loop; the loop's own thread runs the functor at once. `RunFunctions` holds `lock_` while
it runs the functors in place, each at the front of the queue. Threads interleave in any
order, one step at a time. -/
namespace Tmms.Network.FunctorQueue

/-- A functor, by the functors it gives to the same loop while it runs. -/
inductive Func where
  | mk (id : Nat) (calls : List Func)

def Func.calls : Func → List Func
  | .mk _ calls => calls

inductive Thread where
  | loop
  | other (n : Nat)
  deriving DecidableEq

inductive Producer where
  | outside
  | locking (f : Func)
  | pushing (f : Func)
  | waking
  | unlocking

/-- From its `lock_guard` to the end of its block. -/
def Producer.holds : Producer → Bool
  | .pushing _ | .waking | .unlocking => true
  | _ => false

/-- The loop's thread: in `RunFunctions` from `locking` to the end of `running`. -/
inductive Phase where
  | outside
  | locking
  | draining
  | running
  deriving DecidableEq

inductive Run where
  | queued (f : Func)
  | direct (f : Func)

structure Frame where
  run : Run
  rest : List Func

/-- A finished call of `RunFunctions`: the queue when it took `lock_`, what it ran, and the
queue when it let go of `lock_`. -/
structure Drain where
  taken : List Func
  ran : List Func
  left : List Func

/-- The queue, the threads at it, and what has happened, oldest first: pushes, functors begun and
finished, and calls of `RunFunctions`, the current one apart. -/
structure State where
  functions_ : List Func
  lock_ : Option Thread
  pipe_event_ : Bool
  producers : Nat → Producer
  phase : Phase
  frames : List Frame
  pushed : List Func
  runs : List Run
  finished : List Run
  drains : List Drain
  taken : List Func
  ran : List Func

def initial : State where
  functions_ := []
  lock_ := none
  pipe_event_ := false
  producers := fun _ => .outside
  phase := .outside
  frames := []
  pushed := []
  runs := []
  finished := []
  drains := []
  taken := []
  ran := []

inductive Move where
  -- another thread, or a handler, a timer or the user on the loop's thread outside `RunFunctions`
  | call (thread : Thread) (f : Func)
  | lock (n : Nat)
  | push (n : Nat)
  | wakeUp (n : Nat)
  | unlock (n : Nat)
  | nested
  -- the running functor returns, and with it the call that ran it
  | finish
  | runFunctions
  | lockLoop
  | front
  | pop
  | unlockLoop

/-- `EventLoop::RunInLoop` up to its first step that another thread can see. -/
def runInLoop : Thread → Func → State → Option State
  | .loop,f,s => some { s with frames := ⟨.direct f,f.calls⟩ :: s.frames, runs := s.runs ++ [.direct f] }
  | .other n,f,s =>
    match s.producers n with
    | .outside => some { s with producers := Function.update s.producers n (.locking f) }
    | _ => none

def step (s : State) : Move → Option State
  | .call .loop f => if s.phase = .outside ∧ s.frames = [] then runInLoop .loop f s else none
  | .call (.other n) f => runInLoop (.other n) f s
  | .lock n =>
    match s.producers n,s.lock_ with
    | .locking f,none => some { s with
        lock_ := some (.other n), producers := Function.update s.producers n (.pushing f) }
    | _,_ => none
  | .push n =>
    match s.producers n with
    | .pushing f => some { s with
        functions_ := s.functions_ ++ [f], pushed := s.pushed ++ [f],
        producers := Function.update s.producers n .waking }
    | _ => none
  | .wakeUp n =>
    match s.producers n with
    | .waking => some { s with
        pipe_event_ := true, producers := Function.update s.producers n .unlocking }
    | _ => none
  | .unlock n =>
    match s.producers n with
    | .unlocking => some { s with
        lock_ := none, producers := Function.update s.producers n .outside }
    | _ => none
  | .nested =>
    match s.frames with
    | ⟨run,f :: rest⟩ :: below => runInLoop .loop f { s with frames := ⟨run,rest⟩ :: below }
    | _ => none
  | .finish =>
    match s.frames with
    | ⟨run,[]⟩ :: below => some { s with frames := below, finished := s.finished ++ [run] }
    | _ => none
  | .runFunctions =>
    if s.phase = .outside ∧ s.frames = [] then some { s with phase := .locking } else none
  | .lockLoop =>
    if s.phase = .locking ∧ s.lock_ = none then
      some { s with phase := .draining, lock_ := some .loop, taken := s.functions_, ran := [] }
    else none
  | .front =>
    match s.phase,s.functions_ with
    | .draining,f :: _ => some { s with
        phase := .running, frames := [⟨.queued f,f.calls⟩], runs := s.runs ++ [.queued f],
        ran := s.ran ++ [f] }
    | _,_ => none
  | .pop =>
    if s.phase = .running ∧ s.frames = [] then
      some { s with phase := .draining, functions_ := s.functions_.tail }
    else none
  | .unlockLoop =>
    if s.phase = .draining ∧ s.functions_ = [] then
      some { s with phase := .outside, lock_ := none,
                    drains := s.drains ++ [⟨s.taken,s.ran,s.functions_⟩] }
    else none

/-- The moves that a state allows, each with what it requires and the state it leads to. -/
inductive Stepped (s : State) : Move → State → Prop
  | given (f : Func) (outside : s.phase = .outside) (idle : s.frames = []) :
    Stepped s (.call .loop f)
      { s with frames := ⟨.direct f,f.calls⟩ :: s.frames, runs := s.runs ++ [.direct f] }
  | calling (n : Nat) (f : Func) (outside : s.producers n = .outside) :
    Stepped s (.call (.other n) f)
      { s with producers := Function.update s.producers n (.locking f) }
  | locked (n : Nat) (f : Func) (locking : s.producers n = .locking f) (free : s.lock_ = none) :
    Stepped s (.lock n)
      { s with lock_ := some (.other n), producers := Function.update s.producers n (.pushing f) }
  | pushed (n : Nat) (f : Func) (pushing : s.producers n = .pushing f) :
    Stepped s (.push n)
      { s with
        functions_ := s.functions_ ++ [f], pushed := s.pushed ++ [f],
        producers := Function.update s.producers n .waking }
  | woken (n : Nat) (waking : s.producers n = .waking) :
    Stepped s (.wakeUp n)
      { s with pipe_event_ := true, producers := Function.update s.producers n .unlocking }
  | unlocked (n : Nat) (unlocking : s.producers n = .unlocking) :
    Stepped s (.unlock n)
      { s with lock_ := none, producers := Function.update s.producers n .outside }
  | nested (run : Run) (f : Func) (rest : List Func) (below : List Frame)
      (frames : s.frames = ⟨run,f :: rest⟩ :: below) :
    Stepped s .nested
      { s with
        frames := ⟨.direct f,f.calls⟩ :: ⟨run,rest⟩ :: below, runs := s.runs ++ [.direct f] }
  | finished (run : Run) (below : List Frame) (frames : s.frames = ⟨run,[]⟩ :: below) :
    Stepped s .finish { s with frames := below, finished := s.finished ++ [run] }
  | entered (outside : s.phase = .outside) (idle : s.frames = []) :
    Stepped s .runFunctions { s with phase := .locking }
  | held (locking : s.phase = .locking) (free : s.lock_ = none) :
    Stepped s .lockLoop
      { s with phase := .draining, lock_ := some .loop, taken := s.functions_, ran := [] }
  | begun (f : Func) (rest : List Func) (draining : s.phase = .draining)
      (queue : s.functions_ = f :: rest) :
    Stepped s .front
      { s with
        phase := .running, frames := [⟨.queued f,f.calls⟩], runs := s.runs ++ [.queued f],
        ran := s.ran ++ [f] }
  | popped (running : s.phase = .running) (idle : s.frames = []) :
    Stepped s .pop { s with phase := .draining, functions_ := s.functions_.tail }
  | released (draining : s.phase = .draining) (empty : s.functions_ = []) :
    Stepped s .unlockLoop
      { s with
        phase := .outside, lock_ := none,
        drains := s.drains ++ [⟨s.taken,s.ran,s.functions_⟩] }

theorem step_cases {s next : State} {move : Move} (stepped : step s move = some next) :
    Stepped s move next := by
  cases move with
  | call thread f =>
    cases thread with
    | loop =>
      simp only [step,runInLoop] at stepped
      split at stepped
      · next ready => cases stepped; exact .given f ready.1 ready.2
      · contradiction
    | other n =>
      simp only [step,runInLoop] at stepped
      split at stepped
      · next outside => cases stepped; exact .calling n f outside
      · contradiction
  | lock n =>
    simp only [step] at stepped
    split at stepped
    · next f locking free => cases stepped; exact .locked n f locking free
    · contradiction
  | push n =>
    simp only [step] at stepped
    split at stepped
    · next f pushing => cases stepped; exact .pushed n f pushing
    · contradiction
  | wakeUp n =>
    simp only [step] at stepped
    split at stepped
    · next waking => cases stepped; exact .woken n waking
    · contradiction
  | unlock n =>
    simp only [step] at stepped
    split at stepped
    · next unlocking => cases stepped; exact .unlocked n unlocking
    · contradiction
  | nested =>
    simp only [step,runInLoop] at stepped
    split at stepped
    · next run f rest below frames => cases stepped; exact .nested run f rest below frames
    · contradiction
  | finish =>
    simp only [step] at stepped
    split at stepped
    · next run below frames => cases stepped; exact .finished run below frames
    · contradiction
  | runFunctions =>
    simp only [step] at stepped
    split at stepped
    · next ready => cases stepped; exact .entered ready.1 ready.2
    · contradiction
  | lockLoop =>
    simp only [step] at stepped
    split at stepped
    · next ready => cases stepped; exact .held ready.1 ready.2
    · contradiction
  | front =>
    simp only [step] at stepped
    split at stepped
    · next f rest draining queue => cases stepped; exact .begun f rest draining queue
    · contradiction
  | pop =>
    simp only [step] at stepped
    split at stepped
    · next done => cases stepped; exact .popped done.1 done.2
    · contradiction
  | unlockLoop =>
    simp only [step] at stepped
    split at stepped
    · next done => cases stepped; exact .released done.1 done.2
    · contradiction

def exec : List Move → State → Option State
  | [],s => some s
  | move :: moves,s => (step s move).bind (exec moves)

def Reachable (s : State) : Prop := ∃ moves, exec moves initial = some s

def queued (runs : List Run) : List Func :=
  runs.filterMap fun run =>
    match run with
    | .queued f => some f
    | .direct _ => none

@[simp] theorem queued_append (left right : List Run) :
    queued (left ++ right) = queued left ++ queued right := List.filterMap_append

@[simp] theorem queued_direct (f : Func) : queued [.direct f] = [] := rfl

@[simp] theorem queued_queued (f : Func) : queued [.queued f] = [f] := rfl

/-- What is in the queue and has not been begun. -/
def waiting (phase : Phase) (functions_ : List Func) : List Func :=
  match phase with
  | .running => functions_.tail
  | _ => functions_

/-- What holds after every step of any thread. -/
structure Coherent (s : State) : Prop where
  order : s.pushed = queued s.runs ++ waiting s.phase s.functions_
  front : s.phase = .running → s.functions_ ≠ []
  drained : ∀ d ∈ s.drains, d.ran = d.taken ∧ d.left = []
  taken : s.phase = .draining ∨ s.phase = .running → s.taken = s.ran ++ waiting s.phase s.functions_
  holder : s.lock_ = some .loop ↔ s.phase = .draining ∨ s.phase = .running
  producer : ∀ n, (s.producers n).holds = true → s.lock_ = some (.other n)
  quiet : s.phase = .draining ∨ s.phase = .locking → s.frames = []

theorem initial_coherent : Coherent initial := by
  constructor
  all_goals simp [initial,waiting,queued,Producer.holds]

section Step
variable {s : State}

/-- A producer that holds `lock_` keeps the loop out of the queue. -/
theorem loop_outside (coherent : Coherent s) (n : Nat) (holds : (s.producers n).holds = true) :
    ¬(s.phase = .draining ∨ s.phase = .running) := by
  intro inside
  have loop := coherent.holder.mpr inside
  rw [coherent.producer n holds] at loop
  cases loop

theorem waiting_outside {phase : Phase} (outside : ¬(phase = .draining ∨ phase = .running))
    (functions_ : List Func) : waiting phase functions_ = functions_ := by
  cases phase <;> simp_all [waiting]

/-- One producer moves on; the others are where they were. -/
theorem producer_update {producers : Nat → Producer} {lock : Option Thread} {n : Nat} {p : Producer}
    (own : p.holds = true → lock = some (.other n))
    (others : ∀ m, m ≠ n → (producers m).holds = true → lock = some (.other m)) (m : Nat)
    (holds : (Function.update producers n p m).holds = true) : lock = some (.other m) := by
  by_cases same : m = n
  · subst same
    rw [Function.update_self] at holds
    exact own holds
  · rw [Function.update_of_ne same] at holds
    exact others m same holds

/-- No two threads hold `lock_`. -/
theorem alone (coherent : Coherent s) {n m : Nat} (holds : (s.producers n).holds = true)
    (different : m ≠ n) : (s.producers m).holds = false := by
  by_contra other
  have first := coherent.producer n holds
  rw [coherent.producer m (Bool.not_eq_false _ ▸ other)] at first
  cases first
  exact different rfl

/-- What a producer does but push does not concern the queue. -/
theorem producer_coherent (coherent : Coherent s) (n : Nat) (p : Producer) (lock : Option Thread) (event : Bool)
    (loop : lock = some .loop ↔ s.lock_ = some .loop) (own : p.holds = true → lock = some (.other n))
    (others : ∀ m, m ≠ n → (s.producers m).holds = true → lock = some (.other m)) :
    Coherent { s with
      lock_ := lock, pipe_event_ := event, producers := Function.update s.producers n p } :=
  ⟨coherent.order,coherent.front,coherent.drained,coherent.taken,loop.trans coherent.holder,
    producer_update own others,coherent.quiet⟩

theorem call_coherent (coherent : Coherent s) (f : Func) (frames : List Frame)
    (busy : s.phase = .outside ∨ s.phase = .running) :
    Coherent { s with frames := frames, runs := s.runs ++ [.direct f] } := by
  refine ⟨?_,coherent.front,coherent.drained,coherent.taken,coherent.holder,coherent.producer,?_⟩
  · simp only [queued_append,queued_direct,List.append_nil]
    exact coherent.order
  · intro quiet
    have phase : s.phase = .draining ∨ s.phase = .locking := quiet
    rcases busy with outside | running <;> simp_all

end Step

/-- Every step keeps the invariant. -/
theorem step_coherent (s next : State) (move : Move) (coherent : Coherent s)
    (stepped : step s move = some next) : Coherent next := by
  have others := coherent.producer
  cases step_cases stepped with
  | given f outside idle => exact call_coherent coherent f _ (Or.inl outside)
  | calling n f outside =>
    exact producer_coherent coherent n _ s.lock_ s.pipe_event_ Iff.rfl (fun holds => by cases holds)
      fun m _ => others m
  | locked n f locking free =>
    refine producer_coherent coherent n _ _ s.pipe_event_ ?_ (fun _ => rfl) fun m _ holds => ?_
    · rw [free]
      exact iff_of_false (fun loop => by cases loop) fun loop => by cases loop
    · have held := others m holds
      rw [free] at held
      cases held
  | pushed n f pushing =>
    have holds : (s.producers n).holds = true := by rw [pushing]; rfl
    have outside := loop_outside coherent n holds
    refine ⟨?_,fun running => absurd (Or.inr running) outside,coherent.drained,
      fun inside => absurd inside outside,coherent.holder,?_,coherent.quiet⟩
    · have order := coherent.order
      rw [waiting_outside outside] at order
      rw [waiting_outside outside,order,List.append_assoc]
    · exact producer_update (fun _ => others n holds) fun m _ => others m
  | woken n waking =>
    have holds : (s.producers n).holds = true := by rw [waking]; rfl
    exact producer_coherent coherent n _ s.lock_ true Iff.rfl (fun _ => others n holds) fun m _ => others m
  | unlocked n unlocking =>
    have holds : (s.producers n).holds = true := by rw [unlocking]; rfl
    refine producer_coherent coherent n _ none s.pipe_event_ ?_ (fun none => by cases none) fun m different also => ?_
    · rw [others n holds]
      exact iff_of_false (fun loop => by cases loop) fun loop => by cases loop
    · rw [alone coherent holds different] at also
      cases also
  | nested run f rest below frames =>
    have busy : s.phase = .outside ∨ s.phase = .running := by
      have quiet := coherent.quiet
      rw [frames] at quiet
      cases phase : s.phase <;> simp [phase] at quiet ⊢
    exact call_coherent coherent f _ busy
  | finished run below frames =>
    refine ⟨coherent.order,coherent.front,coherent.drained,coherent.taken,coherent.holder,
      coherent.producer,fun quiet => ?_⟩
    have empty := coherent.quiet quiet
    rw [frames] at empty
    cases empty
  | entered outside idle =>
    have order := coherent.order
    rw [outside] at order
    refine ⟨order,fun running => (by cases running),coherent.drained,?_,?_,coherent.producer,
      fun _ => idle⟩
    · rintro (draining | running)
      · cases draining
      · cases running
    · rw [coherent.holder]
      simp [outside]
  | held locking free =>
    have order := coherent.order
    rw [locking] at order
    refine ⟨order,fun running => (by cases running),coherent.drained,fun _ => rfl,?_,?_,
      fun _ => coherent.quiet (Or.inr locking)⟩
    · exact ⟨fun _ => Or.inl rfl,fun _ => rfl⟩
    · intro n holds
      have held := others n holds
      rw [free] at held
      cases held
  | begun f rest draining queue =>
    have order := coherent.order
    have taken := coherent.taken (Or.inl draining)
    have locked := coherent.holder.mpr (Or.inl draining)
    rw [draining,queue] at order taken
    refine ⟨?_,fun _ empty => ?_,coherent.drained,fun _ => ?_,?_,coherent.producer,?_⟩
    · rw [order,queued_append,List.append_assoc,queue]
      rfl
    · rw [queue] at empty
      cases empty
    · rw [taken,List.append_assoc,queue]
      rfl
    · exact ⟨fun _ => Or.inr rfl,fun _ => locked⟩
    · rintro (draining | locking)
      · cases draining
      · cases locking
  | popped running idle =>
    have order := coherent.order
    have taken := coherent.taken (Or.inr running)
    have locked := coherent.holder.mpr (Or.inr running)
    rw [running] at order taken
    exact ⟨order,fun running => (by cases running),coherent.drained,fun _ => taken,
      ⟨fun _ => Or.inl rfl,fun _ => locked⟩,coherent.producer,fun _ => idle⟩
  | released draining empty =>
    have order := coherent.order
    have taken := coherent.taken (Or.inl draining)
    have locked := coherent.holder.mpr (Or.inl draining)
    rw [draining] at order taken
    refine ⟨order,fun running => (by cases running),?_,?_,?_,?_,?_⟩
    · intro d among
      rcases List.mem_append.mp among with old | now
      · exact coherent.drained d old
      · rw [List.mem_singleton.mp now]
        rw [empty] at taken
        exact ⟨by simpa [waiting] using taken.symm,empty⟩
    · rintro (draining | running)
      · cases draining
      · cases running
    · exact ⟨fun free => (by cases free),by rintro (draining | running) <;> contradiction⟩
    · intro n holds
      have held := others n holds
      rw [locked] at held
      cases held
    · rintro (draining | locking)
      · cases draining
      · cases locking

section Ending

mutual

/-- Steps of the loop's thread that a functor takes, the call that runs it included. -/
def Func.cost : Func → Nat
  | .mk _ calls => costs calls + 2

def costs : List Func → Nat
  | [] => 0
  | f :: rest => f.cost + costs rest

end

/-- Steps left for the loop's thread in the current call of `RunFunctions`. -/
def work (s : State) : Nat :=
  match s.phase with
  | .draining => (s.functions_.map fun f => f.cost + 2).sum + 1
  | .running => (s.frames.map fun frame => costs frame.rest + 1).sum +
      (s.functions_.tail.map fun f => f.cost + 2).sum + 2
  | _ => 0

variable {s next : State} {move : Move}

end Ending

section Direct
variable {s next last : State} {move : Move} {below : List Frame}

/-- What a step does while the loop's thread is in the middle of a functor: the queue grows
at its end at most, no queued functor is begun, and frames come and go on top. -/
structure InFunctor (s next : State) : Prop where
  runs : ∃ inner, next.runs = s.runs ++ inner ∧ queued inner = []
  queue : ∃ extra, next.functions_ = s.functions_ ++ extra
  frames : (next.frames = s.frames ∧ next.finished = s.finished) ∨
    (∃ run f rest below, s.frames = ⟨run,f :: rest⟩ :: below ∧
      next.frames = ⟨.direct f,f.calls⟩ :: ⟨run,rest⟩ :: below ∧ next.finished = s.finished) ∨
    ∃ run below, s.frames = ⟨run,[]⟩ :: below ∧ next.frames = below ∧
      next.finished = s.finished ++ [run]

structure Returned (below : List Frame) (run : Run) (s last : State) : Prop where
  frames : last.frames = below
  queue : ∃ extra, last.functions_ = s.functions_ ++ extra
  runs : ∃ inner, last.runs = s.runs ++ inner ∧ queued inner = []
  finished : ∃ ended, last.finished = s.finished ++ ended ++ [run]

theorem Returned.step {run : Run} (first : InFunctor s next) (rest : Returned below run next last)
    (finished : ∃ ended, next.finished = s.finished ++ ended) : Returned below run s last := by
  obtain ⟨inner,runs,direct⟩ := first.runs
  obtain ⟨extra,queue⟩ := first.queue
  obtain ⟨more,further,also⟩ := rest.runs
  obtain ⟨added,pushes⟩ := rest.queue
  obtain ⟨ended,now⟩ := finished
  obtain ⟨later,all⟩ := rest.finished
  refine ⟨rest.frames,⟨extra ++ added,?_⟩,⟨inner ++ more,?_,?_⟩,⟨ended ++ later,?_⟩⟩
  · rw [pushes,queue,List.append_assoc]
  · rw [further,runs,List.append_assoc]
  · rw [queued_append,direct,also]
    rfl
  · rw [all,now]
    simp only [List.append_assoc]

end Direct

/-- Only `RunFunctions` begins a functor of the queue, and it holds `lock_` then. -/
theorem step_queued (s next : State) (move : Move) (coherent : Coherent s)
    (stepped : step s move = some next) (begins : queued next.runs ≠ queued s.runs) :
    move = .front ∧ s.lock_ = some .loop ∧ ∃ f, queued next.runs = queued s.runs ++ [f] := by
  cases step_cases stepped with
  | begun f rest draining queue =>
    have locked := coherent.holder.mpr (Or.inl draining)
    exact ⟨rfl,locked,f,by rw [queued_append,queued_queued]⟩
  | given f outside idle => simp at begins
  | nested run f rest below frames => simp at begins
  | _ => contradiction

end Tmms.Network.FunctorQueue
