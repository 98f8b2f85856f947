import Tmms.FunctorQueue
import Tmms.Transition
import Tmms.WaitGraph

/-! Several loops, each on its own thread, and other threads beside them. A functor that a loop
runs out of its queue runs with that loop's `lock_` held, and may give functors to any loop:
to its own, which runs them at once, or to another, whose `lock_` it waits for. -/
namespace Tmms.Network.LoopGroup

open FunctorQueue (Phase)

variable {ι : Type}

/-- A functor, by the calls of `RunInLoop` it makes: on which loop, and with which functor. -/
inductive Func (ι : Type) where
  | mk (posts : List (ι × Func ι))

def Func.posts : Func ι → List (ι × Func ι)
  | .mk posts => posts

inductive Thread (ι : Type) where
  | loop (i : ι)
  | other (n : Nat)
  deriving DecidableEq

inductive Posting (ι : Type) where
  | outside
  | locking (target : ι) (f : Func ι)
  | pushing (target : ι) (f : Func ι)
  | waking (target : ι)
  | unlocking (target : ι)

structure State (ι : Type) where
  functions_ : ι → List (Func ι)
  lock_ : ι → Option (Thread ι)
  phase : ι → Phase
  -- the functors a loop's thread is running, innermost first, by the calls they have still to make
  frames : ι → List (List (ι × Func ι))
  posting : Thread ι → Posting ι

def initial : State ι where
  functions_ := fun _ => []
  lock_ := fun _ => none
  phase := fun _ => .outside
  frames := fun _ => []
  posting := fun _ => .outside

inductive Move (ι : Type) where
  -- a thread that is no loop's, or a handler, a timer or the user on a loop's thread outside
  -- `RunFunctions`
  | call (thread : Thread ι) (target : ι) (f : Func ι)
  | lock (thread : Thread ι)
  | push (thread : Thread ι)
  | wakeUp (thread : Thread ι)
  | unlock (thread : Thread ι)
  | nested (i : ι)
  | finish (i : ι)
  | runFunctions (i : ι)
  | lockLoop (i : ι)
  | front (i : ι)
  | pop (i : ι)
  | unlockLoop (i : ι)

variable [DecidableEq ι]

/-- `EventLoop::RunInLoop` up to its first step that another thread can see. -/
def runInLoop (thread : Thread ι) (target : ι) (f : Func ι) (s : State ι) : State ι :=
  if thread = .loop target then
    { s with frames := Function.update s.frames target (f.posts :: s.frames target) }
  else { s with posting := Function.update s.posting thread (.locking target f) }

def atLarge (s : State ι) : Thread ι → Bool
  | .loop i => decide (s.phase i = .outside ∧ s.frames i = [])
  | .other _ => true

def step (s : State ι) : Move ι → Option (State ι)
  | .call thread target f =>
    match s.posting thread with
    | .outside => if atLarge s thread then some (runInLoop thread target f s) else none
    | _ => none
  | .lock thread =>
    match s.posting thread with
    | .locking target f =>
      if s.lock_ target = none then some { s with
        lock_ := Function.update s.lock_ target (some thread)
        posting := Function.update s.posting thread (.pushing target f) }
      else none
    | _ => none
  | .push thread =>
    match s.posting thread with
    | .pushing target f => some { s with
        functions_ := Function.update s.functions_ target (s.functions_ target ++ [f])
        posting := Function.update s.posting thread (.waking target) }
    | _ => none
  | .wakeUp thread =>
    match s.posting thread with
    | .waking target => some { s with posting := Function.update s.posting thread (.unlocking target) }
    | _ => none
  | .unlock thread =>
    match s.posting thread with
    | .unlocking target => some { s with
        lock_ := Function.update s.lock_ target none
        posting := Function.update s.posting thread .outside }
    | _ => none
  | .nested i =>
    match s.frames i,s.posting (.loop i) with
    | ((target,f) :: rest) :: below,.outside =>
      some (runInLoop (.loop i) target f { s with frames := Function.update s.frames i (rest :: below) })
    | _,_ => none
  | .finish i =>
    match s.frames i,s.posting (.loop i) with
    | [] :: below,.outside => some { s with frames := Function.update s.frames i below }
    | _,_ => none
  | .runFunctions i =>
    match s.posting (.loop i) with
    | .outside =>
      if s.phase i = .outside ∧ s.frames i = [] then
        some { s with phase := Function.update s.phase i .locking }
      else none
    | _ => none
  | .lockLoop i =>
    if s.phase i = .locking ∧ s.lock_ i = none then some { s with
      phase := Function.update s.phase i .draining
      lock_ := Function.update s.lock_ i (some (.loop i)) }
    else none
  | .front i =>
    match s.phase i,s.functions_ i with
    | .draining,f :: _ => some { s with
        phase := Function.update s.phase i .running
        frames := Function.update s.frames i [f.posts] }
    | _,_ => none
  | .pop i =>
    if s.phase i = .running ∧ s.frames i = [] then some { s with
      phase := Function.update s.phase i .draining
      functions_ := Function.update s.functions_ i (s.functions_ i).tail }
    else none
  | .unlockLoop i =>
    if s.phase i = .draining ∧ s.functions_ i = [] then some { s with
      phase := Function.update s.phase i .outside
      lock_ := Function.update s.lock_ i none }
    else none

/-- The functors that may be given to each loop, by whom ever. -/
def Offered (P : ι → Func ι → Prop) : Move ι → Prop
  | .call _ target f => P target f
  | _ => True

def Reachable (P : ι → Func ι → Prop) (s : State ι) : Prop :=
  Transition.Reachable step (Offered P) initial s

/-- What a functor gives to a loop is one of the functors given to that loop. -/
def Complete (P : ι → Func ι → Prop) : Prop :=
  ∀ i f, P i f → ∀ post ∈ f.posts, P post.1 post.2

/-- A functor given to loop `i` calls `RunInLoop` on another loop. -/
def Posts (P : ι → Func ι → Prop) (i j : ι) : Prop :=
  i ≠ j ∧ ∃ f, P i f ∧ ∃ g, (j,g) ∈ f.posts

/-- Loop `i` is in `RunFunctions` with its own `lock_` held, and in `RunInLoop` it waits for the
`lock_` of loop `j`. -/
def Waits (s : State ι) (i j : ι) : Prop :=
  (s.phase i = .draining ∨ s.phase i = .running) ∧ s.lock_ i = some (.loop i) ∧
    ∃ f, s.posting (.loop i) = .locking j f

end Tmms.Network.LoopGroup
