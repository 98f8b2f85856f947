import Mathlib.Data.List.Count
import Tmms.FunctorQueue

/-! How often a connection is reported active. `Active` tests `active_` on its caller's thread
and leaves the rest to a functor of the loop, which sets `active_` when it comes to run; calls
whose tests come before that each post a functor of their own. Functors of the user go through
the same queue. Threads interleave in any order, one step at a time. -/
namespace Tmms.Network.Activation

open FunctorQueue (Thread Phase)

inductive Functor where
  | activate
  | user
  deriving DecidableEq

inductive Producer where
  | outside
  | locking (f : Functor)
  | pushing (f : Functor)
  | waking
  | unlocking
  deriving DecidableEq

def Producer.activating : Producer → Bool
  | .locking .activate | .pushing .activate => true
  | _ => false

/-- What the loop's thread is in: `Active`'s functor before its store and before its test of
`active_cb_`, the callback, or a functor of the user. -/
inductive Frame where
  | storing
  | calling
  | callback
  | user
  deriving DecidableEq

def Functor.frame : Functor → Frame
  | .activate => .storing
  | .user => .user

structure State where
  active_ : Bool
  active_cb_ : Bool
  functions_ : List Functor
  lock_ : Option Thread
  threads : List Producer
  phase : Phase
  frames : List Frame
  -- calls that found the flag unset, functors that have set it, and of these the ones that called
  -- `active_cb_` and that found none
  passed : Nat
  stored : Nat
  activations : Nat
  missed : Nat

def initial (threads : Nat) (active_cb_ : Bool) : State where
  active_ := false
  active_cb_ := active_cb_
  functions_ := []
  lock_ := none
  threads := List.replicate threads .outside
  phase := .outside
  frames := []
  passed := 0
  stored := 0
  activations := 0
  missed := 0

inductive Move where
  | active (thread : Thread)
  | runInLoop (thread : Thread)
  | lock (n : Nat)
  | push (n : Nat)
  | wakeUp (n : Nat)
  | unlock (n : Nat)
  | store
  | callback
  -- the callback or the user's functor returns
  | finish
  | setActiveCallback (set : Bool)
  | runFunctions
  | lockLoop
  | front
  | pop
  | unlockLoop
  deriving DecidableEq

/-- A thread runs code that may make any call: on the loop's thread a handler, a timer, a
functor of the user's or the callback. -/
def State.free (s : State) : Thread → Bool
  | .other n => s.threads[n]? = some .outside
  | .loop =>
    match s.frames with
    | [] => s.phase = .outside
    | frame :: _ => frame = .callback ∨ frame = .user

/-- `EventLoop::RunInLoop` up to its first step that another thread can see. -/
def runInLoop (f : Functor) (s : State) : Thread → State
  | .loop => { s with frames := f.frame :: s.frames }
  | .other n => { s with threads := s.threads.set n (.locking f) }

def active (thread : Thread) (s : State) : State :=
  if s.active_ then s else runInLoop .activate { s with passed := s.passed + 1 } thread

def step (s : State) : Move → Option State
  | .active thread => if s.free thread then some (active thread s) else none
  | .runInLoop thread => if s.free thread then some (runInLoop .user s thread) else none
  | .lock n =>
    match s.threads[n]?,s.lock_ with
    | some (.locking f),none => some { s with
        lock_ := some (.other n), threads := s.threads.set n (.pushing f) }
    | _,_ => none
  | .push n =>
    match s.threads[n]? with
    | some (.pushing f) => some { s with
        functions_ := s.functions_ ++ [f], threads := s.threads.set n .waking }
    | _ => none
  | .wakeUp n =>
    match s.threads[n]? with
    | some .waking => some { s with threads := s.threads.set n .unlocking }
    | _ => none
  | .unlock n =>
    match s.threads[n]? with
    | some .unlocking => some { s with lock_ := none, threads := s.threads.set n .outside }
    | _ => none
  | .store =>
    match s.frames with
    | .storing :: below => some { s with
        active_ := true, frames := .calling :: below, stored := s.stored + 1 }
    | _ => none
  | .callback =>
    match s.frames with
    | .calling :: below =>
      if s.active_cb_ then some { s with frames := .callback :: below, activations := s.activations + 1 }
      else some { s with frames := below, missed := s.missed + 1 }
    | _ => none
  | .finish =>
    match s.frames with
    | .callback :: below | .user :: below => some { s with frames := below }
    | _ => none
  | .setActiveCallback set => some { s with active_cb_ := set }
  | .runFunctions =>
    if s.phase = .outside ∧ s.frames = [] then some { s with phase := .locking } else none
  | .lockLoop =>
    if s.phase = .locking ∧ s.lock_ = none then some { s with phase := .draining, lock_ := some .loop }
    else none
  | .front =>
    match s.phase,s.functions_ with
    | .draining,f :: _ => some { s with phase := .running, frames := [f.frame] }
    | _,_ => none
  | .pop =>
    if s.phase = .running ∧ s.frames = [] then
      some { s with phase := .draining, functions_ := s.functions_.tail }
    else none
  | .unlockLoop =>
    if s.phase = .draining ∧ s.functions_ = [] then some { s with phase := .outside, lock_ := none }
    else none

/-- The moves that a state allows, each with what it requires and the state it leads to. -/
inductive Stepped (s : State) : Move → State → Prop
  | found (thread : Thread) (free : s.free thread = true) (set : s.active_ = true) :
    Stepped s (.active thread) s
  | passed (thread : Thread) (free : s.free thread = true) (unset : s.active_ = false) :
    Stepped s (.active thread) (runInLoop .activate { s with passed := s.passed + 1 } thread)
  | given (thread : Thread) (free : s.free thread = true) :
    Stepped s (.runInLoop thread) (runInLoop .user s thread)
  | locked (n : Nat) (f : Functor) (locking : s.threads[n]? = some (.locking f)) (unheld : s.lock_ = none) :
    Stepped s (.lock n) { s with
      lock_ := some (.other n), threads := s.threads.set n (.pushing f) }
  | pushed (n : Nat) (f : Functor) (pushing : s.threads[n]? = some (.pushing f)) :
    Stepped s (.push n) { s with
      functions_ := s.functions_ ++ [f], threads := s.threads.set n .waking }
  | woken (n : Nat) (waking : s.threads[n]? = some .waking) :
    Stepped s (.wakeUp n) { s with threads := s.threads.set n .unlocking }
  | unlocked (n : Nat) (unlocking : s.threads[n]? = some .unlocking) :
    Stepped s (.unlock n) { s with lock_ := none, threads := s.threads.set n .outside }
  | stored (below : List Frame) (frames : s.frames = .storing :: below) :
    Stepped s .store { s with
      active_ := true, frames := .calling :: below, stored := s.stored + 1 }
  | called (below : List Frame) (frames : s.frames = .calling :: below) (set : s.active_cb_ = true) :
    Stepped s .callback { s with frames := .callback :: below, activations := s.activations + 1 }
  | missed (below : List Frame) (frames : s.frames = .calling :: below) (unset : s.active_cb_ = false) :
    Stepped s .callback { s with frames := below, missed := s.missed + 1 }
  | finished (frame : Frame) (below : List Frame) (frames : s.frames = frame :: below)
      (user : frame = .callback ∨ frame = .user) :
    Stepped s .finish { s with frames := below }
  | setActiveCallback (set : Bool) :
    Stepped s (.setActiveCallback set) { s with active_cb_ := set }
  | entered (outside : s.phase = .outside) (idle : s.frames = []) :
    Stepped s .runFunctions { s with phase := .locking }
  | held (locking : s.phase = .locking) (unheld : s.lock_ = none) :
    Stepped s .lockLoop { s with phase := .draining, lock_ := some .loop }
  | begun (f : Functor) (rest : List Functor) (draining : s.phase = .draining) (queue : s.functions_ = f :: rest) :
    Stepped s .front { s with phase := .running, frames := [f.frame] }
  | popped (running : s.phase = .running) (idle : s.frames = []) :
    Stepped s .pop { s with phase := .draining, functions_ := s.functions_.tail }
  | released (draining : s.phase = .draining) (empty : s.functions_ = []) :
    Stepped s .unlockLoop { s with phase := .outside, lock_ := none }

theorem step_cases {s next : State} {move : Move} (stepped : step s move = some next) :
    Stepped s move next := by
  cases move with
  | active thread =>
    simp only [step,active] at stepped
    split at stepped
    · next free =>
      split at stepped
      · next set => cases stepped; exact .found thread free set
      · next unset => cases stepped; exact .passed thread free (Bool.eq_false_iff.mpr unset)
    · contradiction
  | runInLoop thread =>
    simp only [step] at stepped
    split at stepped
    · next free => cases stepped; exact .given thread free
    · contradiction
  | lock n =>
    simp only [step] at stepped
    split at stepped
    · next f locking unheld => cases stepped; exact .locked n f locking unheld
    · contradiction
  | push n =>
    simp only [step] at stepped
    split at stepped
    · next f pushing => cases stepped; exact .pushed n f pushing
    · contradiction
  | wakeUp n =>
    simp only [step] at stepped
    split at stepped
    · next waking => cases stepped; exact .woken n waking
    · contradiction
  | unlock n =>
    simp only [step] at stepped
    split at stepped
    · next unlocking => cases stepped; exact .unlocked n unlocking
    · contradiction
  | store =>
    simp only [step] at stepped
    split at stepped
    · next below frames => cases stepped; exact .stored below frames
    · contradiction
  | callback =>
    simp only [step] at stepped
    split at stepped
    · next below frames =>
      split at stepped
      · next set => cases stepped; exact .called below frames set
      · next unset => cases stepped; exact .missed below frames (Bool.eq_false_iff.mpr unset)
    · contradiction
  | finish =>
    simp only [step] at stepped
    split at stepped
    · next below frames => cases stepped; exact .finished .callback below frames (Or.inl rfl)
    · next below frames => cases stepped; exact .finished .user below frames (Or.inr rfl)
    · contradiction
  | setActiveCallback set =>
    cases stepped
    exact .setActiveCallback set
  | runFunctions =>
    simp only [step] at stepped
    split at stepped
    · next ready => cases stepped; exact .entered ready.1 ready.2
    · contradiction
  | lockLoop =>
    simp only [step] at stepped
    split at stepped
    · next ready => cases stepped; exact .held ready.1 ready.2
    · contradiction
  | front =>
    simp only [step] at stepped
    split at stepped
    · next f rest draining queue => cases stepped; exact .begun f rest draining queue
    · contradiction
  | pop =>
    simp only [step] at stepped
    split at stepped
    · next done => cases stepped; exact .popped done.1 done.2
    · contradiction
  | unlockLoop =>
    simp only [step] at stepped
    split at stepped
    · next done => cases stepped; exact .released done.1 done.2
    · contradiction

def exec : List Move → State → Option State
  | [],s => some s
  | move :: moves,s => (step s move).bind (exec moves)

def State.waiting (s : State) : List Functor :=
  match s.phase with
  | .running => s.functions_.tail
  | _ => s.functions_

/-- The calls of `Active` that found the flag unset and whose functors have not set it. -/
def State.pending (s : State) : Nat :=
  s.threads.countP Producer.activating + s.waiting.count .activate + s.frames.count .storing

/-- What holds after every step of any thread. -/
structure Balanced (s : State) : Prop where
  passed : s.passed = s.pending + s.stored
  flag : s.active_ = true ↔ 0 < s.stored
  stored : s.stored = s.activations + s.missed + s.frames.count .calling
  front : s.phase = .running → s.functions_ ≠ []
  idle : s.phase = .locking ∨ s.phase = .draining → s.frames = []

theorem initial_balanced (threads : Nat) (active_cb_ : Bool) : Balanced (initial threads active_cb_) := by
  have none : (List.replicate threads Producer.outside).countP Producer.activating = 0 := by
    rw [List.countP_replicate]
    rfl
  constructor
  · simp [initial,State.pending,State.waiting,none]
  · simp [initial]
  · simp [initial]
  · exact fun running => by cases running
  · exact fun _ => rfl

section Step
variable {s : State}

theorem countP_moved {threads : List Producer} {n : Nat} {before : Producer} (found : threads[n]? = some before)
    (after : Producer) :
    (threads.set n after).countP Producer.activating + before.activating.toNat =
      threads.countP Producer.activating + after.activating.toNat := by
  induction threads generalizing n with
  | nil => cases found
  | cons thread threads ih =>
    cases n with
    | zero =>
      cases found
      simp only [List.set_cons_zero,List.countP_cons]
      cases before.activating <;> cases after.activating <;> simp
    | succ n =>
      have rest := ih (n := n) (by simpa using found)
      simp only [List.set_cons_succ,List.countP_cons]
      omega

/-- A functor comes to one of the loop's frames, or to a thread that will push it. -/
theorem runInLoop_pending (f : Functor) (thread : Thread) (free : s.free thread = true) :
    (runInLoop f s thread).pending = s.pending + (decide (f = .activate)).toNat := by
  cases thread with
  | loop =>
    cases f <;> simp [runInLoop,State.pending,State.waiting,Functor.frame,Nat.add_assoc]
  | other n =>
    have outside : s.threads[n]? = some .outside := of_decide_eq_true free
    have moved := countP_moved outside (.locking f)
    cases f <;> simp [runInLoop,State.pending,State.waiting,Producer.activating] at moved ⊢ <;> omega

theorem runInLoop_balanced (balanced : Balanced s) (f : Functor) (thread : Thread) (free : s.free thread = true) :
    Balanced (runInLoop f { s with passed := s.passed + (decide (f = .activate)).toNat } thread) := by
  obtain ⟨passed,flag,stored,front,idle⟩ := balanced
  have pending : (runInLoop f { s with passed := s.passed + (decide (f = .activate)).toNat } thread).pending =
      s.pending + (decide (f = .activate)).toNat := runInLoop_pending f thread free
  cases thread with
  | loop =>
    refine ⟨?_,flag,?_,front,fun quiet => ?_⟩
    · rw [pending]
      change s.passed + (decide (f = .activate)).toNat = _ + s.stored
      omega
    · cases f <;> simpa [runInLoop,Functor.frame] using stored
    · have none := idle quiet
      have outside : s.phase = .outside := by simpa [State.free,none] using free
      have quiet : s.phase = .locking ∨ s.phase = .draining := quiet
      simp [outside] at quiet
  | other n =>
    refine ⟨?_,flag,stored,front,idle⟩
    rw [pending]
    change s.passed + (decide (f = .activate)).toNat = _ + s.stored
    omega

theorem moved_pending {n : Nat} {before : Producer} (found : s.threads[n]? = some before) (after : Producer)
    (lock : Option Thread) (same : after.activating = before.activating) :
    State.pending { s with lock_ := lock, threads := s.threads.set n after } = s.pending := by
  have moved := countP_moved found after
  rw [same] at moved
  have count := Nat.add_right_cancel moved
  simp only [State.pending,State.waiting,count]

theorem pushed_pending (front : s.phase = .running → s.functions_ ≠ []) {n : Nat} {f : Functor}
    (pushing : s.threads[n]? = some (.pushing f)) :
    State.pending { s with functions_ := s.functions_ ++ [f], threads := s.threads.set n .waking } =
      s.pending := by
  have moved := countP_moved pushing .waking
  have waiting : State.waiting { s with functions_ := s.functions_ ++ [f], threads := s.threads.set n .waking } =
      s.waiting ++ [f] := by
    cases phase : s.phase with
    | running =>
      simp only [State.waiting,phase]
      exact List.tail_append_of_ne_nil (front phase)
    | outside | locking | draining => simp only [State.waiting,phase]
  unfold State.pending at *
  rw [waiting,List.count_append]
  cases f with
  | activate =>
    simp only [Producer.activating,Bool.toNat_true,Bool.toNat_false] at moved
    simp only [List.count_singleton_self]
    omega
  | user =>
    simp only [Producer.activating,Bool.toNat_false] at moved
    simp only [List.count_singleton]
    simp
    omega

theorem step_balanced (balanced : Balanced s) (move : Move) (next : State) (stepped : step s move = some next) :
    Balanced next := by
  obtain ⟨passed,flag,stored,front,idle⟩ := balanced
  cases step_cases stepped with
  | found thread free set => exact ⟨passed,flag,stored,front,idle⟩
  | passed thread free unset =>
    exact runInLoop_balanced ⟨passed,flag,stored,front,idle⟩ .activate thread free
  | given thread free => exact runInLoop_balanced ⟨passed,flag,stored,front,idle⟩ .user thread free
  | locked n f locking unheld =>
    refine ⟨?_,flag,stored,front,idle⟩
    rw [moved_pending locking (.pushing f) _ (by cases f <;> rfl)]
    exact passed
  | pushed n f pushing =>
    refine ⟨?_,flag,stored,fun _ => by simp,idle⟩
    rw [pushed_pending front pushing]
    exact passed
  | woken n waking =>
    refine ⟨?_,flag,stored,front,idle⟩
    rw [moved_pending waking .unlocking s.lock_ rfl]
    exact passed
  | unlocked n unlocking =>
    refine ⟨?_,flag,stored,front,idle⟩
    rw [moved_pending unlocking .outside none rfl]
    exact passed
  | stored below frames =>
    refine ⟨?_,?_,?_,front,fun quiet => absurd (idle quiet) (by simp [frames])⟩
    · simp [State.pending,State.waiting,frames] at passed ⊢
      omega
    · simp
    · simp [frames] at stored ⊢
      omega
  | called below frames set =>
    refine ⟨?_,flag,?_,front,fun quiet => absurd (idle quiet) (by simp [frames])⟩
    · simpa [State.pending,State.waiting,frames] using passed
    · simp [frames] at stored ⊢
      omega
  | missed below frames unset =>
    refine ⟨?_,flag,?_,front,fun quiet => absurd (idle quiet) (by simp [frames])⟩
    · simpa [State.pending,State.waiting,frames] using passed
    · simp [frames] at stored ⊢
      omega
  | finished frame below frames user =>
    refine ⟨?_,flag,?_,front,fun quiet => absurd (idle quiet) (by simp [frames])⟩
    · rcases user with rfl | rfl <;> simpa [State.pending,State.waiting,frames] using passed
    · rcases user with rfl | rfl <;> simpa [frames] using stored
  | setActiveCallback set => exact ⟨passed,flag,stored,front,idle⟩
  | entered outside none =>
    refine ⟨?_,flag,stored,fun running => (by cases running),fun _ => none⟩
    simpa [State.pending,State.waiting,outside] using passed
  | held locking unheld =>
    refine ⟨?_,flag,stored,fun running => (by cases running),fun _ => idle (Or.inl locking)⟩
    simpa [State.pending,State.waiting,locking] using passed
  | begun f rest draining queue =>
    have none := idle (Or.inr draining)
    refine ⟨?_,flag,?_,fun _ => by simp [queue],fun quiet => by simp at quiet⟩
    · simp [State.pending,State.waiting,draining,queue,none] at passed ⊢
      cases f <;> simp [Functor.frame] at passed ⊢ <;> omega
    · simp [none] at stored
      cases f <;> simpa [Functor.frame] using stored
  | popped running none =>
    refine ⟨?_,flag,stored,fun running => (by cases running),fun _ => none⟩
    simpa [State.pending,State.waiting,running] using passed
  | released draining empty =>
    refine ⟨?_,flag,stored,fun running => (by cases running),fun quiet => by simp at quiet⟩
    simpa [State.pending,State.waiting,draining] using passed

end Step

/-- A call of `Active` finds the flag set, or every earlier call that found it unset has set it. -/
def Apart (s : State) : Move → Prop
  | .active _ => s.active_ = true ∨ s.pending = 0
  | _ => True

def AllApart : List Move → State → Prop
  | [],_ => True
  | move :: moves,s => Apart s move ∧ ∀ next, step s move = some next → AllApart moves next

/-- A second call passes the test exactly where it comes before the store of the first. -/
theorem step_passed {s : State} (balanced : Balanced s) (move : Move) (next : State)
    (stepped : step s move = some next) : next.passed ≤ 1 ↔ Apart s move ∧ s.passed ≤ 1 := by
  cases step_cases stepped with
  | found thread free set => exact ⟨fun few => ⟨Or.inl set,few⟩,And.right⟩
  | passed thread free unset =>
    have count : (runInLoop .activate { s with passed := s.passed + 1 } thread).passed = s.passed + 1 := by
      cases thread <;> rfl
    have none : s.stored = 0 := by
      by_contra some
      have set := balanced.flag.mpr (Nat.pos_of_ne_zero some)
      rw [unset] at set
      cases set
    have sum := balanced.passed
    have apart : Apart s (.active thread) ↔ s.pending = 0 := by simp [Apart,unset]
    rw [count,apart]
    omega
  | given thread free =>
    have same : (runInLoop .user s thread).passed = s.passed := by cases thread <;> rfl
    rw [same]
    exact (and_iff_right trivial).symm
  | locked | pushed | woken | unlocked | stored | called | missed | finished | setActiveCallback
  | entered | held | begun | popped | released => exact (and_iff_right trivial).symm

theorem exec_passed (moves : List Move) (s final : State) (balanced : Balanced s)
    (ran : exec moves s = some final) :
    Balanced final ∧ (final.passed ≤ 1 ↔ AllApart moves s ∧ s.passed ≤ 1) := by
  induction moves generalizing s with
  | nil =>
    cases ran
    exact ⟨balanced,(and_iff_right trivial).symm⟩
  | cons move moves ih =>
    obtain ⟨next,stepped,rest⟩ := Option.bind_eq_some_iff.mp ran
    obtain ⟨last,few⟩ := ih next (step_balanced balanced move next stepped) rest
    have later : AllApart moves next ↔ ∀ after, step s move = some after → AllApart moves after := by
      simp [stepped]
    refine ⟨last,?_⟩
    rw [few,step_passed balanced move next stepped,AllApart,later]
    tauto

structure Reported (s : State) : Prop where
  pending : s.pending = 0
  calling : .calling ∉ s.frames
  missed : s.missed = 0

/-- In every run in which no call of `Active` comes between the test and the store of another,
`active_cb_` is called at most once; and where all that was posted has come to call it, it has
been called more than once in every other run. -/
theorem activated_once (threads : Nat) (active_cb_ : Bool) (moves : List Move) (final : State)
    (ran : exec moves (initial threads active_cb_) = some final) :
    (AllApart moves (initial threads active_cb_) → final.activations ≤ 1) ∧
      (Reported final → (final.activations ≤ 1 ↔ AllApart moves (initial threads active_cb_))) := by
  obtain ⟨balanced,few⟩ := exec_passed moves _ final (initial_balanced threads active_cb_) ran
  have passed := balanced.passed
  have stored := balanced.stored
  have none : (initial threads active_cb_).passed ≤ 1 := Nat.zero_le 1
  constructor
  · intro apart
    have once := few.mpr ⟨apart,none⟩
    omega
  · intro reported
    have calling := List.count_eq_zero.mpr reported.calling
    have same : final.activations = final.passed := by
      rw [passed,reported.pending,stored,reported.missed,calling]
      omega
    rw [same,few]
    exact and_iff_left none

def call : List Move := [.active (.other 0),.lock 0,.push 0,.wakeUp 0,.unlock 0]

def drain : List Move := [.runFunctions,.lockLoop]

def run : List Move := [.front,.store,.callback,.finish,.pop]

/-- A second call after the functor of the first finds the flag set. -/
theorem activated_once_later :
    ∃ final, exec (call ++ drain ++ run ++ [.unlockLoop,.active (.other 0)]) (initial 1 true) = some final ∧
      final.activations = 1 ∧ AllApart (call ++ drain ++ run ++ [.unlockLoop,.active (.other 0)]) (initial 1 true) := by
  refine ⟨_,rfl,rfl,?_⟩
  exact ((activated_once 1 true _ _ rfl).2 ⟨rfl,by decide,rfl⟩).mp (by decide)

/-- Two calls before the loop runs either functor. -/
theorem activated_twice :
    ∃ final, exec (call ++ call ++ drain ++ run ++ run) (initial 1 true) = some final ∧
      final.activations = 2 ∧ ¬final.activations ≤ 1 :=
  ⟨_,rfl,rfl,by decide⟩

end Tmms.Network.Activation
