import Mathlib.Logic.Function.Basic
import Tmms.ReentrantRules
import Tmms.TTime

/-! The manager of timed tasks. `OnWork` visits the tasks in the order of an unordered set,
holding the manager's lock while their callbacks run; a due time is kept, and compared with
the clock, as an `int16_t`. -/
namespace Tmms.Base

open Reentrant

namespace Tasks

/-- `Task`; the callback is the user's, `cb_` says whether there is one. -/
structure Task where
  interval_ : Int
  when_ : Int
  cb_ : Bool
  deriving DecidableEq

structure Run where
  task : Nat
  pass : Int
  at_ : Int
  deriving DecidableEq

/-- A comparison of a task's due time with the reading of a pass, both in real time. -/
structure Test where
  task : Nat
  due : Int
  pass : Int
  deriving DecidableEq

/-- The manager and its tasks, real time in milliseconds when it was last looked at, and what has
happened, oldest first: readings of `OnWork`, callbacks, comparisons, callbacks that have returned
without `Restart`, and erasures by `OnWork`. -/
structure World where
  tasks : Nat → Task
  made : Nat
  tasks_ : List Nat
  lock_ : Bool
  -- the part of `tasks_` that the loop of `OnWork` has not come to
  todo : List Nat
  clock : Int
  -- the due times before they are narrowed, and whether `Restart` has been called since the last run
  -- began
  due : Nat → Int
  restarted : Nat → Bool
  passes : List Int
  runs : List Run
  tests : List Test
  missed : List Nat
  erased : List Nat

inductive Query where
  | lock
  | gettimeofday
  | pick
  deriving DecidableEq

inductive Answer where
  | acquired
  | time (clock : Int)
  | task (id : Nat) (clock : Int)
  deriving DecidableEq

inductive Callback where
  | cb (task : Nat)
  deriving DecidableEq

inductive Method where
  | task (interval : Int) (cb : Bool)
  | restart (id : Nat)
  | onWork
  -- the loop of `OnWork`, its body, and the body's second half
  | loop (now : Int)
  | visit (id : Nat) (now : Int)
  | recheck (id : Nat) (now : Int)
  | run (id : Nat)
  | add (id : Nat)
  | del (id : Nat)
  deriving DecidableEq

abbrev Code := Prog World Query Answer Callback Method

namespace World

def updateTask (id : Nat) (f : Task → Task) (s : World) : World :=
  { s with tasks := Function.update s.tasks id (f (s.tasks id)) }

def pass (s : World) : Int := s.passes.getLastD 0

def runsOf (s : World) (id : Nat) : List Run := s.runs.filter (·.task = id)

end World

def now : Code Int := do
  match ← Prog.query .gettimeofday with
  | .time t => pure t
  | _ => .fault

def lock : Code Unit := do let _ ← Prog.query .lock
def unlock : Code Unit := Prog.modify fun s => { s with lock_ := false }

def task (interval : Int) (cb : Bool) : Code Unit := do
  let t ← now
  Prog.modify fun s => { s with
    tasks := Function.update s.tasks s.made ⟨int16 interval,int16 (nowMs t + interval),cb⟩,
    due := Function.update s.due s.made (t + interval),
    made := s.made + 1 }

def restart (intervals : Nat → Int) (id : Nat) : Code Unit := do
  let t ← now
  Prog.modify fun s => { s.updateTask id fun x => { x with when_ := int16 (x.interval_ + nowMs t) } with
    due := Function.update s.due id (intervals id + t),
    restarted := Function.update s.restarted id true }

def run (id : Nat) : Code Unit := do
  let s ← Prog.read
  if (s.tasks id).cb_ then Prog.invoke (.cb id)

def onWork : Code Unit := do
  lock
  let t ← now
  Prog.modify fun s => { s with todo := s.tasks_, passes := s.passes ++ [t] }
  Prog.run (.loop (nowMs t))
  unlock

def loop (now : Int) : Code Unit := do
  let s ← Prog.read
  if s.todo = [] then pure ()
  else
    match ← Prog.query .pick with
    | .task id _ => do
      Prog.modify fun s => { s with todo := s.todo.filter (· ≠ id) }
      Prog.run (.visit id now)
      Prog.run (.loop now)
    | _ => .fault

def visit (id : Nat) (now : Int) : Code Unit := do
  let s ← Prog.read
  if (s.tasks id).when_ < now then
    Prog.run (.run id)
    Prog.run (.recheck id now)

def recheck (id : Nat) (now : Int) : Code Unit := do
  let s ← Prog.read
  if (s.tasks id).when_ < now then
    Prog.modify fun s => { s with tasks_ := s.tasks_.filter (· ≠ id), erased := s.erased ++ [id] }

def add (id : Nat) : Code Bool := do
  lock
  let s ← Prog.read
  if id ∈ s.tasks_ then
    unlock
    pure false
  else do
    Prog.modify fun s => { s with tasks_ := id :: s.tasks_ }
    unlock
    pure true

def del (id : Nat) : Code Bool := do
  lock
  Prog.modify fun s => { s with tasks_ := s.tasks_.filter (· ≠ id) }
  unlock
  pure true

def body (intervals : Nat → Int) : Method → Code Unit
  | .task interval cb => task interval cb
  | .restart id => restart intervals id
  | .onWork => onWork
  | .loop now => loop now
  | .visit id now => visit id now
  | .recheck id now => recheck id now
  | .run id => run id
  | .add id => do let _ ← add id
  | .del id => do let _ ← del id

def answered : Query → Answer → World → World
  | .lock,_,s => { s with lock_ := true }
  | _,.time t,s => { s with clock := t }
  | _,.task _ t,s => { s with clock := t }
  | _,_,s => s

def test (id : Nat) (s : World) : World :=
  { s with tests := s.tests ++ [⟨id,s.due id,s.pass⟩] }

def began : Method → World → World
  | .visit id _,s => test id s
  | .run id,s => { s with restarted := Function.update s.restarted id false }
  | .recheck id _,s =>
    test id (if s.restarted id then s else { s with missed := s.missed ++ [id] })
  | _,s => s

def invoked : Callback → World → World
  | .cb id,s => { s with runs := s.runs ++ [⟨id,s.pass,s.clock⟩] }

/-- A callback that is made counts as a run of its task. -/
theorem runsOf_invoked (id j : Nat) (s : World) : (invoked (.cb j) s).runsOf id =
    if j = id then s.runsOf id ++ [⟨j,s.pass,s.clock⟩] else s.runsOf id := by
  simp only [World.runsOf,invoked,List.filter_append]
  split
  · next same => simp [same]
  · next other => simp [other]

/-- `intervals id` is the interval with which task `id` is made. -/
def system (intervals : Nat → Int) : System World Query Answer Callback Method where
  body := body intervals
  answered := answered
  began := began
  invoked := invoked

/-- Any use of the manager and its tasks, callbacks included, while real time does not go
back. The lock is not recursive: whoever asks for it waits until it is free. -/
def environment (intervals : Nat → Int) : Environment World Query Answer Callback Method where
  admits := fun _ s q a =>
    match q,a with
    | .lock,.acquired => !s.lock_
    | .gettimeofday,.time t => decide (s.clock ≤ t)
    | .pick,.task id t => s.todo.contains id && decide (s.clock ≤ t)
    | _,_ => false
  enters := fun _ s m =>
    match m with
    | .task interval _ => interval == intervals s.made
    | .restart id | .add id | .del id => decide (id < s.made)
    | .onWork => true
    | _ => false

def initial (clock : Int) : World where
  tasks := fun _ => ⟨0,0,false⟩
  made := 0
  tasks_ := []
  lock_ := false
  todo := []
  clock := clock
  due := fun _ => 0
  restarted := fun _ => false
  passes := []
  runs := []
  tests := []
  missed := []
  erased := []

structure Passing (now : Int) (s : World) : Prop where
  lock_ : s.lock_ = true
  now : now = int16 s.pass
  clock : s.pass ≤ s.clock

theorem Passing.kept {now : Int} {s after : World} (passing : Passing now s)
    (lock_ : after.lock_ = s.lock_) (passes : after.passes = s.passes)
    (clock : s.clock ≤ after.clock) : Passing now after := by
  have pass : after.pass = s.pass := by rw [World.pass,passes]; rfl
  constructor
  · exact lock_.trans passing.lock_
  · rw [pass]
    exact passing.now
  · rw [pass]
    exact Int.le_trans passing.clock clock

section Rules
variable {intervals : Nat → Int} {E : Environment World Query Answer Callback Method}
  {K : Contract World Query Callback Method} {ctx : List Callback} {s : World}

/-- A reading is taken no earlier than the last one. -/
theorem wp_now {goal : Int → World → Prop}
    (admits : E.admits = (environment intervals).admits) (asks : K.asks ctx .gettimeofday s)
    (read : ∀ t, s.clock ≤ t → goal t { s with clock := t }) :
    wp (system intervals) E K ctx now goal s := by
  simp only [now,wp_bind,wp_query]
  refine ⟨asks,fun a admitted => ?_⟩
  rw [admits] at admitted
  cases a with
  | time t => exact read t (by simpa [environment] using admitted)
  | acquired => simp [environment] at admitted
  | task id t => simp [environment] at admitted

/-- Whoever gets the lock found it free. -/
theorem wp_lock {goal : Unit → World → Prop}
    (admits : E.admits = (environment intervals).admits) (asks : K.asks ctx .lock s)
    (acquired : s.lock_ = false → goal () { s with lock_ := true }) :
    wp (system intervals) E K ctx lock goal s := by
  simp only [lock,wp_bind,wp_query]
  refine ⟨asks,fun a admitted => ?_⟩
  rw [admits] at admitted
  cases a with
  | acquired => exact acquired (by simpa [environment] using admitted)
  | time t => simp [environment] at admitted
  | task id t => simp [environment] at admitted

end Rules
end Tasks
end Tmms.Base
