import Tmms.Scripted
import Tmms.TaksMgr

/-! Callbacks of tasks that use the manager. `OnWork` holds `lock_` while it runs them, and
`Add` and `Del` take it, so a callback may restart its own task and do no more. -/
namespace Tmms.Base.Tasks

open Reentrant

def script (calls : Nat → List Method) : Callback → List Method
  | .cb id => calls id

def Allowed (id : Nat) (m : Method) : Prop := m = .restart id ∨ ∃ j, m = .add j ∨ m = .del j

/-- `Task::Run` of the task is called, and calls its callback, in a pass with this reading. -/
structure Ripe (t : Int) (s : World) (id : Nat) : Prop where
  among : id ∈ s.tasks_
  due : (s.tasks id).when_ < nowMs t
  cb_ : (s.tasks id).cb_ = true

/-- After a pass from `s`: a due task that no callback has deleted has run once, and one that a
callback has added, and none deleted, is there. -/
structure Passed (calls : Nat → List Method) (t : Int) (s after : World) : Prop where
  once : ∀ id, Ripe t s id → (∀ j, Ripe t s j → .del id ∉ calls j) →
    (after.runsOf id).length = (s.runsOf id).length + 1
  added : ∀ id j, Ripe t s j → .add id ∈ calls j → (∀ i, Ripe t s i → .del id ∉ calls i) → id ∈ after.tasks_

section Calls
variable (intervals : Nat → Int) (calls : Nat → List Method)

/-- However the calls of the system are answered, the callbacks following their scripts. -/
def Ends (post : World → Prop) (w : World) (k : List (Frame World Query Answer Callback Method))
    (scripts : List (List Method)) : Prop :=
  Finishes (system intervals) (environment intervals) (script calls) post ⟨⟨w,k⟩,scripts⟩

def restartAt (id : Nat) (t : Int) (w : World) : World :=
  { w.updateTask id fun x => { x with when_ := int16 (x.interval_ + nowMs t) } with
    clock := t,
    due := Function.update w.due id (intervals id + t),
    restarted := Function.update w.restarted id true }

variable {intervals calls} {post : World → Prop} {w : World}
  {k : List (Frame World Query Answer Callback Method)} {scripts : List (List Method)}

theorem ends_now {f : Int → Code Unit} : Ends intervals calls post w (.code (now >>= f) :: k) scripts ↔
    ∀ t, w.clock ≤ t → Ends intervals calls post { w with clock := t } (.code (f t) :: k) scripts := by
  obtain ⟨next,asked,read⟩ : ∃ next : Answer → Code Unit, now >>= f = Prog.query .gettimeofday >>= next ∧
      ∀ t, next (.time t) = f t := ⟨_,Prog.bind_assoc _ _ _,fun _ => rfl⟩
  rw [Ends,asked,finishes_query]
  constructor
  · rintro ⟨_,all⟩ t later
    have ends := all (.time t) (decide_eq_true later)
    rw [read] at ends
    exact ends
  · intro all
    refine ⟨⟨.time w.clock,decide_eq_true (Int.le_refl _)⟩,fun a admitted => ?_⟩
    cases a with
    | time t =>
      rw [read]
      exact all t (of_decide_eq_true admitted)
    | acquired => cases admitted
    | task id t => cases admitted

/-- The lock is not recursive. -/
theorem ends_lock {f : Unit → Code Unit} : Ends intervals calls post w (.code (lock >>= f) :: k) scripts ↔
    w.lock_ = false ∧ Ends intervals calls post { w with lock_ := true } (.code (f ()) :: k) scripts := by
  have asked : lock >>= f = Prog.query .lock >>= fun _ => f () := Prog.bind_assoc _ _ _
  rw [Ends,asked,finishes_query]
  constructor
  · rintro ⟨⟨a,admitted⟩,all⟩
    cases a with
    | acquired => exact ⟨by simpa [environment] using admitted,all .acquired admitted⟩
    | time t => cases admitted
    | task id t => cases admitted
  · rintro ⟨free,ends⟩
    refine ⟨⟨.acquired,by simp [environment,free]⟩,fun a admitted => ?_⟩
    cases a with
    | acquired => exact ends
    | time t => cases admitted
    | task id t => cases admitted

theorem ends_restart {id : Nat} : Ends intervals calls post w (.code (restart intervals id) :: k) scripts ↔
    ∀ t, w.clock ≤ t → Ends intervals calls post (restartAt intervals id t w) k scripts := by
  rw [restart,ends_now]
  refine forall_congr' fun t => imp_congr_right fun _ => ?_
  rw [Ends,finishes_last,finishes_modify,finishes_done]
  rfl

/-- Nothing has been done but restarts of the task. -/
structure Restarts (id : Nat) (w after : World) : Prop where
  lock_ : after.lock_ = w.lock_
  todo : after.todo = w.todo
  tasks_ : after.tasks_ = w.tasks_
  runs : after.runs = w.runs
  others : ∀ j, j ≠ id → after.tasks j = w.tasks j

theorem Restarts.refl (id : Nat) (w : World) : Restarts id w w := ⟨rfl,rfl,rfl,rfl,fun _ _ => rfl⟩

theorem Restarts.restart {id : Nat} {t : Int} {after : World}
    (rest : Restarts id (restartAt intervals id t w) after) : Restarts id w after := by
  refine ⟨rest.lock_,rest.todo,rest.tasks_,rest.runs,fun j other => (rest.others j other).trans ?_⟩
  exact Function.update_of_ne other _ _

/-- A callback that only restarts its task returns. -/
theorem ends_restarts {id : Nat} {ms : List Method} (only : ∀ m ∈ ms, m = .restart id)
    (goes_on : ∀ after, Restarts id w after → Ends intervals calls post after k scripts) :
    Ends intervals calls post w (.user (.cb id) :: k) (ms :: scripts) := by
  induction ms generalizing w with
  | nil => exact finishes_leave.mpr (goes_on w (.refl id w))
  | cons m ms ih =>
    obtain ⟨rfl,later⟩ := List.forall_mem_cons.mp only
    refine finishes_enter.mpr (ends_restart.mpr fun t _ => ?_)
    exact ih later fun after rest => goes_on after rest.restart

/-- `Add` and `Del` begin with the lock. -/
theorem relock_waits {m : Method} {j : Nat} (locks : m = .add j ∨ m = .del j) (held : w.lock_ = true) :
    ¬Ends intervals calls post w (.code (body intervals m) :: k) scripts := by
  obtain ⟨rest,first⟩ : ∃ rest, body intervals m = lock >>= rest := by
    rcases locks with rfl | rfl
    · exact ⟨_,Prog.bind_assoc lock _ _⟩
    · exact ⟨_,Prog.bind_assoc lock _ _⟩
  rw [first,ends_lock,held]
  exact fun ends => by cases ends.1

/-- A callback that adds or deletes a task waits for the lock that its own thread holds. -/
theorem relock_never_ends {id : Nat} {ms : List Method} (allowed : ∀ m ∈ ms, Allowed id m)
    (other : ∃ m ∈ ms, m ≠ .restart id) (held : w.lock_ = true) :
    ¬Ends intervals calls post w (.user (.cb id) :: k) (ms :: scripts) := by
  induction ms generalizing w with
  | nil =>
    obtain ⟨_,none,_⟩ := other
    cases none
  | cons m ms ih =>
    obtain ⟨own,later⟩ := List.forall_mem_cons.mp allowed
    intro ends
    have entered := finishes_enter.mp ends
    rcases own with rfl | ⟨j,locks⟩
    · have restarted := ends_restart.mp entered w.clock (Int.le_refl _)
      have still : (restartAt intervals id w.clock w).lock_ = true := held
      refine ih later ?_ still restarted
      obtain ⟨m,among,differs⟩ := other
      rcases List.mem_cons.mp among with rfl | among
      · exact absurd rfl differs
      · exact ⟨m,among,differs⟩
    · have before : ((system intervals).began m w).lock_ = true := by
        rcases locks with rfl | rfl <;> exact held
      exact relock_waits locks before entered

/-- What becomes of the lock, of the tasks to come and of the runs where the loop of `OnWork`
comes to a task. -/
structure Visited (id : Nat) (now : Int) (w after : World) : Prop where
  lock_ : after.lock_ = w.lock_
  todo : after.todo = w.todo
  others : ∀ j, j ≠ id → after.tasks j = w.tasks j
  runs : ∀ j, (after.runsOf j).length = (w.runsOf j).length +
    if j = id ∧ (w.tasks id).when_ < now ∧ (w.tasks id).cb_ = true then 1 else 0

theorem began_recheck (id : Nat) (now : Int) (w : World) :
    (began (.recheck id now) w).lock_ = w.lock_ ∧ (began (.recheck id now) w).todo = w.todo ∧
      (began (.recheck id now) w).tasks = w.tasks ∧ (began (.recheck id now) w).runs = w.runs := by
  simp only [began,test]
  split <;> exact ⟨rfl,rfl,rfl,rfl⟩

theorem ends_recheck {id : Nat} {now : Int}
    (goes_on : ∀ after, after.lock_ = w.lock_ → after.todo = w.todo → after.tasks = w.tasks →
      after.runs = w.runs → Ends intervals calls post after k scripts) :
    Ends intervals calls post w (.code (recheck id now) :: k) scripts := by
  refine finishes_read.mpr ?_
  split
  · rw [finishes_last,finishes_modify,finishes_done]
    exact goes_on _ rfl rfl rfl rfl
  · rw [finishes_done]
    exact goes_on _ rfl rfl rfl rfl

theorem ends_run {id : Nat} (only : (w.tasks id).cb_ = true → ∀ m ∈ calls id, m = .restart id)
    (goes_on : ∀ after, after.lock_ = w.lock_ → after.todo = w.todo →
      (∀ j, j ≠ id → after.tasks j = w.tasks j) →
      (∀ j, (after.runsOf j).length = (w.runsOf j).length + if j = id ∧ (w.tasks id).cb_ = true then 1 else 0) →
      Ends intervals calls post after k scripts) :
    Ends intervals calls post w (.code (run id) :: k) scripts := by
  refine finishes_read.mpr ?_
  split
  · next callback =>
    rw [finishes_last,finishes_invoke]
    refine ends_restarts (only callback) fun after rest => finishes_done.mpr ?_
    refine goes_on after rest.lock_ rest.todo rest.others fun j => ?_
    have same : after.runsOf j = (invoked (.cb id) w).runsOf j := congrArg (List.filter _) rest.runs
    rw [same,runsOf_invoked]
    by_cases itself : j = id
    · subst itself
      rw [if_pos rfl,if_pos ⟨rfl,callback⟩,List.length_append,List.length_singleton]
    · rw [if_neg (Ne.symm itself),if_neg fun both => itself both.1,Nat.add_zero]
  · next none =>
    rw [finishes_done]
    exact goes_on w rfl rfl (fun _ _ => rfl) fun j => by simp [none]

theorem ends_visit {id : Nat} {now : Int}
    (only : (w.tasks id).when_ < now → (w.tasks id).cb_ = true → ∀ m ∈ calls id, m = .restart id)
    (goes_on : ∀ after, Visited id now w after → Ends intervals calls post after k scripts) :
    Ends intervals calls post w (.code (visit id now) :: k) scripts := by
  refine finishes_read.mpr ?_
  split
  · next due =>
    refine finishes_run.mpr (ends_run (only due) fun ran lock_ todo others runs => ?_)
    refine finishes_last.mpr (finishes_run.mpr ?_)
    refine ends_recheck fun after held left tasks ran_ => finishes_done.mpr ?_
    obtain ⟨lock_',todo',tasks',runs'⟩ := began_recheck id now ran
    refine goes_on after ⟨held.trans (lock_'.trans lock_),left.trans (todo'.trans todo),fun j other => ?_,fun j => ?_⟩
    · rw [tasks.trans tasks',others j other]
      rfl
    · have same : after.runsOf j = ran.runsOf j := congrArg (List.filter _) (ran_.trans runs')
      rw [same,runs]
      simp only [due,true_and]
      rfl
  · next early =>
    rw [finishes_done]
    exact goes_on w ⟨rfl,rfl,fun _ _ => rfl,fun j => by simp [early]⟩

/-- In the loop of a pass from `s`: a due task has run once if the loop has come to it. -/
structure Going (t : Int) (s w : World) : Prop where
  todo : ∀ id ∈ w.todo, id ∈ s.tasks_ ∧ w.tasks id = s.tasks id
  ran : ∀ id, Ripe t s id → (w.runsOf id).length = (s.runsOf id).length + if id ∈ w.todo then 0 else 1

theorem Going.visited {t clock : Int} {s after : World} {id : Nat} (going : Going t s w) (waits : id ∈ w.todo)
    (visited : Visited id (nowMs t)
      (test id { { w with clock := clock } with todo := w.todo.filter (· ≠ id) }) after) :
    Going t s after := by
  have left : ∀ j, j ∈ after.todo ↔ j ∈ w.todo ∧ j ≠ id := by
    intro j
    rw [visited.todo]
    change j ∈ w.todo.filter (· ≠ id) ↔ _
    simp [List.mem_filter]
  constructor
  · intro j among
    obtain ⟨before,other⟩ := (left j).mp among
    obtain ⟨inside,same⟩ := going.todo j before
    exact ⟨inside,(visited.others j other).trans same⟩
  · intro j ripe
    have now := visited.runs j
    have before := going.ran j ripe
    change _ = (w.runsOf j).length +
      if j = id ∧ (w.tasks id).when_ < nowMs t ∧ (w.tasks id).cb_ = true then 1 else 0 at now
    rw [now,before]
    by_cases same : j = id
    · subst same
      have gone : j ∉ after.todo := fun inside => ((left j).mp inside).2 rfl
      rw [(going.todo j waits).2,if_pos waits,if_neg gone,if_pos ⟨rfl,ripe.due,ripe.cb_⟩]
    · have still : j ∈ after.todo ↔ j ∈ w.todo := (left j).trans (and_iff_left same)
      simp only [same,false_and,if_false,still,Nat.add_zero]

theorem ends_loop {t : Int} {s : World} (only : ∀ id, Ripe t s id → ∀ m ∈ calls id, m = .restart id)
    (going : Going t s w)
    (goes_on : ∀ after, Going t s after → after.todo = [] → Ends intervals calls post after k scripts) :
    Ends intervals calls post w (.code (loop (nowMs t)) :: k) scripts := by
  induction length : w.todo.length using Nat.strong_induction_on generalizing w k with
  | _ n ih =>
    refine finishes_read.mpr ?_
    split
    · next empty => exact finishes_done.mpr (goes_on w going empty)
    · next more =>
      refine finishes_query.mpr ⟨?_,fun a admitted => ?_⟩
      · obtain ⟨id,todo,cons⟩ := List.exists_cons_of_ne_nil more
        refine ⟨.task id w.clock,?_⟩
        simp [environment,cons]
      · cases a with
        | acquired => cases admitted
        | time u => cases admitted
        | task id u =>
          simp only [environment,Bool.and_eq_true,List.contains_iff_mem] at admitted
          have waits := admitted.1
          obtain ⟨inside,same⟩ := going.todo id waits
          refine finishes_modify.mpr (finishes_run.mpr (ends_visit ?_ fun after visited => ?_))
          · intro due callback
            exact only id ⟨inside,same ▸ due,same ▸ callback⟩
          · refine finishes_last.mpr (finishes_run.mpr (ih after.todo.length ?_ (going.visited waits visited) ?_ rfl))
            · rw [visited.todo,← length]
              exact List.length_filter_lt_length_iff_exists.mpr ⟨id,waits,by simp⟩
            · exact fun last ended empty => finishes_done.mpr (goes_on last ended empty)

/-- Nor does the run of a task with such a callback. -/
theorem run_never_ends {id : Nat} (allowed : ∀ m ∈ calls id, Allowed id m)
    (other : ∃ m ∈ calls id, m ≠ .restart id) (held : w.lock_ = true) (callback : (w.tasks id).cb_ = true) :
    ¬Ends intervals calls post w (.code (run id) :: k) scripts := by
  intro ends
  have running := finishes_read.mp ends
  rw [if_pos callback] at running
  refine relock_never_ends allowed other ?_ (finishes_invoke.mp (finishes_last.mp running))
  exact held

theorem visit_never_ends {id : Nat} {now : Int} (allowed : ∀ m ∈ calls id, Allowed id m)
    (other : ∃ m ∈ calls id, m ≠ .restart id) (held : w.lock_ = true) (callback : (w.tasks id).cb_ = true)
    (due : (w.tasks id).when_ < now) : ¬Ends intervals calls post w (.code (visit id now) :: k) scripts := by
  intro ends
  have visiting := finishes_read.mp ends
  rw [if_pos due] at visiting
  refine run_never_ends allowed other ?_ ?_ (finishes_run.mp visiting)
  · exact held
  · exact callback

/-- The loop may come to such a task next. -/
theorem loop_never_ends {id : Nat} {now : Int} (allowed : ∀ m ∈ calls id, Allowed id m)
    (other : ∃ m ∈ calls id, m ≠ .restart id) (held : w.lock_ = true) (callback : (w.tasks id).cb_ = true)
    (due : (w.tasks id).when_ < now) (waits : id ∈ w.todo) :
    ¬Ends intervals calls post w (.code (loop now) :: k) scripts := by
  intro ends
  have begun := finishes_read.mp ends
  rw [if_neg (List.ne_nil_of_mem waits)] at begun
  have picked := (finishes_query.mp begun).2 (.task id w.clock) (by simp [environment,waits])
  refine visit_never_ends allowed other ?_ ?_ ?_ (finishes_run.mp (finishes_modify.mp picked))
  · exact held
  · exact callback
  · exact due

end Calls

/-- `OnWork` at the start of its loop, when it has read `t`. -/
def looping (t : Int) (s : World) : Config World Query Answer Callback Method :=
  ⟨{ s with lock_ := true, clock := t, todo := s.tasks_, passes := s.passes ++ [t] },
    [.code (loop (nowMs t)),.code unlock]⟩

/-- A call of `OnWork` gets there if `lock_` is free. -/
theorem onWork_looping (intervals : Nat → Int) {s : World} {t : Int} (free : s.lock_ = false) (later : s.clock ≤ t) :
    (system intervals).exec (environment intervals)
      ([.enter .onWork,.answer .acquired,.answer (.time t)] ++ List.replicate 3 .advance) ⟨s,[]⟩ =
        some (looping t s) := by
  have locked : (environment intervals).admits [] s .lock .acquired = true := by simp [environment,free]
  have read : (environment intervals).admits [] { s with lock_ := true } .gettimeofday (.time t) = true :=
    decide_eq_true later
  refine Option.bind_eq_some_iff.mpr ⟨⟨s,[.code onWork]⟩,rfl,?_⟩
  refine Option.bind_eq_some_iff.mpr ⟨_,if_pos locked,?_⟩
  exact Option.bind_eq_some_iff.mpr ⟨_,if_pos read,rfl⟩

theorem looping_going (t : Int) (s : World) : Going t s (looping t s).state := by
  refine ⟨fun id among => ⟨among,rfl⟩,fun id ripe => ?_⟩
  have among : id ∈ (looping t s).state.todo := ripe.among
  rw [if_pos among]
  rfl

/-- A pass that reads `t` comes to its end however its system calls are answered, having run each
due task once and with each added task in `tasks_`, if and only if no due task has a callback that
calls `Add` or `Del`. -/
theorem callbacks_safe_iff (intervals : Nat → Int) (calls : Nat → List Method) (s : World) (t : Int)
    (allowed : ∀ id, ∀ m ∈ calls id, Allowed id m) (free : s.lock_ = false) (later : s.clock ≤ t) :
    (∃ moves, (system intervals).exec (environment intervals) (.enter .onWork :: moves) ⟨s,[]⟩ =
      some (looping t s)) ∧
    (Finishes (system intervals) (environment intervals) (script calls) (Passed calls t s) ⟨looping t s,[]⟩ ↔
      ∀ id, Ripe t s id → ∀ m ∈ calls id, m = .restart id) := by
  refine ⟨⟨_,onWork_looping intervals free later⟩,?_,?_⟩
  · intro finishes id ripe m among
    by_contra other
    refine loop_never_ends (allowed id) ⟨m,among,other⟩ rfl ?_ ?_ ?_ finishes
    · exact ripe.cb_
    · exact ripe.due
    · exact ripe.among
  · intro only
    refine ends_loop only (looping_going t s) fun after going empty => ?_
    refine finishes_last.mpr (finishes_modify.mpr (finishes_done.mpr (finishes_back.mpr ⟨?_,?_⟩)))
    · intro id ripe _
      have ran := going.ran id ripe
      rw [empty] at ran
      exact ran
    · intro id j ripe adds
      cases only j ripe _ adds

def single : World := { initial 0 with
  tasks := fun _ => ⟨0,0,true⟩, made := 2, tasks_ := [0] }

/-- A task whose callback restarts it. -/
theorem callbacks_safe_restart :
    Finishes (system fun _ => 0) (environment fun _ => 0) (script fun id => [.restart id])
      (Passed (fun id => [.restart id]) 1 single) ⟨looping 1 single,[]⟩ := by
  refine (callbacks_safe_iff (fun _ => 0) (fun id => [.restart id]) single 1 ?_ rfl (by decide)).2.mpr ?_
  · intro id m among
    exact Or.inl (List.mem_singleton.mp among)
  · intro id _ m among
    exact List.mem_singleton.mp among

def adding : List (Move World Query Answer Callback Method) :=
  [.enter .onWork,.answer .acquired,.answer (.time 1),.answer (.task 0 1),.enter (.add 1)]

/-- `Add` waits for `lock_`, which `OnWork` holds, and nothing else can happen. -/
theorem callback_waits :
    (∃ c moves, (system fun _ => 0).exec (environment fun _ => 0) moves ⟨single,[]⟩ = some c ∧
      c.state.lock_ = true ∧ active c.stack = [.cb 0] ∧
      ∀ move, (system fun _ => 0).step (environment fun _ => 0) c move = none) ∧
    ¬Finishes (system fun _ => 0) (environment fun _ => 0) (script fun _ => [.add 1])
      (Passed (fun _ => [.add 1]) 1 single) ⟨looping 1 single,[]⟩ := by
  constructor
  · obtain ⟨moves,ran⟩ := (system fun _ => 0).play_exec (environment fun _ => 0) 60 adding ⟨single,[]⟩ _ rfl
    refine ⟨_,moves,ran,rfl,rfl,fun move => ?_⟩
    cases move with
    | answer a => cases a <;> rfl
    | _ => rfl
  · refine loop_never_ends ?_ ⟨_,List.mem_singleton_self _,?_⟩ rfl rfl ?_ (List.mem_singleton_self 0)
    · intro m among
      exact Or.inr ⟨1,Or.inl (List.mem_singleton.mp among)⟩
    · exact fun same => by cases same
    · decide

end Tmms.Base.Tasks
