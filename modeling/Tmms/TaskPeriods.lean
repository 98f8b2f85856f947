import Mathlib.Data.List.Chain
import Tmms.TaksMgr

/-! Tasks whose callback restarts them. As long as no comparison takes a due time to be past
that is not, such a task is never erased, and its runs are more than its interval apart. -/
namespace Tmms.Base.Tasks

open Reentrant

/-- Every run of task `id` has restarted it, and no comparison found it due too early. -/
def Right (id : Nat) (s : World) : Prop :=
  id ∉ s.missed ∧ ∀ x ∈ s.tests, x.task = id → int16 x.due < int16 x.pass → x.due < x.pass

section Periods
variable (intervals : Nat → Int) (id : Nat)

structure Scheduled (inside : Prop) (s : World) : Prop where
  when_ : (s.tasks id).when_ = int16 (s.due id)
  interval : id < s.made → (s.tasks id).interval_ = int16 (intervals id)
  unmade : s.made ≤ id → s.runsOf id = []
  known : ∀ j, j ∈ s.tasks_ ∨ j ∈ s.todo → j < s.made
  past : ∀ r ∈ s.runs, r.at_ ≤ s.clock
  kept : Right id s → id ∉ s.erased ∧
    (s.runsOf id).IsChain fun a b => a.at_ + intervals id < b.at_
  next : s.restarted id = true → ∀ r ∈ (s.runsOf id).getLast?, r.at_ + intervals id ≤ s.due id
  answered : inside ∨ s.restarted id = true ∨ id ∈ s.missed ∨ s.runsOf id = []

/-- What a callback leaves alone, the lock being held. -/
structure Frozen (s after : World) : Prop where
  lock_ : after.lock_ = s.lock_
  passes : after.passes = s.passes
  runs : after.runs = s.runs
  made : s.made ≤ after.made
  clock : s.clock ≤ after.clock

theorem Frozen.trans {a b c : World} (first : Frozen a b) (second : Frozen b c) : Frozen a c :=
  ⟨second.lock_.trans first.lock_,second.passes.trans first.passes,second.runs.trans first.runs,
    Nat.le_trans first.made second.made,Int.le_trans first.clock second.clock⟩

def periods : Contract World Query Callback Method where
  inv := fun ctx s => Scheduled intervals id (.cb id ∈ ctx) s ∧ (ctx ≠ [] → s.lock_ = true)
  rely := fun ctx s after => ctx ≠ [] → Frozen s after
  pre := fun ctx m s =>
    match m with
    | .loop now => ctx = [] ∧ Scheduled intervals id False s ∧ Passing now s
    | .visit j now => ctx = [] ∧ j < s.made ∧ Scheduled intervals id False s ∧ Passing now s
    | .run j => ctx = [] ∧ j < s.made ∧ Scheduled intervals id False s ∧ s.lock_ = true ∧
        s.pass ≤ s.clock ∧ (j = id → Right id s → s.due id < s.pass)
    | .recheck j now => ctx = [] ∧ Scheduled intervals id (j = id) s ∧ Passing now s ∧
        (j = id → s.restarted id = true → s.pass ≤ s.due id)
    | .task interval _ => Scheduled intervals id (.cb id ∈ ctx) s ∧ interval = intervals s.made
    | .restart j => Scheduled intervals id (.cb id ∈ ctx) s ∧ j < s.made
    | .add j => Scheduled intervals id (.cb id ∈ ctx) s ∧ j < s.made
    | .onWork | .del _ => Scheduled intervals id (.cb id ∈ ctx) s ∧ (ctx ≠ [] → s.lock_ = true)
  post := fun ctx m s after =>
    match m with
    | .loop now | .visit _ now | .recheck _ now => Scheduled intervals id False after ∧ Passing now after
    | .run j => Scheduled intervals id (j = id) after ∧ (∀ now, Passing now s → Passing now after) ∧
        (j = id → after.restarted id = true → after.pass ≤ after.due id)
    | _ => Scheduled intervals id (.cb id ∈ ctx) after ∧ (s.lock_ = true → Frozen s after)
  asks := fun _ _ _ => True
  mayFault := False

section Bodies
variable {intervals id} {s : World} {inside : Prop} (ctx : List Callback)

theorem Scheduled.later (h : Scheduled intervals id inside s) {t : Int} (later : s.clock ≤ t) :
    Scheduled intervals id inside { s with clock := t } :=
  ⟨h.when_,h.interval,h.unmade,h.known,fun r among => Int.le_trans (h.past r among) later,h.kept,h.next,h.answered⟩

/-- The lock, the containers and the passes are not what the schedule is about. -/
theorem Scheduled.handled (h : Scheduled intervals id inside s) (lock : Bool) (tasks todo : List Nat)
    (passes : List Int) (known : ∀ j, j ∈ tasks ∨ j ∈ todo → j < s.made) :
    Scheduled intervals id inside
      { s with lock_ := lock, tasks_ := tasks, todo := todo, passes := passes } :=
  ⟨h.when_,h.interval,h.unmade,known,h.past,h.kept,h.next,h.answered⟩

theorem Scheduled.weaken {outside : Prop} (h : Scheduled intervals id inside s)
    (implies : inside → outside) : Scheduled intervals id outside s :=
  ⟨h.when_,h.interval,h.unmade,h.known,h.past,h.kept,h.next,h.answered.imp_left implies⟩

theorem task_body (interval : Int) (cb : Bool)
    (pre : (periods intervals id).pre ctx (.task interval cb) s) :
    wp (system intervals) (environment intervals) (periods intervals id) ctx (task interval cb)
      (fun _ after => (periods intervals id).post ctx (.task interval cb) s after) s := by
  obtain ⟨holds,given⟩ := pre
  subst given
  rw [task,wp_bind]
  apply wp_now rfl trivial
  intro t later
  rw [wp_modify]
  refine ⟨?_,fun _ => ⟨rfl,rfl,rfl,Nat.le_succ _,later⟩⟩
  have timed := holds.later later
  have known : ∀ j, j ∈ s.tasks_ ∨ j ∈ s.todo → j < s.made + 1 := fun j among =>
    Nat.lt_succ_of_lt (holds.known j among)
  by_cases itself : id = s.made
  · have none : s.runsOf id = [] := holds.unmade (by omega)
    constructor
    · simp only [itself,Function.update_self]
      rw [nowMs,int16_add]
    · intro _
      simp [itself]
    · exact fun _ => none
    · exact known
    · exact timed.past
    · exact timed.kept
    · intro _ r last
      change r ∈ (s.runsOf id).getLast? at last
      rw [none] at last
      cases last
    · exact Or.inr (Or.inr (Or.inr none))
  · constructor
    · simp only [Function.update_of_ne itself]
      exact holds.when_
    · intro made
      simp only [Function.update_of_ne itself]
      exact holds.interval (by simp only at made; omega)
    · exact fun unmade => holds.unmade (by simp only at unmade; omega)
    · exact known
    · exact timed.past
    · exact timed.kept
    · intro restarted r last
      simp only [Function.update_of_ne itself]
      exact holds.next restarted r last
    · exact timed.answered

theorem restart_body (j : Nat) (pre : (periods intervals id).pre ctx (.restart j) s) :
    wp (system intervals) (environment intervals) (periods intervals id) ctx (restart intervals j)
      (fun _ after => (periods intervals id).post ctx (.restart j) s after) s := by
  obtain ⟨holds,made⟩ := pre
  rw [restart,wp_bind]
  apply wp_now rfl trivial
  intro t later
  rw [wp_modify]
  refine ⟨?_,fun _ => ⟨rfl,rfl,rfl,Nat.le_refl _,later⟩⟩
  have timed := holds.later later
  by_cases itself : id = j
  · subst itself
    constructor
    · simp only [World.updateTask,Function.update_self]
      rw [holds.interval made,nowMs,int16_add,int16_add_right]
    · intro _
      simp only [World.updateTask,Function.update_self]
      exact holds.interval made
    · exact timed.unmade
    · exact timed.known
    · exact timed.past
    · exact timed.kept
    · intro _ r last
      have earlier := timed.past r (List.mem_of_mem_filter (List.mem_of_getLast? last))
      simp only [Function.update_self]
      have : r.at_ ≤ t := earlier
      omega
    · right
      left
      simp
  · constructor
    · simp only [World.updateTask,Function.update_of_ne itself]
      exact holds.when_
    · intro made
      simp only [World.updateTask,Function.update_of_ne itself]
      exact holds.interval made
    · exact timed.unmade
    · exact timed.known
    · exact timed.past
    · exact timed.kept
    · intro restarted r last
      simp only [Function.update_of_ne itself] at restarted ⊢
      exact holds.next restarted r last
    · simp only [Function.update_of_ne itself]
      exact timed.answered

/-- The last run ended in `Restart`, so the task is due an interval after it. -/
theorem Scheduled.due (h : Scheduled intervals id False s) (right : Right id s) {r : Run}
    (last : r ∈ (s.runsOf id).getLast?) : r.at_ + intervals id ≤ s.due id := by
  rcases h.answered with outside | restarted | missed | none
  · exact outside.elim
  · exact h.next restarted r last
  · exact absurd missed right.1
  · rw [none] at last
    cases last

/-- A run begins more than the interval after the one before. -/
theorem scheduled_invoked (j : Nat) (made : j < s.made) (h : Scheduled intervals id False s)
    (pass : s.pass ≤ s.clock) (due : j = id → Right id s → s.due id < s.pass) :
    Scheduled intervals id (j = id) (invoked (.cb j) (began (.run j) s)) := by
  have runs := runsOf_invoked id j (began (.run j) s)
  change _ = if j = id then s.runsOf id ++ [⟨j,s.pass,s.clock⟩] else s.runsOf id at runs
  have past : ∀ r ∈ s.runs ++ [⟨j,s.pass,s.clock⟩], r.at_ ≤ s.clock := by
    intro r among
    rcases List.mem_append.mp among with before | itself
    · exact h.past r before
    · have same := List.mem_singleton.mp itself
      subst same
      exact Int.le_refl _
  by_cases itself : j = id
  · subst itself
    rw [if_pos rfl] at runs
    constructor
    · exact h.when_
    · exact h.interval
    · intro unmade
      exact absurd made (by simp only [invoked,began] at unmade; omega)
    · exact h.known
    · exact past
    · intro right
      have right : Right j s := right
      obtain ⟨present,chain⟩ := h.kept right
      refine ⟨present,?_⟩
      rw [runs]
      apply chain.append (List.isChain_singleton _)
      intro r last next first
      have : next = ⟨j,s.pass,s.clock⟩ := by simpa using first.symm
      subst this
      have early := h.due right last
      have := due rfl right
      change r.at_ + intervals j < s.clock
      omega
    · intro restarted
      simp [invoked,began] at restarted
    · exact Or.inl rfl
  · rw [if_neg itself] at runs
    have other : id ≠ j := fun same => itself same.symm
    constructor
    · exact h.when_
    · exact h.interval
    · exact fun unmade => runs.trans (h.unmade unmade)
    · exact h.known
    · exact past
    · intro right
      rw [runs]
      exact h.kept right
    · intro restarted
      rw [runs]
      simp only [invoked,began,Function.update_of_ne other] at restarted
      exact h.next restarted
    · rw [runs]
      simp only [invoked,began,Function.update_of_ne other]
      exact h.answered.imp_left False.elim

theorem run_body (nonneg : 0 ≤ intervals id) (j : Nat)
    (pre : (periods intervals id).pre ctx (.run j) s) :
    wp (system intervals) (environment intervals) (periods intervals id) ctx (run j)
      (fun _ after => (periods intervals id).post ctx (.run j) s after) (began (.run j) s) := by
  obtain ⟨outside,made,holds,locked,pass,due⟩ := pre
  subst outside
  simp only [run,wp_bind,wp_read,wp_ite,wp_invoke,wp_pure]
  have ran := scheduled_invoked j made holds pass due
  constructor
  · intro _
    have inside : (j = id) = (.cb id ∈ [Callback.cb j]) := by
      simp [eq_comm]
    constructor
    · constructor
      · rw [← inside]
        exact ran
      · exact fun _ => locked
    · intro after kept inv
      have frozen := kept (List.cons_ne_nil _ _)
      have scheduled : Scheduled intervals id (j = id) after := by
        rw [inside]
        exact inv.1
      refine ⟨scheduled,?_,?_⟩
      · exact fun now passing => passing.kept frozen.lock_ frozen.passes frozen.clock
      · intro itself restarted
        have runs : after.runsOf id = s.runsOf id ++ [⟨j,s.pass,s.clock⟩] := by
          have same := runsOf_invoked id j (began (.run j) s)
          rw [if_pos itself] at same
          rw [World.runsOf,frozen.runs]
          exact same
        have early := scheduled.next restarted ⟨j,s.pass,s.clock⟩ (by rw [runs]; simp)
        have same : after.pass = s.pass := by rw [World.pass,frozen.passes]; rfl
        rw [same]
        change s.clock + intervals id ≤ after.due id at early
        omega
  · intro _
    -- without a callback nothing happens, and the task has not been restarted
    refine ⟨?_,fun now passing => passing.kept rfl rfl (Int.le_refl _),?_⟩
    · refine ⟨holds.when_,holds.interval,holds.unmade,holds.known,holds.past,holds.kept,?_,?_⟩
      · intro restarted
        by_cases itself : id = j
        · simp [began,itself] at restarted
        · simp only [began,Function.update_of_ne itself] at restarted
          exact holds.next restarted
      · by_cases itself : id = j
        · exact Or.inl itself.symm
        · simp only [began,Function.update_of_ne itself]
          exact holds.answered.imp_left False.elim
    · rintro rfl restarted
      simp [began] at restarted

theorem right_of_test {j : Nat} (right : Right id (test j s)) : Right id s :=
  ⟨right.1,fun x among => right.2 x (List.mem_append_left _ among)⟩

theorem Scheduled.tested (j : Nat) (h : Scheduled intervals id inside s) :
    Scheduled intervals id inside (test j s) :=
  ⟨h.when_,h.interval,h.unmade,h.known,h.past,fun right => h.kept (right_of_test right),h.next,h.answered⟩

/-- A comparison that finds the task due finds it so in real time. -/
theorem due_of_test (h : Scheduled intervals id inside s) {now : Int} (passing : Passing now s)
    (right : Right id (test id s)) (due : (s.tasks id).when_ < now) : s.due id < s.pass := by
  apply right.2 ⟨id,s.due id,s.pass⟩ (List.mem_append_right _ (List.mem_singleton_self _)) rfl
  rw [h.when_,passing.now] at due
  exact due

theorem visit_body (j : Nat) (now : Int) (pre : (periods intervals id).pre ctx (.visit j now) s) :
    wp (system intervals) (environment intervals) (periods intervals id) ctx (visit j now)
      (fun _ after => (periods intervals id).post ctx (.visit j now) s after)
      (began (.visit j now) s) := by
  obtain ⟨outside,made,holds,passing⟩ := pre
  simp only [visit,wp_bind,wp_read,wp_ite,wp_run,wp_pure]
  have tested := holds.tested j
  have still : Passing now (test j s) := passing.kept rfl rfl (Int.le_refl _)
  constructor
  · intro due
    constructor
    · refine ⟨outside,made,tested,passing.lock_,passing.clock,?_⟩
      rintro rfl right
      exact due_of_test (s := s) holds passing right due
    · intro after done
      exact ⟨⟨outside,done.1,done.2.1 now still,done.2.2⟩,fun last checked => checked⟩
  · exact fun _ => ⟨tested,still⟩

/-- After its callback a task has been restarted, or the callback has missed to. -/
theorem scheduled_recheck (j : Nat) (now : Int) (h : Scheduled intervals id (j = id) s) :
    Scheduled intervals id False (began (.recheck j now) s) := by
  apply Scheduled.tested
  split
  · next again =>
    refine ⟨h.when_,h.interval,h.unmade,h.known,h.past,h.kept,h.next,Or.inr ?_⟩
    rcases h.answered with rfl | others
    · exact Or.inl again
    · exact others
  · refine ⟨h.when_,h.interval,h.unmade,h.known,h.past,fun right => h.kept ⟨?_,right.2⟩,h.next,Or.inr ?_⟩
    · exact fun among => right.1 (List.mem_append_left _ among)
    · rcases h.answered with rfl | restarted | missed | none
      · exact Or.inr (Or.inl (List.mem_append_right _ (List.mem_singleton_self _)))
      · exact Or.inl restarted
      · exact Or.inr (Or.inl (List.mem_append_left _ missed))
      · exact Or.inr (Or.inr none)

theorem Scheduled.erase (h : Scheduled intervals id False s) (j : Nat)
    (wrong : j = id → ¬Right id s) : Scheduled intervals id False
      { s with tasks_ := s.tasks_.filter (· ≠ j), erased := s.erased ++ [j] } := by
  refine ⟨h.when_,h.interval,h.unmade,?_,h.past,?_,h.next,h.answered⟩
  · exact fun k among => h.known k (among.imp_left List.mem_of_mem_filter)
  · intro right
    have right : Right id s := right
    obtain ⟨present,chain⟩ := h.kept right
    refine ⟨?_,chain⟩
    intro erased
    rcases List.mem_append.mp erased with before | itself
    · exact present before
    · exact wrong (List.mem_singleton.mp itself).symm right

/-- The second comparison finds a restarted task past its due time only if it is wrong. -/
theorem recheck_body (j : Nat) (now : Int) (pre : (periods intervals id).pre ctx (.recheck j now) s) :
    wp (system intervals) (environment intervals) (periods intervals id) ctx (recheck j now)
      (fun _ after => (periods intervals id).post ctx (.recheck j now) s after)
      (began (.recheck j now) s) := by
  obtain ⟨_,holds,passing,restarted⟩ := pre
  simp only [recheck,wp_bind,wp_read,wp_ite,wp_modify,wp_pure]
  have checked := scheduled_recheck j now holds
  have still : Passing now (began (.recheck j now) s) := by
    simp only [began]
    split
    · exact passing.kept rfl rfl (Int.le_refl _)
    · exact passing.kept rfl rfl (Int.le_refl _)
  refine ⟨fun due => ⟨checked.erase j ?_,still.kept rfl rfl (Int.le_refl _)⟩,fun _ => ⟨checked,still⟩⟩
  rintro rfl right
  by_cases again : s.restarted j = true
  · have began : began (.recheck j now) s = test j s := by simp [began,again]
    rw [began] at right due
    have past := due_of_test (s := s) holds passing right due
    have later := restarted rfl again
    omega
  · apply right.1
    simp [began,again,test]

theorem loop_body (now : Int) (pre : (periods intervals id).pre ctx (.loop now) s) :
    wp (system intervals) (environment intervals) (periods intervals id) ctx (loop now)
      (fun _ after => (periods intervals id).post ctx (.loop now) s after) s := by
  obtain ⟨outside,holds,passing⟩ := pre
  simp only [loop,wp_bind,wp_read,wp_ite,wp_pure,wp_query]
  refine ⟨fun _ => ⟨holds,passing⟩,fun _ => ⟨trivial,fun a admitted => ?_⟩⟩
  cases a with
  | acquired => simp [environment] at admitted
  | time t => simp [environment] at admitted
  | task j t =>
    simp only [environment,Bool.and_eq_true,List.contains_iff_mem,decide_eq_true_eq] at admitted
    obtain ⟨inside,later⟩ := admitted
    simp only [wp_bind,wp_modify,wp_run]
    have known := holds.known j (Or.inr inside)
    have taken := (holds.later later).handled s.lock_ s.tasks_ (s.todo.filter (· ≠ j)) s.passes
      fun k among => holds.known k (among.imp_right List.mem_of_mem_filter)
    constructor
    · exact ⟨outside,known,taken,passing.kept rfl rfl later⟩
    · exact fun after done => ⟨⟨outside,done⟩,fun last rest => rest⟩

theorem onWork_body (pre : (periods intervals id).pre ctx .onWork s) :
    wp (system intervals) (environment intervals) (periods intervals id) ctx onWork
      (fun _ after => (periods intervals id).post ctx .onWork s after) s := by
  obtain ⟨holds,locked⟩ := pre
  simp only [onWork,wp_bind]
  apply wp_lock rfl trivial
  intro free
  have outside : ctx = [] := by
    by_contra inside
    rw [locked inside] at free
    cases free
  subst outside
  rw [wp_bind]
  apply wp_now rfl trivial
  intro t later
  simp only [wp_bind,wp_modify,wp_run]
  have out : Scheduled intervals id False s := holds.weaken fun inside => by cases inside
  have ready := (out.later later).handled true s.tasks_ s.tasks_ (s.passes ++ [t])
    fun k among => holds.known k (Or.inl (among.elim (fun x => x) fun x => x))
  constructor
  · refine ⟨rfl,ready,rfl,?_,?_⟩
    · simp [World.pass,nowMs]
    · simp [World.pass]
  · rintro after ⟨passed,_⟩
    refine ⟨?_,fun held => ?_⟩
    · exact (passed.handled false after.tasks_ after.todo after.passes passed.known).weaken False.elim
    · rw [held] at free
      cases free

theorem add_body (j : Nat) (pre : (periods intervals id).pre ctx (.add j) s) :
    wp (system intervals) (environment intervals) (periods intervals id) ctx
      (body intervals (.add j)) (fun _ after => (periods intervals id).post ctx (.add j) s after) s := by
  obtain ⟨holds,made⟩ := pre
  simp only [body,add,wp_bind]
  apply wp_lock rfl trivial
  intro free
  have never : ∀ after : World, s.lock_ = true → Frozen s after := by
    intro after held
    rw [held] at free
    cases free
  simp only [wp_read,wp_ite,wp_bind,unlock,wp_modify,wp_pure]
  refine ⟨fun _ => ⟨?_,never _⟩,fun _ => ⟨?_,never _⟩⟩
  · exact holds.handled false s.tasks_ s.todo s.passes holds.known
  · apply holds.handled false (j :: s.tasks_) s.todo s.passes
    rintro k (among | among)
    · rcases List.mem_cons.mp among with rfl | among
      · exact made
      · exact holds.known k (Or.inl among)
    · exact holds.known k (Or.inr among)

theorem del_body (j : Nat) (pre : (periods intervals id).pre ctx (.del j) s) :
    wp (system intervals) (environment intervals) (periods intervals id) ctx
      (body intervals (.del j)) (fun _ after => (periods intervals id).post ctx (.del j) s after) s := by
  simp only [body,del,wp_bind]
  apply wp_lock rfl trivial
  intro free
  simp only [wp_bind,unlock,wp_modify,wp_pure]
  refine ⟨?_,fun held => ?_⟩
  · exact pre.1.handled false (s.tasks_.filter (· ≠ j)) s.todo s.passes fun k among =>
      pre.1.known k (among.imp_left List.mem_of_mem_filter)
  · rw [held] at free
    cases free

end Bodies

theorem periods_sound (nonneg : 0 ≤ intervals id) :
    (periods intervals id).Sound (system intervals) (environment intervals) where
  rely_refl := fun _ _ _ => ⟨rfl,rfl,rfl,Nat.le_refl _,Int.le_refl _⟩
  rely_trans := fun _ _ _ _ first second inside => (first inside).trans (second inside)
  body := by
    intro ctx m s pre
    cases m with
    | task interval cb => exact task_body ctx interval cb pre
    | restart j => exact restart_body ctx j pre
    | onWork => exact onWork_body ctx pre
    | loop now => exact loop_body ctx now pre
    | visit j now => exact visit_body ctx j now pre
    | recheck j now => exact recheck_body ctx j now pre
    | run j => exact run_body ctx nonneg j pre
    | add j => exact add_body ctx j pre
    | del j => exact del_body ctx j pre
  enter := by
    rintro ctx m s ⟨holds,locked⟩ allowed
    cases m with
    | task interval cb => exact ⟨holds,by simpa [environment] using allowed⟩
    | restart j | add j => exact ⟨holds,by simpa [environment] using allowed⟩
    | onWork | del j => exact ⟨holds,locked⟩
    | _ => simp [environment] at allowed
  leave := by
    rintro ctx m s after ⟨_,locked⟩ allowed done
    have leaves : Scheduled intervals id (.cb id ∈ ctx) after ∧ (s.lock_ = true → Frozen s after) →
        (periods intervals id).inv ctx after ∧ (periods intervals id).rely ctx s after := by
      rintro ⟨scheduled,frozen⟩
      refine ⟨⟨scheduled,fun inside => ?_⟩,fun inside => frozen (locked inside)⟩
      exact (frozen (locked inside)).lock_.trans (locked inside)
    cases m with
    | loop now | visit j now | recheck j now | run j => simp [environment] at allowed
    | _ => exact leaves done

theorem initial_scheduled (clock : Int) :
    (periods intervals id).inv [] (initial clock) := by
  refine ⟨⟨rfl,?_,fun _ => rfl,?_,?_,fun _ => ⟨List.not_mem_nil,List.isChain_nil⟩,?_,?_⟩,?_⟩
  · intro made
    cases made
  · rintro j (none | none)
    · cases none
    · cases none
  · intro r none
    cases none
  · intro restarted
    cases restarted
  · exact Or.inr (Or.inr (Or.inr rfl))
  · exact fun inside => absurd rfl inside

end Periods

/-- In every run of the manager in which the callback of a task restarts it each time, and no
comparison of `OnWork` takes the task's due time to be past before it is, the task has not
been erased and each of its runs began more than its interval after the one before. -/
theorem periodic_task_stays (intervals : Nat → Int) (id : Nat) (nonneg : 0 ≤ intervals id)
    (clock : Int) (c : Config World Query Answer Callback Method)
    (reached : (system intervals).Reachable (environment intervals) (initial clock) c)
    (controlled : c.controlled) (always : id ∉ c.state.missed)
    (early : ∀ x ∈ c.state.tests, x.task = id → int16 x.due < int16 x.pass → x.due < x.pass) :
    id ∉ c.state.erased ∧
      (c.state.runsOf id).IsChain fun a b => a.at_ + intervals id < b.at_ :=
  (reachable_invariant (periods_sound intervals id nonneg) (initial clock) c
    (initial_scheduled intervals id clock) reached controlled).1.kept ⟨always,early⟩

def periodicRun : List (Move World Query Answer Callback Method) :=
  [.enter (.task 1500 true),.answer (.time 0),.enter (.add 0),.answer .acquired,
    .enter .onWork,.answer .acquired,.answer (.time 1501),.answer (.task 0 1501),
    .enter (.restart 0),.answer (.time 1503),.leave,
    .enter .onWork,.answer .acquired,.answer (.time 3004),.answer (.task 0 3004),
    .enter (.restart 0),.answer (.time 3004),.leave]

theorem periodic_task_stays_twice :
    ∃ c : Config World Query Answer Callback Method, c.state.runs.length = 2 ∧
      0 ∉ c.state.erased ∧ (c.state.runsOf 0).IsChain fun a b => a.at_ + 1500 < b.at_ := by
  have reached := (system fun _ => 1500).play_reachable (environment fun _ => 1500) 60 periodicRun
    (initial 0) _ rfl
  refine ⟨_,?_,periodic_task_stays (fun _ => 1500) 0 (by decide) 0 _ reached ?_ ?_ ?_⟩
  · rfl
  · trivial
  · decide
  · decide

def wrappedRun : List (Move World Query Answer Callback Method) :=
  [.enter (.task 1500 true),.answer (.time 0),.enter (.add 0),.answer .acquired,
    .enter .onWork,.answer .acquired,.answer (.time 32000),.answer (.task 0 32000),
    .enter (.restart 0),.answer (.time 32000),.leave]

/-- A task restarts itself, its next due time is kept as -32036, and it is erased. -/
theorem periodic_task_erased :
    ∃ c, (system fun _ => 1500).Reachable (environment fun _ => 1500) (initial 0) c ∧ c.stack = [] ∧
      0 ∉ c.state.missed ∧ 0 ∈ c.state.erased ∧ c.state.tasks_ = [] := by
  have reached := (system fun _ => 1500).play_reachable (environment fun _ => 1500) 60 wrappedRun
    (initial 0) _ rfl
  refine ⟨_,reached,?_⟩
  decide

end Tmms.Base.Tasks
