import Tmms.TaskPeriods

/-! Tasks that are left to run once. A pass runs such a task, and takes it out, when the
truncated due time is below the truncated reading; so it does what the real times ask for
just when the first pass of the one kind is the first of the other. -/
namespace Tmms.Base.Tasks

open Reentrant

/-- Up to and including the first element that satisfies either, `p` and `q` agree. -/
theorem find_agree {α : Type} (p q : α → Bool) (l : List α) :
    l.find? q = l.find? p ↔ ∀ before x after, l = before ++ x :: after →
      (∀ y ∈ before, p y = false ∧ q y = false) → (q x = true ↔ p x = true) := by
  constructor
  · rintro same before x after rfl quiet
    have first : ∀ f : α → Bool, (∀ y ∈ before, f y = false) → f x = true →
        (before ++ x :: after).find? f = some x := by
      intro f fails here
      have skipped : before.find? f = none := by
        rw [List.find?_eq_none]
        intro y among
        simp [fails y among]
      rw [List.find?_append,skipped,Option.none_or,List.find?_cons_of_pos here]
    constructor
    · intro here
      rw [first q (fun y among => (quiet y among).2) here] at same
      exact List.find?_some same.symm
    · intro here
      rw [first p (fun y among => (quiet y among).1) here] at same
      exact List.find?_some same
  · intro agree
    induction l with
    | nil => rfl
    | cons x l ih =>
      have here := agree [] x l rfl fun y none => by cases none
      by_cases holds : p x = true
      · rw [List.find?_cons_of_pos (here.mpr holds),List.find?_cons_of_pos holds]
      · have fails : ¬q x = true := fun also => holds (here.mp also)
        rw [List.find?_cons_of_neg fails,List.find?_cons_of_neg holds]
        apply ih
        rintro before y after rfl quiet
        apply agree (x :: before) y after rfl
        intro z among
        rcases List.mem_cons.mp among with rfl | among
        · exact ⟨Bool.not_eq_true _ ▸ holds,Bool.not_eq_true _ ▸ fails⟩
        · exact quiet z among

/-- The first pass that takes a task with this due time to be due. -/
def taken (due : Int) (passes : List Int) : Option Int :=
  passes.find? fun u => decide (int16 due < int16 u)

def untouched (intervals : Nat → Int) (id : Nat) : Environment World Query Answer Callback Method where
  admits := (environment intervals).admits
  enters := fun ctx s m =>
    match m with
    | .restart j | .add j | .del j => decide (j ≠ id) && (environment intervals).enters ctx s m
    | _ => (environment intervals).enters ctx s m

section Once
variable (intervals : Nat → Int) (id : Nat) (due : Int) (old ran : List Int)

structure Waiting (s : World) : Prop where
  when_ : (s.tasks id).when_ = int16 due
  cb_ : (s.tasks id).cb_ = true
  made : id < s.made

def passesOf (s : World) : List Int := (s.runsOf id).map Run.pass

structure Same (s after : World) : Prop where
  passes : after.passes = s.passes
  runs : passesOf id after = passesOf id s
  tasks_ : id ∈ after.tasks_ ↔ id ∈ s.tasks_
  todo : id ∈ after.todo ↔ id ∈ s.todo
  lock_ : s.lock_ = true → after.lock_ = true
  clock : s.clock ≤ after.clock

/-- After the passes `us` the task has run in the first that took it to be due. -/
structure Served (us : List Int) (s : World) : Prop where
  passes : s.passes = old ++ us
  runs : passesOf id s = ran ++ (taken due us).toList
  tasks_ : id ∈ s.tasks_ ↔ taken due us = none

/-- What a part of a pass does to the task, which it comes to if `visited`. -/
structure Swept (visited : Prop) (s after : World) : Prop where
  passes : after.passes = s.passes
  lock_ : after.lock_ = true
  clock : s.clock ≤ after.clock
  reached : visited → int16 due < int16 s.pass →
    passesOf id after = passesOf id s ++ [s.pass] ∧ id ∉ after.tasks_
  passed : ¬(visited ∧ int16 due < int16 s.pass) →
    passesOf id after = passesOf id s ∧ (id ∈ after.tasks_ ↔ id ∈ s.tasks_)

def once : Contract World Query Callback Method where
  inv := fun ctx s => Waiting id due s ∧ (ctx ≠ [] → s.lock_ = true) ∧
    (ctx = [] → ∃ us, Served id due old ran us s)
  rely := fun ctx s after => ctx ≠ [] → Same id s after
  pre := fun ctx m s => Waiting id due s ∧
    match m with
    | .task _ _ => True
    | .restart j | .add j | .del j => j ≠ id
    | .onWork => ctx ≠ [] → s.lock_ = true
    | .loop now => ctx = [] ∧ Passing now s ∧ (id ∈ s.todo → id ∈ s.tasks_)
    | .visit j now => ctx = [] ∧ Passing now s ∧ (j = id → id ∈ s.tasks_ ∧ id ∉ s.todo)
    | .run _ => ctx = [] ∧ s.lock_ = true
    | .recheck _ now => ctx = [] ∧ Passing now s
  post := fun ctx m s after => Waiting id due after ∧
    match m with
    | .task _ _ | .restart _ | .add _ | .del _ => Same id s after
    | .onWork => ctx = [] ∧
        ((∃ us, Served id due old ran us s) → ∃ us, Served id due old ran us after)
    | .loop _ => Swept id due (id ∈ s.todo) s after
    | .visit j _ => Swept id due (j = id) s after ∧ (id ∈ after.todo ↔ id ∈ s.todo)
    | .run j => after.lock_ = true ∧ after.passes = s.passes ∧ s.clock ≤ after.clock ∧
        (id ∈ after.tasks_ ↔ id ∈ s.tasks_) ∧ (id ∈ after.todo ↔ id ∈ s.todo) ∧
        passesOf id after = if j = id then passesOf id s ++ [s.pass] else passesOf id s
    | .recheck j _ => after.lock_ = true ∧ after.passes = s.passes ∧ after.clock = s.clock ∧
        (id ∈ after.todo ↔ id ∈ s.todo) ∧ passesOf id after = passesOf id s ∧
        (id ∈ after.tasks_ ↔ id ∈ s.tasks_ ∧ ¬(j = id ∧ int16 due < int16 s.pass))
  asks := fun _ _ _ => True
  mayFault := False

section Bodies
variable {intervals id due old ran} {s : World} (ctx : List Callback)

theorem Same.refl (s : World) : Same id s s :=
  ⟨rfl,rfl,Iff.rfl,Iff.rfl,fun held => held,Int.le_refl _⟩

theorem Same.trans {a b c : World} (first : Same id a b) (second : Same id b c) : Same id a c :=
  ⟨second.passes.trans first.passes,second.runs.trans first.runs,second.tasks_.trans first.tasks_,
    second.todo.trans first.todo,fun held => second.lock_ (first.lock_ held),
    Int.le_trans first.clock second.clock⟩

theorem Served.same {us : List Int} {after : World} (served : Served id due old ran us s)
    (same : Same id s after) : Served id due old ran us after :=
  ⟨same.passes.trans served.passes,same.runs.trans served.runs,same.tasks_.trans served.tasks_⟩

theorem once_task (interval : Int) (cb : Bool)
    (pre : (once id due old ran).pre ctx (.task interval cb) s) :
    wp (system intervals) (untouched intervals id) (once id due old ran) ctx (task interval cb)
      (fun _ after => (once id due old ran).post ctx (.task interval cb) s after) s := by
  obtain ⟨waiting,_⟩ := pre
  rw [task,wp_bind]
  apply wp_now
  · rfl
  · trivial
  intro t later
  rw [wp_modify]
  refine ⟨?_,rfl,rfl,Iff.rfl,Iff.rfl,fun held => held,later⟩
  have other : id ≠ s.made := Nat.ne_of_lt waiting.made
  constructor
  · simp only [Function.update_of_ne other]
    exact waiting.when_
  · simp only [Function.update_of_ne other]
    exact waiting.cb_
  · exact Nat.lt_succ_of_lt waiting.made

theorem once_restart (j : Nat) (pre : (once id due old ran).pre ctx (.restart j) s) :
    wp (system intervals) (untouched intervals id) (once id due old ran) ctx (restart intervals j)
      (fun _ after => (once id due old ran).post ctx (.restart j) s after) s := by
  obtain ⟨waiting,other⟩ := pre
  have other : id ≠ j := fun same => other same.symm
  rw [restart,wp_bind]
  apply wp_now
  · rfl
  · trivial
  intro t later
  rw [wp_modify]
  refine ⟨?_,rfl,rfl,Iff.rfl,Iff.rfl,fun held => held,later⟩
  constructor
  · simp only [World.updateTask,Function.update_of_ne other]
    exact waiting.when_
  · simp only [World.updateTask,Function.update_of_ne other]
    exact waiting.cb_
  · exact waiting.made

theorem once_add (j : Nat) (pre : (once id due old ran).pre ctx (.add j) s) :
    wp (system intervals) (untouched intervals id) (once id due old ran) ctx
      (body intervals (.add j)) (fun _ after => (once id due old ran).post ctx (.add j) s after) s := by
  obtain ⟨waiting,other⟩ := pre
  have other : id ≠ j := fun same => other same.symm
  simp only [body,add,wp_bind]
  apply wp_lock
  · rfl
  · trivial
  intro free
  have held : s.lock_ = true → false = true := by
    intro held
    rw [free] at held
    cases held
  simp only [wp_read,wp_ite,wp_bind,unlock,wp_modify,wp_pure]
  refine ⟨fun _ => ⟨⟨waiting.when_,waiting.cb_,waiting.made⟩,?_⟩,
    fun _ => ⟨⟨waiting.when_,waiting.cb_,waiting.made⟩,?_⟩⟩
  · exact ⟨rfl,rfl,Iff.rfl,Iff.rfl,held,Int.le_refl _⟩
  · refine ⟨rfl,rfl,?_,Iff.rfl,held,Int.le_refl _⟩
    simp [other]

theorem once_del (j : Nat) (pre : (once id due old ran).pre ctx (.del j) s) :
    wp (system intervals) (untouched intervals id) (once id due old ran) ctx
      (body intervals (.del j)) (fun _ after => (once id due old ran).post ctx (.del j) s after) s := by
  obtain ⟨waiting,other⟩ := pre
  have other : id ≠ j := fun same => other same.symm
  simp only [body,del,wp_bind]
  apply wp_lock
  · rfl
  · trivial
  intro free
  simp only [wp_bind,unlock,wp_modify,wp_pure]
  refine ⟨⟨waiting.when_,waiting.cb_,waiting.made⟩,rfl,rfl,?_,Iff.rfl,?_,Int.le_refl _⟩
  · simp [other]
  · intro held
    rw [free] at held
    cases held

theorem once_run (j : Nat) (pre : (once id due old ran).pre ctx (.run j) s) :
    wp (system intervals) (untouched intervals id) (once id due old ran) ctx (run j)
      (fun _ after => (once id due old ran).post ctx (.run j) s after) (began (.run j) s) := by
  obtain ⟨waiting,outside,locked⟩ := pre
  subst outside
  simp only [run,wp_bind,wp_read,wp_ite,wp_invoke,wp_pure]
  have passes : passesOf id (invoked (.cb j) (began (.run j) s)) =
      if j = id then passesOf id s ++ [s.pass] else passesOf id s := by
    rw [passesOf,runsOf_invoked]
    split
    · simp only [List.map_append]
      rfl
    · rfl
  refine ⟨fun _ => ⟨⟨?_,fun _ => locked,fun none => by cases none⟩,fun after kept inv => ?_⟩,fun silent => ?_⟩
  · exact ⟨waiting.when_,waiting.cb_,waiting.made⟩
  · have same := kept (List.cons_ne_nil _ _)
    exact ⟨inv.1,same.lock_ locked,same.passes,same.clock,same.tasks_,same.todo,same.runs.trans passes⟩
  · refine ⟨⟨waiting.when_,waiting.cb_,waiting.made⟩,locked,rfl,Int.le_refl _,Iff.rfl,Iff.rfl,?_⟩
    rw [if_neg]
    · rfl
    · rintro rfl
      exact silent waiting.cb_

theorem once_recheck (j : Nat) (now : Int) (pre : (once id due old ran).pre ctx (.recheck j now) s) :
    wp (system intervals) (untouched intervals id) (once id due old ran) ctx (recheck j now)
      (fun _ after => (once id due old ran).post ctx (.recheck j now) s after)
      (began (.recheck j now) s) := by
  obtain ⟨waiting,_,passing⟩ := pre
  obtain ⟨tests,missed,noted⟩ : ∃ tests missed,
      began (.recheck j now) s = { s with tests := tests, missed := missed } := by
    simp only [began,test]
    split
    · exact ⟨_,_,rfl⟩
    · exact ⟨_,_,rfl⟩
  simp only [noted,recheck,wp_bind,wp_read,wp_ite,wp_modify,wp_pure]
  have compares : j = id → ((s.tasks j).when_ < now ↔ int16 due < int16 s.pass) := by
    rintro rfl
    rw [waiting.when_,passing.now]
  refine ⟨fun past => ⟨?_,passing.lock_,rfl,rfl,Iff.rfl,rfl,?_⟩,fun ahead => ⟨?_,passing.lock_,rfl,rfl,Iff.rfl,rfl,?_⟩⟩
  · exact ⟨waiting.when_,waiting.cb_,waiting.made⟩
  · rw [List.mem_filter]
    apply and_congr_right'
    constructor
    · rintro other ⟨itself,_⟩
      simp [itself] at other
    · intro missed
      simp only [decide_eq_true_eq]
      rintro rfl
      exact missed ⟨rfl,(compares rfl).mp past⟩
  · exact ⟨waiting.when_,waiting.cb_,waiting.made⟩
  · constructor
    · exact fun among => ⟨among,fun itself => ahead ((compares itself.1).mpr itself.2)⟩
    · exact And.left

theorem once_visit (j : Nat) (now : Int) (pre : (once id due old ran).pre ctx (.visit j now) s) :
    wp (system intervals) (untouched intervals id) (once id due old ran) ctx (visit j now)
      (fun _ after => (once id due old ran).post ctx (.visit j now) s after)
      (began (.visit j now) s) := by
  obtain ⟨waiting,outside,passing,itself⟩ := pre
  have still : Waiting id due (test j s) := ⟨waiting.when_,waiting.cb_,waiting.made⟩
  simp only [visit,wp_bind,wp_read,wp_ite,wp_run,wp_pure]
  have compares : j = id → ((s.tasks j).when_ < now ↔ int16 due < int16 s.pass) := by
    rintro rfl
    rw [waiting.when_,passing.now]
  constructor
  · intro past
    refine ⟨⟨still,outside,passing.lock_⟩,?_⟩
    rintro middle ⟨going,locked,passes,clock,tasks_,todo,runs⟩
    refine ⟨⟨going,outside,passing.kept (locked.trans passing.lock_.symm) passes clock⟩,?_⟩
    rintro last ⟨served,held,unchanged,time,rest,same,left⟩
    have pass : middle.pass = s.pass := by
      rw [World.pass,passes]
      rfl
    refine ⟨served,⟨unchanged.trans passes,held,?_,?_,?_⟩,rest.trans todo⟩
    · rw [time]
      exact clock
    · intro visited late
      rw [if_pos visited] at runs
      refine ⟨same.trans runs,fun among => ?_⟩
      apply (left.mp among).2
      rw [pass]
      exact ⟨visited,late⟩
    · intro missed
      have other : j ≠ id := fun visited => missed ⟨visited,(compares visited).mp past⟩
      rw [if_neg other] at runs
      refine ⟨same.trans runs,left.trans ?_⟩
      exact (and_iff_left fun visited => other visited.1).trans tasks_
  · intro ahead
    refine ⟨still,⟨rfl,passing.lock_,Int.le_refl _,fun visited late => ?_,fun _ => ⟨rfl,Iff.rfl⟩⟩,Iff.rfl⟩
    exact absurd ((compares visited).mpr late) ahead

theorem Swept.trans {first second : Prop} {a b c : World} (before : Swept id due first a b)
    (after : Swept id due second b c) (apart : first → ¬second) :
    Swept id due (first ∨ second) a c := by
  have pass : b.pass = a.pass := by
    rw [World.pass,before.passes]
    rfl
  have later := after
  refine ⟨after.passes.trans before.passes,after.lock_,Int.le_trans before.clock after.clock,?_,?_⟩
  · rintro (visited | visited) late
    · obtain ⟨runs,out⟩ := before.reached visited late
      obtain ⟨same,rest⟩ := after.passed fun again => apart visited again.1
      exact ⟨same.trans runs,fun among => out (rest.mp among)⟩
    · obtain ⟨runs,out⟩ := after.reached visited (pass ▸ late)
      obtain ⟨same,_⟩ := before.passed fun again => apart again.1 visited
      rw [same,pass] at runs
      exact ⟨runs,out⟩
  · intro missed
    obtain ⟨same,rest⟩ := before.passed fun again => missed ⟨Or.inl again.1,again.2⟩
    obtain ⟨still,more⟩ := after.passed fun again => missed ⟨Or.inr again.1,pass ▸ again.2⟩
    exact ⟨still.trans same,more.trans rest⟩

theorem once_loop (now : Int) (pre : (once id due old ran).pre ctx (.loop now) s) :
    wp (system intervals) (untouched intervals id) (once id due old ran) ctx (loop now)
      (fun _ after => (once id due old ran).post ctx (.loop now) s after) s := by
  obtain ⟨waiting,outside,passing,inside⟩ := pre
  simp only [loop,wp_bind,wp_read,wp_ite,wp_pure,wp_query]
  constructor
  · intro empty
    refine ⟨waiting,rfl,passing.lock_,Int.le_refl _,fun among => ?_,fun _ => ⟨rfl,Iff.rfl⟩⟩
    rw [empty] at among
    cases among
  · refine fun _ => ⟨trivial,fun a admitted => ?_⟩
    cases a with
    | acquired => simp [untouched,environment] at admitted
    | time t => simp [untouched,environment] at admitted
    | task j t =>
      simp only [untouched,environment,Bool.and_eq_true,List.contains_iff_mem,decide_eq_true_eq] at admitted
      obtain ⟨among,later⟩ := admitted
      simp only [wp_bind,wp_modify,wp_run]
      constructor
      · refine ⟨⟨waiting.when_,waiting.cb_,waiting.made⟩,outside,passing.kept rfl rfl later,?_⟩
        rintro rfl
        exact ⟨inside among,by simp⟩
      · rintro middle ⟨going,swept,todo⟩
        have left : id ∈ middle.todo ↔ id ∈ s.todo ∧ id ≠ j := by
          rw [todo]
          change id ∈ s.todo.filter (· ≠ j) ↔ _
          simp [List.mem_filter]
        have apart : j = id → id ∉ middle.todo := fun same found => (left.mp found).2 same.symm
        have comes : id ∈ s.todo ↔ j = id ∨ id ∈ middle.todo := by
          rw [left]
          constructor
          · intro waits
            by_cases same : j = id
            · exact Or.inl same
            · exact Or.inr ⟨waits,fun other => same other.symm⟩
          · rintro (same | waits)
            · rw [← same]
              exact among
            · exact waits.1
        refine ⟨⟨going,outside,?_,fun waits => ?_⟩,?_⟩
        · exact passing.kept (swept.lock_.trans passing.lock_.symm) swept.passes
            (Int.le_trans later swept.clock)
        · obtain ⟨_,same⟩ := swept.passed fun visited => apart visited.1 waits
          exact same.mpr (inside (left.mp waits).1)
        · rintro last ⟨ending,rest⟩
          have total := swept.trans rest apart
          refine ⟨ending,total.passes,total.lock_,Int.le_trans later total.clock,?_,?_⟩
          · exact fun visited => total.reached (comes.mp visited)
          · exact fun missed => total.passed fun both => missed ⟨comes.mpr both.1,both.2⟩

theorem Served.pass {us : List Int} {after : World} {u : Int} (served : Served id due old ran us s)
    (passes : after.passes = s.passes ++ [u])
    (reached : id ∈ s.tasks_ → int16 due < int16 u →
      passesOf id after = passesOf id s ++ [u] ∧ id ∉ after.tasks_)
    (passed : ¬(id ∈ s.tasks_ ∧ int16 due < int16 u) →
      passesOf id after = passesOf id s ∧ (id ∈ after.tasks_ ↔ id ∈ s.tasks_)) :
    Served id due old ran (us ++ [u]) after := by
  have split : taken due (us ++ [u]) = (taken due us).or (taken due [u]) := List.find?_append
  suffices both : passesOf id after = ran ++ (taken due (us ++ [u])).toList ∧
      (id ∈ after.tasks_ ↔ taken due (us ++ [u]) = none) from
    ⟨by rw [passes,served.passes,List.append_assoc],both.1,both.2⟩
  cases before : taken due us with
  | none =>
    have present := served.tasks_.mpr before
    by_cases late : int16 due < int16 u
    · obtain ⟨runs,out⟩ := reached present late
      have here : taken due (us ++ [u]) = some u := by
        rw [split,before,Option.none_or]
        simp [taken,late]
      constructor
      · rw [runs,served.runs,before,here]
        simp
      · rw [here]
        simp [out]
    · obtain ⟨runs,same⟩ := passed fun both => late both.2
      have still : taken due (us ++ [u]) = none := by
        rw [split,before,Option.none_or]
        simp [taken,late]
      constructor
      · rw [runs,served.runs,before,still]
      · rw [still]
        simp [same,present]
  | some v =>
    have absent : id ∉ s.tasks_ := by
      rw [served.tasks_,before]
      simp
    obtain ⟨runs,same⟩ := passed fun both => absent both.1
    have still : taken due (us ++ [u]) = some v := by rw [split,before,Option.some_or]
    constructor
    · rw [runs,served.runs,before,still]
    · rw [still,same]
      simp [absent]

theorem once_onWork (pre : (once id due old ran).pre ctx .onWork s) :
    wp (system intervals) (untouched intervals id) (once id due old ran) ctx onWork
      (fun _ after => (once id due old ran).post ctx .onWork s after) s := by
  obtain ⟨waiting,locked⟩ := pre
  simp only [onWork,wp_bind]
  apply wp_lock
  · rfl
  · trivial
  intro free
  have outside : ctx = [] := by
    by_contra inside
    rw [locked inside] at free
    cases free
  subst outside
  rw [wp_bind]
  apply wp_now
  · rfl
  · trivial
  intro t later
  simp only [wp_bind,wp_modify,wp_run]
  have pass : ∀ w : World, w.passes = s.passes ++ [t] → w.pass = t := by
    intro w passes
    simp [World.pass,passes]
  constructor
  · refine ⟨⟨waiting.when_,waiting.cb_,waiting.made⟩,rfl,⟨rfl,?_,?_⟩,fun present => present⟩
    · rw [pass _ rfl]
      rfl
    · exact Int.le_of_eq (pass _ rfl)
  · rintro after ⟨going,swept⟩
    refine ⟨⟨going.when_,going.cb_,going.made⟩,rfl,?_⟩
    rintro ⟨us,served⟩
    refine ⟨us ++ [t],served.pass swept.passes ?_ ?_⟩
    · intro present late
      have reached := swept.reached present
      rw [pass _ rfl] at reached
      exact reached late
    · intro missed
      have passed := swept.passed
      rw [pass _ rfl] at passed
      exact passed missed

end Bodies

theorem once_sound : (once id due old ran).Sound (system intervals) (untouched intervals id) where
  rely_refl := fun _ s _ => Same.refl s
  rely_trans := fun _ _ _ _ first second inside => (first inside).trans (second inside)
  body := by
    intro ctx m s pre
    cases m with
    | task interval cb => exact once_task ctx interval cb pre
    | restart j => exact once_restart ctx j pre
    | onWork => exact once_onWork ctx pre
    | loop now => exact once_loop ctx now pre
    | visit j now => exact once_visit ctx j now pre
    | recheck j now => exact once_recheck ctx j now pre
    | run j => exact once_run ctx j pre
    | add j => exact once_add ctx j pre
    | del j => exact once_del ctx j pre
  enter := by
    rintro ctx m s ⟨waiting,locked,_⟩ allowed
    cases m with
    | task interval cb => exact ⟨waiting,trivial⟩
    | restart j | add j | del j =>
      simp only [untouched,Bool.and_eq_true,decide_eq_true_eq] at allowed
      exact ⟨waiting,allowed.1⟩
    | onWork => exact ⟨waiting,locked⟩
    | _ => simp [untouched,environment] at allowed
  leave := by
    rintro ctx m s after ⟨_,locked,served⟩ allowed ⟨waiting,done⟩
    have leaves : Same id s after → (once id due old ran).inv ctx after ∧
        (once id due old ran).rely ctx s after := by
      intro same
      refine ⟨⟨waiting,fun inside => same.lock_ (locked inside),fun outside => ?_⟩,fun _ => same⟩
      obtain ⟨us,before⟩ := served outside
      exact ⟨us,before.same same⟩
    cases m with
    | onWork =>
      obtain ⟨outside,passed⟩ := done
      refine ⟨⟨waiting,fun inside => absurd outside inside,fun _ => passed (served outside)⟩,?_⟩
      exact fun inside => absurd outside inside
    | loop now | visit j now | recheck j now | run j => simp [untouched,environment] at allowed
    | _ => exact leaves done

end Once

/-- A task with a callback, made at `t` with interval `I` and not restarted, is in `tasks_`
between two calls. Then, as long as nobody restarts, adds or deletes it: it is run by the
first pass later than `t + I`, by no other, and is in `tasks_` until then, if and only if
in each pass, neither side having fired before, the truncated comparison is right. -/
theorem one_shot_exact (intervals : Nat → Int) (id : Nat) (nonneg : 0 ≤ intervals id)
    (clock t : Int) (c d : Config World Query Answer Callback Method)
    (reached : (system intervals).Reachable (environment intervals) (initial clock) c)
    (idle : c.stack = []) (added : id ∈ c.state.tasks_) (callback : (c.state.tasks id).cb_ = true)
    (made : c.state.due id = t + intervals id)
    (moves : List (Move World Query Answer Callback Method))
    (ran : (system intervals).exec (untouched intervals id) moves c = some d) (back : d.stack = []) :
    ∃ us, d.state.passes = c.state.passes ++ us ∧
      ((passesOf id d.state = passesOf id c.state ++ (us.find? (t + intervals id < ·)).toList ∧
          (id ∈ d.state.tasks_ ↔ us.find? (t + intervals id < ·) = none)) ↔
        ∀ before u after, us = before ++ u :: after →
          (∀ v ∈ before, ¬t + intervals id < v ∧ ¬int16 (t + intervals id) < int16 v) →
          (int16 (t + intervals id) < int16 u ↔ t + intervals id < u)) := by
  have quiet : c.controlled := Config.controlled_of_nil idle
  obtain ⟨scheduled,_⟩ := reachable_invariant (periods_sound intervals id nonneg) (initial clock) c
    (initial_scheduled intervals id clock) reached quiet
  obtain ⟨s,stack⟩ := c
  cases idle
  have waiting : Waiting id (t + intervals id) s :=
    ⟨by rw [scheduled.when_,made],callback,scheduled.known id (Or.inl added)⟩
  have start : (once id (t + intervals id) s.passes (passesOf id s)).inv [] s := by
    refine ⟨waiting,fun inside => absurd rfl inside,fun _ => ⟨[],?_,?_,?_⟩⟩
    · simp
    · simp [taken]
    · simp [taken,added]
  have later : d.controlled := Config.controlled_of_nil back
  obtain ⟨_,_,ending⟩ := reachable_invariant (once_sound intervals id _ _ _) s d start ⟨moves,ran⟩ later
  obtain ⟨us,served⟩ := ending (by rw [back]; rfl)
  refine ⟨us,served.passes,?_⟩
  have agree := find_agree (fun u => decide (t + intervals id < u))
    (fun u => decide (int16 (t + intervals id) < int16 u)) us
  simp only [decide_eq_true_eq,decide_eq_false_iff_not] at agree
  rw [← agree,served.runs,served.tasks_,List.append_cancel_left_eq]
  constructor
  · rintro ⟨runs,_⟩
    simpa [taken] using congrArg List.head? runs
  · intro same
    rw [taken,same]
    exact ⟨rfl,Iff.rfl⟩

def added (t interval : Int) : List (Move World Query Answer Callback Method) :=
  [.enter (.task interval true),.answer (.time t),.enter (.add 0),.answer .acquired]

def passAt (t : Int) : List (Move World Query Answer Callback Method) :=
  [.enter .onWork,.answer .acquired,.answer (.time t),.answer (.task 0 t)]

/-- Made at 0 ms with 1000 ms, not due at 500, due at 1001. -/
theorem one_shot_exact_due :
    ∃ c d : Config World Query Answer Callback Method, d.state.tasks_ = [] ∧
    ∃ us, d.state.passes = c.state.passes ++ us ∧
      ((passesOf 0 d.state = passesOf 0 c.state ++ (us.find? (0 + 1000 < ·)).toList ∧
          (0 ∈ d.state.tasks_ ↔ us.find? (0 + 1000 < ·) = none)) ↔
        ∀ before u after, us = before ++ u :: after →
          (∀ v ∈ before, ¬(0 : Int) + 1000 < v ∧ ¬int16 (0 + 1000) < int16 v) →
          (int16 (0 + 1000) < int16 u ↔ 0 + 1000 < u)) := by
  obtain ⟨reached,moves,ran⟩ := (system fun _ => 1000).play_twice (environment fun _ => 1000)
    (untouched (fun _ => 1000) 0) 60 (added 0 1000) (passAt 500 ++ passAt 1001 ++ [.leave])
    (initial 0) _ _ rfl rfl
  refine ⟨_,_,?_,one_shot_exact (fun _ => 1000) 0 (by decide) 0 0 _ _ reached rfl ?_ rfl rfl moves ran rfl⟩
  · rfl
  · decide

/-- Made at 32000 ms with 1500 ms, it runs a millisecond later. -/
theorem one_shot_early :
    ∃ c d moves, (system fun _ => 1500).Reachable (environment fun _ => 1500) (initial 0) c ∧
      c.stack = [] ∧ 0 ∈ c.state.tasks_ ∧ (c.state.tasks 0).cb_ = true ∧ c.state.due 0 = 32000 + 1500 ∧
      (system fun _ => 1500).exec (untouched (fun _ => 1500) 0) moves c = some d ∧ d.stack = [] ∧
      d.state.passes = c.state.passes ++ [32001] ∧ passesOf 0 d.state = [32001] ∧
      [32001].find? ((32000 : Int) + 1500 < ·) = none := by
  obtain ⟨reached,moves,ran⟩ := (system fun _ => 1500).play_twice (environment fun _ => 1500)
    (untouched (fun _ => 1500) 0) 60 (added 32000 1500) (passAt 32001 ++ [.leave])
    (initial 0) _ _ rfl rfl
  refine ⟨_,_,moves,reached,rfl,?_,rfl,rfl,ran,rfl,rfl,rfl,rfl⟩
  decide

end Tmms.Base.Tasks
