import Tmms.LoopGroup

/-! When the loops of a group can wait for each other in a circle: exactly when the functors
given to them post in a circle. -/
namespace Tmms.Network.LoopGroup

open WaitGraph (Acyclic Closed)

variable {ι : Type} {P : ι → Func ι → Prop}

def Queued (P : ι → Func ι → Prop) (i : ι) (queue : List (Func ι)) : Prop := ∀ f ∈ queue, P i f

/-- What is still to be run on loop `i` only posts as the functors given to it do. -/
def Within (P : ι → Func ι → Prop) (i : ι) (frames : List (List (ι × Func ι))) : Prop :=
  ∀ rest ∈ frames, ∀ post ∈ rest, P post.1 post.2 ∧ (i ≠ post.1 → Posts P i post.1)

def Given (P : ι → Func ι → Prop) : Posting ι → Prop
  | .locking target f | .pushing target f => P target f
  | _ => True

structure Grounded (P : ι → Func ι → Prop) (s : State ι) : Prop where
  queue : ∀ i, Queued P i (s.functions_ i)
  frames : ∀ i, Within P i (s.frames i)
  given : ∀ thread, Given P (s.posting thread)
  waits : ∀ i j f, s.phase i ≠ .outside → s.posting (.loop i) = .locking j f → Posts P i j

theorem initial_grounded : Grounded P (initial : State ι) := by
  constructor
  · intro i f among
    cases among
  · intro i rest among
    cases among
  · exact fun _ => trivial
  · intro i j f inside
    exact absurd rfl inside

theorem within_posts (complete : Complete P) {i : ι} {f : Func ι} (given : P i f) :
    ∀ post ∈ f.posts, P post.1 post.2 ∧ (i ≠ post.1 → Posts P i post.1) := by
  intro post among
  constructor
  · exact complete i f given post among
  · exact fun other => ⟨other,f,given,post.2,among⟩

theorem Within.cons {i : ι} {rest : List (ι × Func ι)} {frames : List (List (ι × Func ι))}
    (first : ∀ post ∈ rest, P post.1 post.2 ∧ (i ≠ post.1 → Posts P i post.1)) (within : Within P i frames) :
    Within P i (rest :: frames) := by
  intro other among
  rcases List.mem_cons.mp among with rfl | later
  · exact first
  · exact within other later

theorem Grounded.relock {s : State ι} (grounded : Grounded P s) (lock_ : ι → Option (Thread ι)) :
    Grounded P { s with lock_ := lock_ } :=
  ⟨grounded.queue,grounded.frames,grounded.given,grounded.waits⟩

theorem Grounded.push {s : State ι} (grounded : Grounded P s) {thread : Thread ι} {target : ι}
    {f : Func ι} (pushing : s.posting thread = .pushing target f) :
    Queued P target (s.functions_ target ++ [f]) := by
  have given := grounded.given thread
  rw [pushing] at given
  intro g among
  rcases List.mem_append.mp among with before | last
  · exact grounded.queue target g before
  · rw [List.mem_singleton.mp last]
    exact given

/-- Loops wait for each other only as the functors given to them post. -/
theorem waits_posts {s : State ι} (grounded : Grounded P s) (i j : ι) (waits : Waits s i j) : Posts P i j := by
  obtain ⟨inside,_,f,locking⟩ := waits
  apply grounded.waits i j f _ locking
  intro outside
  rcases inside with draining | running
  · rw [outside] at draining
    cases draining
  · rw [outside] at running
    cases running

section Step
variable [DecidableEq ι] {s : State ι}

theorem Grounded.reframe (grounded : Grounded P s) (i : ι) (frames : List (List (ι × Func ι)))
    (within : Within P i frames) : Grounded P { s with frames := Function.update s.frames i frames } :=
  ⟨grounded.queue,(Function.forall_update_iff _ (Within P)).mpr ⟨within,fun k _ => grounded.frames k⟩,
    grounded.given,grounded.waits⟩

/-- What one thread posts changes; inside `RunFunctions` it may begin to wait only as the
functors given to its loop post. -/
theorem Grounded.repost (grounded : Grounded P s) (thread : Thread ι) (posting : Posting ι)
    (given : Given P posting)
    (waits : ∀ i j f, thread = .loop i → posting = .locking j f → s.phase i ≠ .outside → Posts P i j) :
    Grounded P { s with posting := Function.update s.posting thread posting } := by
  refine ⟨grounded.queue,grounded.frames,?_,?_⟩
  · exact (Function.forall_update_iff _ fun _ => Given P).mpr ⟨given,fun k _ => grounded.given k⟩
  · intro i j f inside locking
    change Function.update s.posting thread posting (.loop i) = .locking j f at locking
    by_cases same : Thread.loop i = thread
    · rw [same,Function.update_self] at locking
      exact waits i j f same.symm locking inside
    · rw [Function.update_of_ne same] at locking
      exact grounded.waits i j f inside locking

theorem Grounded.requeue (grounded : Grounded P s) (i : ι) (queue : List (Func ι))
    (given : Queued P i queue) : Grounded P { s with functions_ := Function.update s.functions_ i queue } :=
  ⟨(Function.forall_update_iff _ (Queued P)).mpr ⟨given,fun k _ => grounded.queue k⟩,grounded.frames,
    grounded.given,grounded.waits⟩

/-- A loop enters `RunFunctions` while its thread posts nothing, and stays in it otherwise. -/
theorem Grounded.rephase (grounded : Grounded P s) (i : ι) (phase : FunctorQueue.Phase)
    (inside : phase = .outside ∨ s.phase i ≠ .outside ∨ ∀ j f, s.posting (.loop i) ≠ .locking j f) :
    Grounded P { s with phase := Function.update s.phase i phase } := by
  refine ⟨grounded.queue,grounded.frames,grounded.given,?_⟩
  intro k j f away locking
  change Function.update s.phase i phase k ≠ .outside at away
  by_cases same : k = i
  · subst same
    rw [Function.update_self] at away
    rcases inside with outside | before | quiet
    · exact absurd outside away
    · exact grounded.waits k j f before locking
    · exact absurd locking (quiet j f)
  · rw [Function.update_of_ne same] at away
    exact grounded.waits k j f away locking

theorem Grounded.stay (grounded : Grounded P s) (i : ι) (phase : FunctorQueue.Phase)
    (inside : s.phase i ≠ .outside) :
    Grounded P { s with phase := Function.update s.phase i phase } :=
  grounded.rephase i phase (Or.inr (Or.inl inside))

theorem Grounded.runInLoop (grounded : Grounded P s) (complete : Complete P) (thread : Thread ι)
    (target : ι) (f : Func ι) (given : P target f)
    (posts : ∀ i, thread = .loop i → i ≠ target → s.phase i ≠ .outside → Posts P i target) :
    Grounded P (runInLoop thread target f s) := by
  unfold LoopGroup.runInLoop
  split
  · exact grounded.reframe target _ ((grounded.frames target).cons (within_posts complete given))
  · next other =>
    apply grounded.repost thread (.locking target f) given
    rintro i j g own same inside
    cases same
    apply posts i own _ inside
    rintro rfl
    exact other own

/-- A thread past the lock goes on with its call. -/
theorem Grounded.pass (grounded : Grounded P s) (thread : Thread ι) (posting : Posting ι)
    (given : Given P posting) (past : ∀ j f, posting ≠ .locking j f) :
    Grounded P { s with posting := Function.update s.posting thread posting } :=
  grounded.repost thread posting given fun _ j f _ locking _ => absurd locking (past j f)

theorem Grounded.nested (grounded : Grounded P s) (complete : Complete P) {i target : ι} {f : Func ι}
    {rest : List (ι × Func ι)} {below : List (List (ι × Func ι))}
    (frames : s.frames i = ((target,f) :: rest) :: below) :
    Grounded P (LoopGroup.runInLoop (.loop i) target f
      { s with frames := Function.update s.frames i (rest :: below) }) := by
  have within := grounded.frames i
  rw [frames] at within
  have first := within _ List.mem_cons_self (target,f) List.mem_cons_self
  have left : Within P i (rest :: below) := by
    apply Within.cons
    · exact fun post among => within _ List.mem_cons_self post (List.mem_cons_of_mem _ among)
    · exact fun other among => within other (List.mem_cons_of_mem _ among)
  apply (grounded.reframe i _ left).runInLoop complete (.loop i) target f first.1
  rintro k ⟨⟩ other _
  exact first.2 other

theorem Grounded.finish (grounded : Grounded P s) {i : ι} {below : List (List (ι × Func ι))}
    (frames : s.frames i = [] :: below) :
    Grounded P { s with frames := Function.update s.frames i below } := by
  have within := grounded.frames i
  rw [frames] at within
  exact grounded.reframe i _ fun other among => within other (List.mem_cons_of_mem _ among)

theorem Grounded.front (grounded : Grounded P s) (complete : Complete P) {i : ι} {f : Func ι}
    {rest : List (Func ι)} (waiting : s.functions_ i = f :: rest) :
    Grounded P { s with frames := Function.update s.frames i [f.posts] } := by
  have given := grounded.queue i f (by rw [waiting]; exact List.mem_cons_self)
  exact grounded.reframe i _ (Within.cons (within_posts complete given) fun other among => by cases among)

theorem step_grounded (complete : Complete P) (s : State ι) (move : Move ι) (next : State ι)
    (offered : Offered P move) (grounded : Grounded P s) (stepped : step s move = some next) :
    Grounded P next := by
  cases move with
  | call thread target f =>
    simp only [step] at stepped
    split at stepped
    · split at stepped
      · next large =>
        cases stepped
        apply grounded.runInLoop complete thread target f offered
        rintro i rfl _ inside
        simp only [atLarge,decide_eq_true_eq] at large
        exact absurd large.1 inside
      · contradiction
    · contradiction
  | lock thread =>
    simp only [step] at stepped
    split at stepped
    · next target f locking =>
      split at stepped
      · cases stepped
        have given := grounded.given thread
        rw [locking] at given
        exact (grounded.pass thread (.pushing target f) given nofun).relock _
      · contradiction
    · contradiction
  | push thread =>
    simp only [step] at stepped
    split at stepped
    · next target f pushing =>
      cases stepped
      exact (grounded.requeue target _ (grounded.push pushing)).pass thread (.waking target) trivial nofun
    · contradiction
  | wakeUp thread =>
    simp only [step] at stepped
    split at stepped
    · next target waking =>
      cases stepped
      exact grounded.pass thread (.unlocking target) trivial nofun
    · contradiction
  | unlock thread =>
    simp only [step] at stepped
    split at stepped
    · cases stepped
      exact (grounded.pass thread .outside trivial nofun).relock _
    · contradiction
  | nested i =>
    simp only [step] at stepped
    split at stepped
    · next target f rest below frames outside =>
      cases stepped
      exact grounded.nested complete frames
    · contradiction
  | finish i =>
    simp only [step] at stepped
    split at stepped
    · next below frames outside =>
      cases stepped
      exact grounded.finish frames
    · contradiction
  | runFunctions i =>
    simp only [step] at stepped
    split at stepped
    · next outside =>
      split at stepped
      · cases stepped
        apply grounded.rephase i
        refine Or.inr (Or.inr fun j f locking => ?_)
        rw [outside] at locking
        cases locking
      · contradiction
    · contradiction
  | lockLoop i =>
    simp only [step] at stepped
    split at stepped
    · next ready =>
      cases stepped
      have moved := grounded.stay i .draining (by rw [ready.1]; nofun)
      exact moved.relock _
    · contradiction
  | front i =>
    simp only [step] at stepped
    split at stepped
    · next f rest draining waiting =>
      cases stepped
      apply (grounded.front complete waiting).stay i
      rw [draining]
      nofun
    · contradiction
  | pop i =>
    simp only [step] at stepped
    split at stepped
    · next ready =>
      cases stepped
      apply (grounded.requeue i _ fun f among => grounded.queue i f (List.mem_of_mem_tail among)).stay i
      rw [ready.1]
      nofun
    · contradiction
  | unlockLoop i =>
    simp only [step] at stepped
    split at stepped
    · cases stepped
      have moved := grounded.rephase i .outside (Or.inl rfl)
      exact moved.relock _
    · contradiction

theorem reachable_grounded (complete : Complete P) (reached : Reachable P s) : Grounded P s :=
  reached.invariant (Grounded P) (step_grounded complete) initial_grounded

end Step

section Group
variable {s : State ι} {group : List ι} {i : ι}

/-- A call on another loop of the group is still to be made. -/
def Aims (group : List ι) (i : ι) (frames : List (List (ι × Func ι))) : Prop :=
  ∃ rest ∈ frames, ∃ post ∈ rest, post.1 ∈ group ∧ post.1 ≠ i

/-- Loop `i` is running a functor that will make such a call. -/
structure Poised (group : List ι) (s : State ι) (i : ι) : Prop where
  quiet : s.posting (.loop i) = .outside
  aims : Aims group i (s.frames i)

def Stuck (group : List ι) (s : State ι) (i : ι) : Prop :=
  ∃ j ∈ group, ∃ f, s.posting (.loop i) = .locking j f

structure Held (group : List ι) (s : State ι) : Prop where
  inside : ∀ i ∈ group, s.phase i = .running ∧ s.lock_ i = some (.loop i)
  free : ∀ j ∉ group, s.lock_ j = none

def Same (i : ι) (s next : State ι) : Prop :=
  ∀ k, k ≠ i → next.posting (.loop k) = s.posting (.loop k) ∧ next.frames k = s.frames k

theorem Aims.tail {below : List (List (ι × Func ι))} {post : ι × Func ι} {rest : List (ι × Func ι)}
    (aims : Aims group i ((post :: rest) :: below)) (other : ¬(post.1 ∈ group ∧ post.1 ≠ i)) :
    Aims group i (rest :: below) := by
  obtain ⟨line,among,later,member,aimed⟩ := aims
  rcases List.mem_cons.mp among with rfl | under
  · rcases List.mem_cons.mp member with rfl | left
    · exact absurd aimed other
    · exact ⟨rest,List.mem_cons_self,later,left,aimed⟩
  · exact ⟨line,List.mem_cons_of_mem _ under,later,member,aimed⟩

theorem Aims.cons {frames : List (List (ι × Func ι))} (aims : Aims group i frames)
    (line : List (ι × Func ι)) : Aims group i (line :: frames) := by
  obtain ⟨rest,among,found⟩ := aims
  exact ⟨rest,List.mem_cons_of_mem _ among,found⟩

end Group

section Circle
variable [DecidableEq ι] {s : State ι} {group : List ι} {i : ι}

def begun (i : ι) (f : Func ι) (s : State ι) : State ι :=
  { s with
    functions_ := Function.update s.functions_ i [f]
    lock_ := Function.update s.lock_ i (some (.loop i))
    phase := Function.update s.phase i .running
    frames := Function.update s.frames i [f.posts] }

/-- A thread that is no loop's gives `f` to loop `i`, which begins to run it. -/
theorem begun_reachable {f : Func ι} (reached : Reachable P s) (given : P i f) (free : s.lock_ i = none)
    (outside : s.phase i = .outside) (empty : s.functions_ i = []) (idle : s.frames i = [])
    (quiet : s.posting (.loop i) = .outside) (spare : s.posting (.other 0) = .outside) :
    Reachable P (begun i f s) := by
  have run : Transition.exec step [.call (.other 0) i f,.lock (.other 0),.push (.other 0),.wakeUp (.other 0),
      .unlock (.other 0),.runFunctions i,.lockLoop i,.front i] s = some (begun i f s) := by
    simp [Transition.exec,step,runInLoop,atLarge,begun,free,outside,empty,idle,quiet,spare]
  apply reached.exec run
  intro move among
  rcases List.mem_cons.mp among with rfl | rest
  · exact given
  · simp only [List.mem_cons,List.not_mem_nil,or_false] at rest
    rcases rest with rfl | rfl | rfl | rfl | rfl | rfl | rfl
    all_goals trivial

theorem finish_reachable {below : List (List (ι × Func ι))} (reached : Reachable P s)
    (quiet : s.posting (.loop i) = .outside) (frames : s.frames i = [] :: below) :
    Reachable P { s with frames := Function.update s.frames i below } := by
  apply reached.exec (by simp [Transition.exec,step,quiet,frames] : Transition.exec step [.finish i] s = _)
  intro move among
  rw [List.mem_singleton.mp among]
  trivial

section Nested
variable {j : ι} {f : Func ι} {rest : List (ι × Func ι)} {below : List (List (ι × Func ι))}
  (reached : Reachable P s) (quiet : s.posting (.loop i) = .outside)
include reached quiet

theorem own_reachable (frames : s.frames i = ((i,f) :: rest) :: below) :
    Reachable P { s with frames := Function.update s.frames i (f.posts :: rest :: below) } := by
  apply reached.exec (by simp [Transition.exec,step,runInLoop,quiet,frames] :
    Transition.exec step [.nested i] s = _)
  intro move among
  rw [List.mem_singleton.mp among]
  trivial

theorem wait_reachable (frames : s.frames i = ((j,f) :: rest) :: below) (other : j ≠ i) :
    Reachable P { s with
      frames := Function.update s.frames i (rest :: below)
      posting := Function.update s.posting (.loop i) (.locking j f) } := by
  apply reached.exec (by simp [Transition.exec,step,runInLoop,quiet,frames,other.symm] :
    Transition.exec step [.nested i] s = _)
  intro move among
  rw [List.mem_singleton.mp among]
  trivial

theorem post_reachable (frames : s.frames i = ((j,f) :: rest) :: below) (other : j ≠ i)
    (free : s.lock_ j = none) :
    Reachable P { s with
      functions_ := Function.update s.functions_ j (s.functions_ j ++ [f])
      frames := Function.update s.frames i (rest :: below) } := by
  apply reached.exec (by simp [Transition.exec,step,runInLoop,quiet,frames,other.symm,free] :
    Transition.exec step [.nested i,.lock (.loop i),.push (.loop i),.wakeUp (.loop i),.unlock (.loop i)] s = _)
  intro move among
  simp only [List.mem_cons,List.not_mem_nil,or_false] at among
  rcases among with rfl | rfl | rfl | rfl | rfl
  all_goals trivial

end Nested

/-- A loop of the group runs on until it calls `RunInLoop` on another one of them. What it posts
elsewhere goes through, since nobody holds that lock. -/
theorem advance (member : i ∈ group) (size : Nat) :
    ∀ s, sizeOf (s.frames i) = size → Reachable P s → Held group s → Poised group s i →
      ∃ next, Reachable P next ∧ Held group next ∧ Stuck group next i ∧ Same i s next := by
  induction size using Nat.strong_induction_on with
  | _ size ih =>
  intro s measured reached held poised
  have quiet := poised.quiet
  have aims := poised.aims
  -- one more step that only takes something off the frames of `i`
  have onward : ∀ later frames, Reachable P later → later.frames = Function.update s.frames i frames →
      later.posting = s.posting → Held group later → Aims group i frames → sizeOf frames < size →
      ∃ next, Reachable P next ∧ Held group next ∧ Stuck group next i ∧ Same i s next := by
    intro later frames reaches now posting still aimed less
    have top : later.frames i = frames := by rw [now,Function.update_self]
    obtain ⟨next,there,holding,stuck,same⟩ := ih (sizeOf frames) less later (by rw [top]) reaches still
      ⟨by rw [posting]; exact quiet,by rw [top]; exact aimed⟩
    refine ⟨next,there,holding,stuck,?_⟩
    intro k other
    obtain ⟨posts,runs⟩ := same k other
    rw [posting] at posts
    rw [now,Function.update_of_ne other] at runs
    exact ⟨posts,runs⟩
  match frames : s.frames i with
  | [] =>
    rw [frames] at aims
    obtain ⟨rest,among,_⟩ := aims
    cases among
  | [] :: below =>
    rw [frames] at aims measured
    obtain ⟨rest,among,post,inside,aimed⟩ := aims
    have under : rest ∈ below := by
      rcases List.mem_cons.mp among with rfl | under
      · cases inside
      · exact under
    apply onward _ below (finish_reachable reached quiet frames) rfl rfl ⟨held.inside,held.free⟩
    · exact ⟨rest,under,post,inside,aimed⟩
    · rw [← measured]
      simp only [List.cons.sizeOf_spec,List.nil.sizeOf_spec]
      omega
  | ((j,f) :: rest) :: below =>
    rw [frames] at aims measured
    by_cases own : j = i
    · subst own
      have left := aims.tail (by simp)
      apply onward _ (f.posts :: rest :: below) (own_reachable reached quiet frames) rfl rfl
        ⟨held.inside,held.free⟩ (left.cons f.posts)
      rw [← measured]
      cases f
      simp only [Func.posts,List.cons.sizeOf_spec,Prod.mk.sizeOf_spec,Func.mk.sizeOf_spec]
      omega
    · by_cases inside : j ∈ group
      · refine ⟨_,wait_reachable reached quiet frames own,⟨held.inside,held.free⟩,?_,?_⟩
        · exact ⟨j,inside,f,Function.update_self _ _ _⟩
        · intro k other
          have thread : Thread.loop k ≠ .loop i := fun same => other (by injection same)
          exact ⟨Function.update_of_ne thread _ _,Function.update_of_ne other _ _⟩
      · have left := aims.tail fun aimed => inside aimed.1
        apply onward _ (rest :: below) (post_reachable reached quiet frames own (held.free j inside)) rfl rfl
          ⟨held.inside,held.free⟩ left
        rw [← measured]
        simp only [List.cons.sizeOf_spec]
        omega

/-- One loop after the other, until all of the group wait for each other. -/
theorem all_stuck (todo : List ι) : ∀ s : State ι, Reachable P s → Held group s →
    (∀ i ∈ group, Stuck group s i ∨ Poised group s i ∧ i ∈ todo) →
      ∃ next, Reachable P next ∧ Held group next ∧ ∀ i ∈ group, Stuck group next i := by
  induction todo with
  | nil =>
    intro s reached held each
    refine ⟨s,reached,held,?_⟩
    intro i member
    rcases each i member with stuck | ⟨_,never⟩
    · exact stuck
    · cases never
  | cons first todo ih =>
    intro s reached held each
    by_cases now : first ∈ group ∧ Poised group s first
    · obtain ⟨next,there,holding,stuck,same⟩ := advance now.1 _ s rfl reached held now.2
      apply ih next there holding
      intro i member
      by_cases itself : i = first
      · subst itself
        exact Or.inl stuck
      · obtain ⟨posts,runs⟩ := same i itself
        rcases each i member with ⟨j,inside,f,waiting⟩ | ⟨poised,among⟩
        · exact Or.inl ⟨j,inside,f,posts.trans waiting⟩
        · have later : i ∈ todo := (List.mem_cons.mp among).resolve_left itself
          exact Or.inr ⟨⟨posts.trans poised.quiet,by rw [runs]; exact poised.aims⟩,later⟩
    · apply ih s reached held
      intro i member
      rcases each i member with stuck | ⟨poised,among⟩
      · exact Or.inl stuck
      · rcases List.mem_cons.mp among with rfl | later
        · exact absurd ⟨member,poised⟩ now
        · exact Or.inr ⟨poised,later⟩

/-- The loops in `done` are running a functor that aims at the group; the others have done
nothing yet. -/
structure Begun (group done : List ι) (s : State ι) : Prop where
  inside : ∀ i ∈ done, s.phase i = .running ∧ s.lock_ i = some (.loop i) ∧ Poised group s i
  outside : ∀ i ∉ done, s.phase i = .outside ∧ s.lock_ i = none ∧ s.functions_ i = [] ∧
    s.frames i = [] ∧ s.posting (.loop i) = .outside
  spare : s.posting (.other 0) = .outside

theorem all_begun (done : List ι) (circle : ∀ i ∈ done, ∃ j ∈ group, Posts P i j) :
    ∃ s, Reachable P s ∧ Begun group done s := by
  induction done with
  | nil =>
    refine ⟨initial,Transition.Reachable.start _,?_,?_,rfl⟩
    · intro i among
      cases among
    · exact fun i _ => ⟨rfl,rfl,rfl,rfl,rfl⟩
  | cons i done ih =>
    obtain ⟨s,reached,inside,outside,spare⟩ := ih fun k among => circle k (List.mem_cons_of_mem _ among)
    by_cases already : i ∈ done
    · refine ⟨s,reached,?_,?_,spare⟩
      · intro k among
        rcases List.mem_cons.mp among with rfl | before
        · exact inside k already
        · exact inside k before
      · exact fun k other => outside k fun among => other (List.mem_cons_of_mem _ among)
    · obtain ⟨j,member,apart,f,given,g,posted⟩ := circle i List.mem_cons_self
      obtain ⟨phase,free,empty,idle,quiet⟩ := outside i already
      refine ⟨begun i f s,begun_reachable reached given free phase empty idle quiet spare,?_,?_,spare⟩
      · intro k among
        by_cases same : k = i
        · subst same
          refine ⟨Function.update_self _ _ _,Function.update_self _ _ _,quiet,?_⟩
          refine ⟨f.posts,?_,(j,g),posted,member,fun own => apart own.symm⟩
          simp [begun]
        · obtain ⟨running,locked,quiet,aims⟩ := inside k ((List.mem_cons.mp among).resolve_left same)
          refine ⟨?_,?_,quiet,?_⟩
          · simpa [begun,same] using running
          · simpa [begun,same] using locked
          · simpa [begun,same] using aims
      · intro k other
        have same : k ≠ i := fun same => other (same ▸ List.mem_cons_self)
        simpa [begun,same] using outside k fun among => other (List.mem_cons_of_mem _ among)

/-- Functors that post in a circle can hold up their loops in a circle. -/
theorem circle_waits (group : List ι) (member : i ∈ group) (circle : Closed (Posts P) group) :
    ∃ s, Reachable P s ∧ ¬Acyclic (Waits s) := by
  obtain ⟨s,reached,begun⟩ := all_begun group circle
  have held : Held group s :=
    ⟨fun k among => ⟨(begun.inside k among).1,(begun.inside k among).2.1⟩,fun k other => (begun.outside k other).2.1⟩
  obtain ⟨next,there,holding,stuck⟩ := all_stuck group s reached held fun k among =>
    Or.inr ⟨(begun.inside k among).2.2,among⟩
  refine ⟨next,there,?_⟩
  apply WaitGraph.not_acyclic_of_closed member
  intro k among
  obtain ⟨j,inside,f,waiting⟩ := stuck k among
  obtain ⟨running,locked⟩ := holding.inside k among
  exact ⟨j,inside,Or.inr running,locked,f,waiting⟩

end Circle

/-- The loops wait for each other in a circle in no state of any run, if and only if the functors
that may be given to them post to each other in no circle. -/
theorem no_deadlock [DecidableEq ι] (P : ι → Func ι → Prop) (complete : Complete P) :
    (∀ s, Reachable P s → Acyclic (Waits s)) ↔ Acyclic (Posts P) := by
  constructor
  · intro safe i cycle
    obtain ⟨group,member,circle⟩ := WaitGraph.closed_of_cycle cycle
    obtain ⟨s,reached,waits⟩ := circle_waits group member circle
    exact waits (safe s reached)
  · intro acyclic s reached
    exact acyclic.mono (waits_posts (reachable_grounded complete reached))

def oneWay (i : Bool) (f : Func Bool) : Prop := f = .mk [] ∨ (i = false ∧ f = .mk [(true,.mk [])])

theorem no_deadlock_oneWay :
    Complete oneWay ∧ ((∀ s, Reachable oneWay s → Acyclic (Waits s)) ↔ Acyclic (Posts oneWay)) := by
  have complete : Complete oneWay := by
    rintro i f (rfl | ⟨_,rfl⟩) post among
    · cases among
    · rw [List.mem_singleton.mp among]
      exact Or.inl rfl
  exact ⟨complete,no_deadlock oneWay complete⟩

def crossing : List (Move Bool) :=
  [.call (.other 0) false (.mk [(true,.mk [])]),.lock (.other 0),.push (.other 0),.wakeUp (.other 0),
    .unlock (.other 0),
    .call (.other 0) true (.mk [(false,.mk [])]),.lock (.other 0),.push (.other 0),.wakeUp (.other 0),
    .unlock (.other 0),
    .runFunctions false,.runFunctions true,.lockLoop false,.lockLoop true,.front false,.front true,
    .nested false,.nested true]

theorem deadlock_reached :
    ∃ s : State Bool, Reachable (fun _ _ => True) s ∧ Relation.TransGen (Waits s) false false := by
  refine ⟨_,⟨crossing,?_,rfl⟩,?_⟩
  · intro move _
    cases move <;> trivial
  · apply Relation.TransGen.tail (b := true)
    · exact Relation.TransGen.single ⟨Or.inr rfl,rfl,_,rfl⟩
    · exact ⟨Or.inr rfl,rfl,_,rfl⟩

end Tmms.Network.LoopGroup
