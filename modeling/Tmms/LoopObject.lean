import Tmms.FunctorQueue
import Tmms.ReentrantRecords

/-! An object that lives on a loop's thread and whose methods other threads call through
`RunInLoop`. The loop's thread calls its handlers between two calls of `RunFunctions`, and runs the
functors of the queue within one; whatever the object's code does then, it does on that thread. -/
namespace Tmms.Network.LoopObject

open Reentrant

variable {σ Q A C M : Type}

/-- Whether a functor of the queue began the method, or the loop, the user or other code of the object. -/
inductive Origin where
  | posted
  | direct
  deriving DecidableEq

/-- An object and the queue of its loop; the methods begun while it took calls, oldest first. -/
structure State (σ Q A C M : Type) where
  queue : FunctorQueue.State
  object : Config σ Q A C M
  taken : List (Origin × M)

inductive Move (σ Q A C M : Type) where
  | other (move : FunctorQueue.Move)
  -- the loop's thread goes on in `RunFunctions`, between two functors
  | loop (move : FunctorQueue.Move)
  -- `RunFunctions` calls the functor at the front
  | front
  | object (move : Reentrant.Move σ Q A C M)

/-- Steps of other threads. Their functors call a method of the object and nothing else. -/
def posts : FunctorQueue.Move → Bool
  | .call (.other _) f => f.calls.isEmpty
  | .lock _ | .push _ | .wakeUp _ | .unlock _ => true
  | _ => false

def between : FunctorQueue.Move → Bool
  | .runFunctions | .lockLoop | .finish | .pop | .unlockLoop => true
  | _ => false

section Step
variable (T : System σ Q A C M) (E : Environment σ Q A C M) (method : FunctorQueue.Func → M) (takes : σ → Bool)

def State.record (s : State σ Q A C M) (origin : Origin) (m : Option M) : List (Origin × M) :=
  if takes s.object.state then s.taken ++ (m.map fun m => (origin,m)).toList else s.taken

def step (s : State σ Q A C M) : Move σ Q A C M → Option (State σ Q A C M)
  | .other move =>
    if posts move then (FunctorQueue.step s.queue move).map fun queue => { s with queue := queue } else none
  | .loop move =>
    if between move ∧ s.object.stack.isEmpty then
      (FunctorQueue.step s.queue move).map fun queue => { s with queue := queue }
    else none
  | .front =>
    match s.queue.functions_ with
    | [] => none
    | f :: _ =>
      if s.object.stack.isEmpty then do
        let queue ← FunctorQueue.step s.queue .front
        let object ← T.step E s.object (.enter (method f))
        some ⟨queue,object,s.record takes .posted (some (method f))⟩
      else none
  | .object move =>
    if s.object.stack.isEmpty ∧ s.queue.phase ≠ .outside then none
    else (T.step E s.object move).map fun object =>
      ⟨s.queue,object,s.record takes .direct (beginning s.object move)⟩

/-- The moves a state allows, and where they lead. -/
inductive Stepped (s : State σ Q A C M) : State σ Q A C M → Prop
  | queued (move : FunctorQueue.Move) (queue : FunctorQueue.State) (other : move ≠ .front)
    (took : FunctorQueue.step s.queue move = some queue) : Stepped s { s with queue := queue }
  | front (f : FunctorQueue.Func) (rest : List FunctorQueue.Func) (queue : FunctorQueue.State) (object : Config σ Q A C M)
    (waiting : s.queue.functions_ = f :: rest) (idle : s.object.stack = [])
    (took : FunctorQueue.step s.queue .front = some queue)
    (entered : T.step E s.object (.enter (method f)) = some object) :
    Stepped s ⟨queue,object,s.record takes .posted (some (method f))⟩
  | object (move : Reentrant.Move σ Q A C M) (object : Config σ Q A C M)
    (apart : s.object.stack = [] → s.queue.phase = .outside) (took : T.step E s.object move = some object) :
    Stepped s ⟨s.queue,object,s.record takes .direct (beginning s.object move)⟩

variable {T E method takes} {s next : State σ Q A C M} {move : Move σ Q A C M}

theorem step_cases (stepped : step T E method takes s move = some next) : Stepped T E method takes s next := by
  cases move with
  | other move =>
    simp only [step] at stepped
    split at stepped
    · next allowed =>
      obtain ⟨queue,took,same⟩ := Option.map_eq_some_iff.mp stepped
      cases same
      exact .queued move queue (by rintro rfl; cases allowed) took
    · contradiction
  | loop move =>
    simp only [step] at stepped
    split at stepped
    · next allowed =>
      obtain ⟨queue,took,same⟩ := Option.map_eq_some_iff.mp stepped
      cases same
      exact .queued move queue (by rintro rfl; cases allowed.1) took
    · contradiction
  | front =>
    simp only [step] at stepped
    split at stepped
    · contradiction
    · next f rest waiting =>
      split at stepped
      · next idle =>
        obtain ⟨queue,took,more⟩ := Option.bind_eq_some_iff.mp stepped
        obtain ⟨object,entered,same⟩ := Option.bind_eq_some_iff.mp more
        cases same
        exact .front f rest queue object waiting (List.isEmpty_iff.mp idle) took entered
      · contradiction
  | object move =>
    simp only [step] at stepped
    split at stepped
    · contradiction
    · next apart =>
      obtain ⟨object,took,same⟩ := Option.map_eq_some_iff.mp stepped
      cases same
      refine .object move object (fun idle => ?_) took
      rw [idle] at apart
      simpa using apart

def postedOf (taken : List (Origin × M)) : List M :=
  taken.filterMap fun call => if call.1 = .posted then some call.2 else none

@[simp] theorem postedOf_append (first second : List (Origin × M)) :
    postedOf (first ++ second) = postedOf first ++ postedOf second := List.filterMap_append

@[simp] theorem postedOf_posted (m : M) : postedOf [(.posted,m)] = [m] := rfl

@[simp] theorem postedOf_direct (m : M) : postedOf [(.direct,m)] = [] := rfl

theorem postedOf_record_direct (m : Option M) : postedOf (s.record takes .direct m) = postedOf s.taken := by
  rw [State.record]
  split
  · cases m with
    | none => simp
    | some m => simp
  · rfl

/-- The methods begun out of the queue are the functors begun, as long as the object takes calls. -/
structure InOrder (method : FunctorQueue.Func → M) (takes : σ → Bool) (s : State σ Q A C M) : Prop where
  coherent : FunctorQueue.Coherent s.queue
  taking : takes s.object.state = true → postedOf s.taken = (FunctorQueue.queued s.queue.runs).map method
  taken : postedOf s.taken <+: (FunctorQueue.queued s.queue.runs).map method

theorem queued_same {queue next : FunctorQueue.State} {move : FunctorQueue.Move} (coherent : FunctorQueue.Coherent queue)
    (other : move ≠ .front) (took : FunctorQueue.step queue move = some next) :
    FunctorQueue.queued next.runs = FunctorQueue.queued queue.runs := by
  by_contra begins
  exact other (FunctorQueue.step_queued queue next move coherent took begins).1

theorem queued_front {queue next : FunctorQueue.State} {f : FunctorQueue.Func} {rest : List FunctorQueue.Func}
    (waiting : queue.functions_ = f :: rest) (took : FunctorQueue.step queue .front = some next) :
    FunctorQueue.queued next.runs = FunctorQueue.queued queue.runs ++ [f] := by
  cases FunctorQueue.step_cases took with
  | begun g more draining front =>
    rw [waiting] at front
    cases front
    rw [FunctorQueue.queued_append,FunctorQueue.queued_queued]

theorem inOrder_step (inOrder : InOrder method takes s)
    (closes : ∀ move object, T.step E s.object move = some object → takes object.state = true →
      takes s.object.state = true)
    (stepped : Stepped T E method takes s next) : InOrder method takes next := by
  cases stepped with
  | queued move queue other took =>
    have same := queued_same inOrder.coherent other took
    refine ⟨FunctorQueue.step_coherent _ _ move inOrder.coherent took,?_,?_⟩
    · rw [same]
      exact inOrder.taking
    · rw [same]
      exact inOrder.taken
  | front f rest queue object waiting idle took entered =>
    have runs := queued_front waiting took
    refine ⟨FunctorQueue.step_coherent _ _ _ inOrder.coherent took,fun open_ => ?_,?_⟩
    · have before := closes _ object entered open_
      rw [State.record,if_pos before,runs,List.map_append,← inOrder.taking before]
      exact postedOf_append _ _
    · rw [runs,List.map_append,State.record]
      split
      · next before =>
        rw [← inOrder.taking before]
        simp
      · exact inOrder.taken.trans (List.prefix_append _ _)
  | object move object apart took =>
    refine ⟨inOrder.coherent,fun open_ => ?_,?_⟩
    · rw [postedOf_record_direct]
      exact inOrder.taking (closes move object took open_)
    · rw [postedOf_record_direct]
      exact inOrder.taken

end Step

def start (s : σ) : State σ Q A C M := ⟨FunctorQueue.initial,⟨s,[]⟩,[]⟩

section Run
variable {T : System σ Q A C M} {E : Environment σ Q A C M} {method : FunctorQueue.Func → M} {takes : σ → Bool}
  {s : State σ Q A C M} {moves : List (Move σ Q A C M)} {initial : σ}

/-- What the object's steps keep, whoever calls it, is kept. -/
theorem object_invariant (property : Config σ Q A C M → Prop)
    (preserved : ∀ c move next, property c → T.step E c move = some next → property next)
    (first : property ⟨initial,[]⟩)
    (run : Transition.exec (step T E method takes) moves (start initial) = some s) : property s.object := by
  have reached : Transition.Reachable (step T E method takes) (fun _ => True) (start initial) s :=
    ⟨moves,fun _ _ => trivial,run⟩
  refine reached.invariant (fun s => property s.object) ?_ first
  intro s move next _ holds stepped
  cases step_cases stepped with
  | queued => exact holds
  | front f rest queue object _ _ _ entered => exact preserved _ _ _ holds entered
  | object move object _ took => exact preserved _ _ _ holds took

theorem object_reachable (run : Transition.exec (step T E method takes) moves (start initial) = some s) :
    T.Reachable E initial s.object := by
  refine object_invariant (fun c => T.Reachable E initial c) ?_ ⟨[],rfl⟩ run
  intro c move next reached took
  have run : T.exec E [move] c = some next := by
    rw [System.exec,took]
    rfl
  exact reached.exec run

theorem run_inOrder (property : Config σ Q A C M → Prop)
    (preserved : ∀ c move next, property c → T.step E c move = some next →
      property next ∧ (takes next.state = true → takes c.state = true))
    (first : property ⟨initial,[]⟩)
    (run : Transition.exec (step T E method takes) moves (start initial) = some s) : InOrder method takes s := by
  have reached : Transition.Reachable (step T E method takes) (fun _ => True) (start initial) s :=
    ⟨moves,fun _ _ => trivial,run⟩
  refine (reached.invariant (fun s => property s.object ∧ InOrder method takes s) ?_ ⟨first,?_⟩).2
  · rintro s move next _ ⟨holds,inOrder⟩ stepped
    have cases_ := step_cases stepped
    refine ⟨?_,inOrder_step inOrder (fun move object took => (preserved _ move object holds took).2) cases_⟩
    cases cases_ with
    | queued => exact holds
    | front f rest queue object _ _ _ entered => exact (preserved _ _ _ holds entered).1
    | object move object _ took => exact (preserved _ _ _ holds took).1
  · exact ⟨FunctorQueue.initial_coherent,fun _ => rfl,List.prefix_rfl⟩

theorem InOrder.first (inOrder : InOrder method takes s) : postedOf s.taken <+: s.queue.pushed.map method := by
  refine inOrder.taken.trans ?_
  rw [inOrder.coherent.order,List.map_append]
  exact List.prefix_append _ _

/-- An object that stops taking calls for good: the methods that other threads have posted and it
has taken are those pushed first, in the order of the pushes and each once. -/
theorem posted_first (property : Config σ Q A C M → Prop)
    (preserved : ∀ c move next, property c → T.step E c move = some next →
      property next ∧ (takes next.state = true → takes c.state = true))
    (first : property ⟨initial,[]⟩)
    (run : Transition.exec (step T E method takes) moves (start initial) = some s) :
    postedOf s.taken <+: s.queue.pushed.map method :=
  (run_inOrder property preserved first run).first

/-- An object that always takes calls has taken all of them when the queue is empty. -/
theorem posted_all (run : Transition.exec (step T E method fun _ => true) moves (start initial) = some s) :
    postedOf s.taken <+: s.queue.pushed.map method ∧
      (s.queue.functions_ = [] → postedOf s.taken = s.queue.pushed.map method) := by
  have inOrder : InOrder method (fun _ => true) s :=
    run_inOrder (fun _ => True) (fun _ _ _ _ _ => ⟨trivial,id⟩) trivial run
  refine ⟨inOrder.first,fun empty => ?_⟩
  have none : FunctorQueue.waiting s.queue.phase s.queue.functions_ = [] := by
    rw [empty]
    cases s.queue.phase <;> rfl
  rw [inOrder.taking rfl,inOrder.coherent.order,none,List.append_nil]

end Run
section AtRest
variable {T : System σ Q A C M} {E : Environment σ Q A C M} {K : Contract σ Q C M} {ctx : List C}

/-- The contract, with something more that holds whenever the object is at rest. -/
def Contract.atRest (K : Contract σ Q C M) (ledger : σ → Prop) : Contract σ Q C M :=
  { K with inv := fun ctx s => K.inv ctx s ∧ (ctx = [] → ledger s) }

theorem wp_atRest {ledger : σ → Prop} {p : Prog σ Q A C M α} {goal : α → σ → Prop} {s : σ}
    (holds : wp T E K ctx p goal s) : wp T E (Contract.atRest K ledger) ctx p goal s := by
  induction p generalizing s with
  | done value => exact holds
  | get next ih => exact ih s holds
  | set state next ih => exact ih holds
  | ask q next ih => exact ⟨holds.1,fun a admitted => ih a (holds.2 a admitted)⟩
  | callback c next ih =>
    exact ⟨⟨holds.1,fun none => nomatch none⟩,fun after kept inv => ih (holds.2 after kept inv.1)⟩
  | call m next ih => exact ⟨holds.1,fun after done => ih (holds.2 after done)⟩
  | fault => exact holds

theorem atRest_sound {ledger : σ → Prop} (sound : K.Sound T E)
    (kept : ∀ m s after, K.inv [] s → E.enters [] s m = true → K.post [] m s after → ledger s → ledger after) :
    (Contract.atRest K ledger).Sound T E where
  rely_refl := sound.rely_refl
  rely_trans := sound.rely_trans
  body := fun ctx m s pre => wp_atRest (sound.body ctx m s pre)
  enter := fun ctx m s inv allowed => sound.enter ctx m s inv.1 allowed
  leave := by
    intro ctx m s after inv allowed done
    obtain ⟨again,steady⟩ := sound.leave ctx m s after inv.1 allowed done
    refine ⟨⟨again,?_⟩,steady⟩
    rintro rfl
    exact kept m s after inv.1 allowed done (inv.2 rfl)

end AtRest

section Ledger
variable {T : System σ Q A C M} {E : Environment σ Q A C M} {K : Contract σ Q C M} {method : FunctorQueue.Func → M}
  {initial : σ} {ledger : List M → σ → Prop} {s : State σ Q A C M} {moves : List (Move σ Q A C M)}

/-- What the methods that other threads have posted leave behind, once they have come back. -/
theorem posted_ledger (sound : K.Sound T E)
    (kept : ∀ ms m s after, K.inv [] s → E.enters [] s m = true → K.post [] m s after → ledger ms s → ledger ms after)
    (posted : ∀ ms f s after, K.inv [] s → E.enters [] s (method f) = true → K.post [] (method f) s after →
      ledger ms s → ledger (ms ++ [method f]) after)
    (inv : K.inv [] initial) (none : ledger [] initial)
    (run : Transition.exec (step T E method fun _ => true) moves (start initial) = some s)
    (rest : s.object.stack = []) : ledger (postedOf s.taken) s.object.state := by
  have reached : Transition.Reachable (step T E method fun _ => true) (fun _ => True) (start initial) s :=
    ⟨moves,fun _ _ => trivial,run⟩
  have all := reached.invariant
    (fun s => Holds T E (Contract.atRest K (ledger (postedOf s.taken))) s.object.stack s.object.state) ?_ ⟨inv,fun _ => none⟩
  · rw [rest] at all
    exact all.2 rfl
  intro s move next _ holds stepped
  cases step_cases stepped with
  | queued => exact holds
  | front f rest queue object _ idle _ entered =>
    obtain ⟨inv,entries⟩ : (Contract.atRest K (ledger (postedOf s.taken))).inv [] s.object.state := by
      rw [idle] at holds
      exact holds
    simp only [System.step,idle,System.enter] at entered
    split at entered
    · next allowed =>
      cases entered
      simp only [State.record,if_true,postedOf_append,Option.map_some,Option.toList_some,postedOf_posted]
      apply wp_mono (wp_atRest (sound.body [] _ _ (sound.enter [] _ _ inv allowed)))
      intro _ after done
      exact ⟨(sound.leave [] _ _ after inv allowed done).1,fun _ => posted _ _ _ after inv allowed done (entries rfl)⟩
    · contradiction
  | object move object _ took =>
    rw [postedOf_record_direct]
    exact holds_step (atRest_sound sound (kept _)) _ object move holds took

end Ledger
end Tmms.Network.LoopObject
