import Mathlib.Data.List.Forall2
import Tmms.LoopObject
import Tmms.TimerFiring

/-! Timers that other threads ask for. `EventLoop::RunAfter` posts a functor that calls the wheel's
`RunAfter` on the loop's thread; the entry it makes is inserted once, and the number it is made with is
the one before its insertion's. -/
namespace Tmms.Network.Timers

open Reentrant TcpConnection TimingWheel LoopObject

/-- Each entry of `RunAfter` was inserted right after it was made. -/
def Numbered (s : World) : Prop := ∀ i ∈ s.insertions, ∀ n cb, i.entry = .after n cb → i.id = n + 1

def Asked (d cb : Nat) (i : Insertion) : Prop := (∃ n, i.entry = .after n cb) ∧ i.delay = d

/-- The log only grows, and by an insertion for each `RunAfter`. -/
def logContract : Contract World Query Callback Method where
  inv := fun _ s => Numbered s
  rely := fun _ s after => s.insertions <:+ after.insertions
  pre := fun _ m s => Numbered (began m s)
  post := fun _ m s after => Numbered after ∧ (began m s).insertions <:+ after.insertions ∧
    match m with
    | .runAfter d cb => ∃ i, Asked d cb i ∧ i :: s.insertions <:+ after.insertions
    | _ => True
  asks := fun _ _ _ => True
  mayFault := True

section Bodies
variable {delays : Nat → Bool} {s first : World} (ctx : List Callback)

def Grows (first after : World) : Prop := Numbered after ∧ first.insertions <:+ after.insertions

theorem Grows.same {a b : World} (grows : Grows first a) (same : b.insertions = a.insertions) : Grows first b := by
  obtain ⟨numbered,longer⟩ := grows
  constructor
  · rw [Numbered,same]
    exact numbered
  · rwa [same]

theorem Numbered.began (numbered : Numbered s) (m : Method) (other : ∀ d e, m ≠ .insertEntry d e) :
    Numbered (began m s) := by
  rw [Numbered,began_insertions m s other]
  exact numbered

theorem Numbered.insert {d : Nat} {e : EntryPtr} (numbered : Numbered s)
    (fresh : ∀ n cb, e = .after n cb → s.made = n + 1) : Numbered (Timers.began (.insertEntry d e) s) := by
  intro i among n cb same
  rcases List.mem_cons.mp among with rfl | old
  · exact fresh n cb same
  · exact numbered i old n cb same

theorem modify_grows (f : World → World) (same : ∀ s, (f s).insertions = s.insertions) :
    Kept system (environment delays) logContract ctx (Grows first) (Prog.modify f) fun _ => True :=
  fun s holds => ⟨trivial,holds.same (same s)⟩

theorem run_grows (m : Method) (other : ∀ d e, m ≠ .insertEntry d e) :
    Kept system (environment delays) logContract ctx (Grows first) (Prog.run m) fun _ => True := by
  intro s holds
  refine ⟨holds.1.began m other,fun after done => ⟨trivial,done.1,holds.2.trans ?_⟩⟩
  rw [← began_insertions m s other]
  exact done.2.1

theorem insert_grows (d : Nat) (e : EntryPtr) (other : ∀ n cb, e ≠ .after n cb) :
    Kept system (environment delays) logContract ctx (Grows first) (Prog.run (.insertEntry d e)) fun _ => True := by
  intro s holds
  refine ⟨holds.1.insert fun n cb same => absurd same (other n cb),fun after done => ⟨trivial,done.1,?_⟩⟩
  exact holds.2.trans ((List.suffix_cons _ _).trans done.2.1)

theorem invoke_grows (c : Callback) :
    Kept system (environment delays) logContract ctx (Grows first) (Prog.invoke c) fun _ => True := by
  intro s holds
  have noted := holds.same (invoked_insertions c s)
  exact ⟨noted.1,fun _ kept inv => ⟨trivial,inv,noted.2.trans kept⟩⟩

theorem io_grows (conn : Nat) (q : TcpConnection.Query) (values : Result → Prop)
    (among : ∀ s a, (environment delays).admits ctx s (.io conn q) a = true → values a.toResult) :
    Kept system (environment delays) logContract ctx (Grows first) (io conn q) values := by
  intro s holds
  refine ⟨trivial,fun a admitted => ⟨among s a admitted,holds.same (answered_insertions (.io conn q) a s)⟩⟩

theorem client_grows (conn : Nat) (f : Client → Client) :
    Kept system (environment delays) logContract ctx (Grows first) (Prog.modify (·.updateClient conn f)) fun _ => True :=
  modify_grows ctx _ fun _ => rfl

theorem host_grows (conn : Nat) :
    (host conn).Keeps system (environment delays) logContract ctx (Grows first) fun _ => True where
  self := fun _ holds => ⟨trivial,holds⟩
  update := fun f _ => client_grows ctx conn fun c => { c with connection := f c.connection }
  messageCallback := invoke_grows ctx _
  writeCompleteCallback := invoke_grows ctx _
  write := fun _ _ _ => io_grows ctx conn _ _ fun _ _ _ => trivial
  writev := fun _ vec => io_grows ctx conn _ _ fun _ a admitted => by
    cases a with
    | result r => exact ⟨of_decide_eq_true admitted,fun _ => trivial⟩
    | entry e => cases admitted
  readFd := fun _ => io_grows ctx conn _ _ fun _ _ _ _ => trivial
  enableWriting := fun _ => client_grows ctx conn _
  onClose := fun s holds => run_grows ctx _ (fun _ _ same => by cases same) s holds.2
  readLoop := run_grows ctx _ fun _ _ same => by cases same
  writeLoop := run_grows ctx _ fun _ _ same => by cases same

theorem onClose_grows (conn : Nat) :
    Kept system (environment delays) logContract ctx (Grows first) (TcpConnection.onClose (host conn)) fun _ => True := by
  have keeps : (host conn).Keeps system (environment delays) logContract ctx (Grows first) fun _ => True :=
    host_grows ctx conn
  apply TcpConnection.onClose_kept keeps.self (invoke_grows ctx _) (client_grows ctx conn _)
  apply TcpConnection.close_kept keeps.self _ (client_grows ctx conn _)
  intro fd
  apply Kept.bind (io_grows ctx conn _ (fun _ => True) fun _ _ _ => trivial)
  exact fun _ _ => Kept.pure trivial

theorem insertEntry_log (d : Nat) (e : EntryPtr) (numbered : Numbered (began (.insertEntry d e) s)) :
    wp system (environment delays) logContract ctx (insertEntry d e)
      (fun _ after => logContract.post ctx (.insertEntry d e) s after) (began (.insertEntry d e) s) := by
  simp only [insertEntry,wp_bind,wp_read]
  split
  · exact trivial
  · exact ⟨numbered,fun after done => ⟨done.1,done.2.1,trivial⟩⟩

/-- The entry takes its number, and its insertion the next one. -/
theorem runAfter_log (d cb : Nat) (numbered : Numbered s) :
    wp system (environment delays) logContract ctx (runAfter d cb)
      (fun _ after => logContract.post ctx (.runAfter d cb) s after) s := by
  simp only [runAfter,wp_bind,wp_read,wp_modify,wp_run]
  have made : Numbered { s with made := s.made + 1 } := numbered
  refine ⟨made.insert fun n other same => ?_,fun after done => ?_⟩
  · cases same
    rfl
  · refine ⟨done.1,(List.suffix_cons _ _).trans done.2.1,_,⟨⟨s.made,rfl⟩,rfl⟩,done.2.1⟩

theorem fresh_log (d : Nat) (e : EntryPtr) (other : ∀ n cb, e ≠ .after n cb) (f : World → World)
    (same : ∀ s, (f s).insertions = s.insertions) :
    Kept system (environment delays) logContract ctx (Grows first)
      (do Prog.modify f; Prog.run (.insertEntry d e)) fun _ => True :=
  Kept.bind (modify_grows ctx f same) fun _ _ => insert_grows ctx d e other

theorem clear_grows :
    Kept system (environment delays) logContract ctx (Grows first) clear fun _ => True := by
  apply Kept.bind Kept.read
  intro s _
  apply Kept.ite
  · exact fun _ => Kept.pure trivial
  intro _
  have picks : Kept system (environment delays) logContract ctx (Grows first) (Prog.query .pick) fun _ => True :=
    fun s holds => ⟨trivial,fun a _ => ⟨trivial,holds.same (by cases a <;> rfl)⟩⟩
  apply Kept.bind picks
  intro a _
  cases a with
  | result r => exact fun _ _ => trivial
  | entry e =>
    refine Kept.bind (modify_grows ctx (fun s => { s with tmp := s.tmp.filter (· ≠ e) }) fun _ => rfl) fun _ _ => ?_
    apply Kept.bind (run_grows ctx _ fun _ _ same => by cases same)
    exact fun _ _ => run_grows ctx _ fun _ _ same => by cases same

theorem onTimer_grows (now : Int) :
    Kept system (environment delays) logContract ctx (Grows first) (onTimer now) fun _ => True := by
  have popUp : ∀ type, Kept system (environment delays) logContract ctx (Grows first) (Prog.run (.popUp type))
      fun _ => True := fun type => run_grows ctx _ fun _ _ same => by cases same
  refine Kept.bind (modify_grows ctx _ fun s => by split <;> rfl) fun _ _ => Kept.bind Kept.read fun s _ => ?_
  apply Kept.ite
  · exact fun _ => Kept.pure trivial
  intro _
  refine Kept.bind (modify_grows ctx _ fun _ => rfl) fun _ _ => Kept.bind (popUp _) fun _ _ => ?_
  refine Kept.bind Kept.read fun s _ => Kept.ite (fun _ => popUp _) fun _ => ?_
  exact Kept.ite (fun _ => popUp _) fun _ => Kept.ite (fun _ => popUp _) fun _ => Kept.pure trivial

/-- Timers of less than a minute are not handed from ring to ring. -/
theorem destroy_grows (brief : ∀ d, delays d = true → d < 60) (e : EntryPtr)
    (before : (contract delays).pre ctx (.destroy e) s) :
    Kept system (environment delays) logContract ctx (Grows first) (destroy e) fun _ => True := by
  cases e with
  | object id => exact invoke_grows ctx _
  | after id cb => exact invoke_grows ctx _
  | every id interval cb =>
    exact Kept.bind (invoke_grows ctx _) fun _ _ => run_grows ctx _ fun _ _ same => by cases same
  | timeout id conn =>
    refine Kept.bind Kept.read fun world _ => ?_
    exact Kept.ite (fun _ => run_grows ctx _ fun _ _ same => by cases same) fun _ => Kept.pure trivial
  | cascade id second entry =>
    obtain ⟨i,among,_,_,long,_⟩ := cascade_origin before.1
    exact absurd (brief _ (before.1.made.allowed i among (by omega))) (by omega)

/-- What a body keeps is what its contract asks for. -/
theorem log_of_grows (m : Method) (plain : ∀ d cb, m ≠ .runAfter d cb) (numbered : Numbered (began m s))
    (kept : Kept system (environment delays) logContract ctx (Grows (began m s)) (body m) fun _ => True) :
    wp system (environment delays) logContract ctx (body m) (fun _ after => logContract.post ctx m s after)
      (began m s) := by
  apply wp_mono (kept.wp _ ⟨numbered,List.suffix_refl _⟩)
  intro _ after done
  refine ⟨done.1,done.2,?_⟩
  cases m with
  | runAfter d cb => exact absurd rfl (plain d cb)
  | _ => trivial

theorem body_log (brief : ∀ d, delays d = true → d < 60) (m : Method) (before : (contract delays).pre ctx m s)
    (numbered : Numbered (began m s)) :
    wp system (environment delays) logContract ctx (body m) (fun _ after => logContract.post ctx m s after)
      (began m s) := by
  cases m with
  | insertEntry d e => exact insertEntry_log ctx d e numbered
  | runAfter d cb => exact runAfter_log ctx d cb numbered
  | runEvery d cb =>
    refine log_of_grows ctx _ (fun _ _ same => by cases same) numbered (Kept.bind Kept.read fun s _ => ?_)
    exact fresh_log ctx d _ (fun _ _ same => by cases same) _ fun _ => rfl
  | onTimer now => exact log_of_grows ctx _ (fun _ _ same => by cases same) numbered (onTimer_grows ctx now)
  | popUp type =>
    refine log_of_grows ctx _ (fun _ _ same => by cases same) numbered ?_
    exact Kept.bind (modify_grows ctx _ fun _ => rfl) fun _ _ => run_grows ctx _ fun _ _ same => by cases same
  | clear => exact log_of_grows ctx _ (fun _ _ same => by cases same) numbered (clear_grows ctx)
  | drop e =>
    refine log_of_grows ctx _ (fun _ _ same => by cases same) numbered (Kept.bind Kept.read fun s _ => ?_)
    exact Kept.ite (fun _ => Kept.pure trivial) fun _ => run_grows ctx _ fun _ _ same => by cases same
  | destroy e => exact log_of_grows ctx _ (fun _ _ same => by cases same) numbered (destroy_grows ctx brief e before)
  | enableCheckIdleTimeout conn d =>
    refine log_of_grows ctx _ (fun _ _ same => by cases same) numbered (Kept.bind Kept.read fun s _ => ?_)
    refine Kept.bind (modify_grows ctx _ fun _ => rfl) fun _ _ => Kept.bind (client_grows ctx conn _) fun _ _ => ?_
    exact insert_grows ctx d _ fun _ _ same => by cases same
  | extendLife conn => exact before.elim
  | handler conn m =>
    refine log_of_grows ctx _ (fun _ _ same => by cases same) numbered ?_
    by_cases itself : m = .onClose
    · subst itself
      exact onClose_grows ctx conn
    · intro w holds
      have keeps : (host conn).Keeps system (environment delays) logContract ctx (Grows (began (.handler conn m) s))
          fun _ => True := host_grows ctx conn
      exact wp_mono (body_kept keeps m itself w holds fun _ => trivial) fun _ _ done => ⟨trivial,done⟩
  | expire conn =>
    refine log_of_grows ctx _ (fun _ _ same => by cases same) numbered ?_
    exact Kept.bind (client_grows ctx conn _) fun _ _ => run_grows ctx _ fun _ _ same => by cases same

theorem log_refines (brief : ∀ d, delays d = true → d < 60) :
    logContract.Refines (contract delays) system (environment delays) where
  rely_refl := fun _ s => List.suffix_refl _
  rely_trans := fun _ _ _ _ first second => first.trans second
  body := fun ctx m _ before pre => body_log ctx brief m before pre
  enter := by
    intro ctx m s _ inv allowed
    by_cases insert : ∃ d e, m = .insertEntry d e
    · obtain ⟨d,e,rfl⟩ := insert
      refine inv.insert fun n cb same => ?_
      rw [same] at allowed
      cases allowed
    · exact inv.began m fun d e same => insert ⟨d,e,same⟩
  leave := by
    intro ctx m s after _ _ done
    refine ⟨done.1,List.IsSuffix.trans ?_ done.2.1⟩
    by_cases insert : ∃ d e, m = .insertEntry d e
    · obtain ⟨d,e,rfl⟩ := insert
      exact List.suffix_cons _ _
    · rw [began_insertions m s fun d e same => insert ⟨d,e,same⟩]

end Bodies

theorem after_once {s : World} (valid : Valid delays [] s) (numbered : Numbered s) (i j : Insertion)
    (among : i ∈ s.insertions) (other : j ∈ s.insertions) {n cb : Nat} (entry : i.entry = .after n cb)
    (same : j.entry = i.entry) : j = i := by
  refine valid.logged.distinct j other i among ?_
  rw [numbered i among n cb entry,numbered j other n cb (same.trans entry)]

abbrev Loop := LoopObject.State World Query Answer Callback Method
abbrev Step := LoopObject.Move World Query Answer Callback Method

/-- A call of `RunAfter` for less than a minute. -/
structure AfterCall where
  delay : Nat
  cb : Nat
  brief : 1 ≤ delay ∧ delay ≤ 59

def AfterCall.method (call : AfterCall) : Method := .runAfter call.delay call.cb

def postingStep (call : FunctorQueue.Func → AfterCall) : Loop → Step → Option Loop :=
  LoopObject.step system (environment short) (fun f => (call f).method) fun _ => true

theorem AfterCall.enters (call : AfterCall) (s : World) : (environment short).enters [] s call.method = true := by
  obtain ⟨delay,cb,least,most⟩ := call
  simp only [AfterCall.method,environment,short,least,most,and_self,decide_true,Bool.true_and,decide_eq_true_eq]
  omega

/-- The log holds an insertion for each of these calls, in their order. -/
def Ledger (calls : List Method) (s : World) : Prop :=
  ∃ made : List Insertion, made.Sublist s.insertions.reverse ∧
    List.Forall₂ (fun m i => ∃ d cb, m = .runAfter d cb ∧ Asked d cb i) calls made

theorem Ledger.longer {calls : List Method} {s after : World} (ledger : Ledger calls s)
    (grown : s.insertions <:+ after.insertions) : Ledger calls after := by
  obtain ⟨made,sub,fits⟩ := ledger
  exact ⟨made,sub.trans (List.reverse_prefix.mpr grown).sublist,fits⟩

theorem front_isSome (call : FunctorQueue.Func → AfterCall) {s : Loop} (rest : s.object.stack = [])
    (draining : s.queue.phase = .draining) (some : s.queue.functions_ ≠ []) : (postingStep call s .front).isSome := by
  obtain ⟨f,more,waiting⟩ := List.exists_cons_of_ne_nil some
  have entered := (call f).enters s.object.state
  simp [postingStep,LoopObject.step,waiting,rest,FunctorQueue.step,draining,System.step,System.enter,active,entered]

/-- For any number of threads that call `RunAfter` on one loop, beside whatever else uses its timers:
the calls that the loop has taken are the first ones pushed, in the order of the pushes, and all of
them once the queue is empty, and `RunFunctions` can always take the next; each taken has had an entry
inserted, in that order, and its callback is made exactly once, in the tick its delay after the
insertion. -/
theorem posted_timers (call : FunctorQueue.Func → AfterCall) (initial : World) (fresh : Fresh initial)
    (moves : List Step) (s : Loop)
    (run : Transition.exec (postingStep call) moves (LoopObject.start initial) = some s)
    (rest : s.object.stack = []) :
    postedOf s.taken <+: s.queue.pushed.map (fun f => (call f).method) ∧
    (s.queue.functions_ = [] → postedOf s.taken = s.queue.pushed.map fun f => (call f).method) ∧
    (s.queue.phase = .draining → s.queue.functions_ ≠ [] → (postingStep call s .front).isSome) ∧
    ∃ made : List Insertion, made.Sublist s.object.state.insertions.reverse ∧
      List.Forall₂ (fun m i => ∃ d cb, m = .runAfter d cb ∧ Asked d cb i) (postedOf s.taken) made ∧
      ∀ i ∈ made,
        (calls i.entry s.object.state = [] ∧ s.object.state.wheel.tick_ < i.at_ + i.delay) ∨
          (calls i.entry s.object.state = [i.at_ + i.delay] ∧ i.at_ + i.delay ≤ s.object.state.wheel.tick_) := by
  have few : ∀ d, short d = true → d < 60 := fun d given => by
    have range := of_decide_eq_true given
    omega
  have sound : ((contract short).both logContract).Sound system (environment short) :=
    (timers_sound short).both (log_refines few)
  have none : Numbered initial := by
    rw [Numbered,fresh.insertions]
    exact fun _ among => nomatch among
  have inv : ((contract short).both logContract).inv [] initial := ⟨fresh_valid short initial fresh,none⟩
  obtain ⟨first,all⟩ := posted_all run
  refine ⟨first,all,front_isSome call rest,?_⟩
  have ledger : Ledger (postedOf s.taken) s.object.state := by
    refine posted_ledger sound ?_ ?_ inv ⟨[],List.nil_sublist _,.nil⟩ run rest
    · intro calls m w after inv allowed done ledger
      exact ledger.longer (sound.leave [] m w after inv allowed done).2.2
    · rintro calls f w after inv allowed ⟨_,_,_,i,asked,grown⟩ ⟨made,sub,fits⟩
      refine ⟨made ++ [i],?_,List.rel_append fits (.cons ⟨_,_,rfl,asked⟩ .nil)⟩
      have longer := (List.reverse_prefix.mpr grown).sublist
      rw [List.reverse_cons] at longer
      exact (sub.append (List.Sublist.refl [i])).trans longer
  obtain ⟨made,sub,fits⟩ := ledger
  refine ⟨made,sub,fits,fun i among => ?_⟩
  have reached : system.Reachable (environment short) initial s.object := object_reachable run
  obtain ⟨⟨valid,settled⟩,numbered⟩ := reachable_invariant sound initial s.object inv reached
    (Config.controlled_of_nil rest)
  have settled := settled (by rw [rest]; rfl)
  have inserted : i ∈ s.object.state.insertions := List.mem_reverse.mp (sub.subset among)
  obtain ⟨same,each⟩ := List.forall₂_iff_get.mp fits
  obtain ⟨k,inside,at_⟩ := List.mem_iff_getElem.mp among
  obtain ⟨_,_,_,⟨n,entry⟩,_⟩ := each k (same ▸ inside) inside
  rw [List.get_eq_getElem,at_] at entry
  have due : latest i.entry s.object.state = i.at_ + i.delay := by
    apply Nat.le_antisymm
    · apply latest_le
      intro j other also
      exact Nat.le_of_eq (congrArg (fun j => j.at_ + j.delay) (after_once valid numbered i j inserted other entry also))
    · exact le_latest i inserted rfl
  have seconds : ∀ j ∈ s.object.state.insertions, j.entry = i.entry → j.delay < 60 := by
    intro j other _
    by_contra long
    exact long (few _ (valid.made.allowed j other (by omega)))
  have fires := fires_exactly valid i inserted rfl seconds
  have made : calls i.entry s.object.state = releases i.entry s.object.state :=
    calls_eq valid fun id conn same => by rw [entry] at same; cases same
  rw [due,← made] at fires
  rcases fires with ⟨none,_,strictly⟩ | done
  · exact Or.inl ⟨none,strictly settled.tmp⟩
  · exact Or.inr done

theorem parity_brief (id : Nat) : 1 ≤ id % 2 + 1 ∧ id % 2 + 1 ≤ 59 := by omega

def askedFor : FunctorQueue.Func → AfterCall
  | .mk id _ => ⟨id % 2 + 1,id,parity_brief id⟩

def posting (n id : Nat) : List Step :=
  [.call (.other n) (.mk id []),.lock n,.push n,.wakeUp n,.unlock n].map .other

def advances (count : Nat) : List Step := List.replicate count (.object .advance)

def runOne : List Step := [.front] ++ advances 12 ++ [.loop .finish,.loop .pop]

def twoTimers : List Step :=
  [.object (.enter (.onTimer 1000))] ++ advances 4 ++ posting 1 1 ++ posting 0 0 ++
  [.loop .runFunctions,.loop .lockLoop] ++ runOne ++ runOne ++ [.loop .unlockLoop] ++
  [.object (.enter (.onTimer 2000))] ++ advances 10 ++ [.object (.answer (.entry (.after 2 0)))] ++ advances 6 ++
  [.object .leave] ++ advances 9 ++
  [.object (.enter (.onTimer 3000))] ++ advances 10 ++ [.object (.answer (.entry (.after 0 1)))] ++ advances 6 ++
  [.object .leave] ++ advances 9

theorem twoTimers_runs : (Transition.exec (postingStep askedFor) twoTimers (LoopObject.start start)).map
    (fun s => (s.object.stack.length,s.object.state.acts)) =
    some (0,[(.callback (.after 0 1),2),(.callback (.after 2 0),1)]) := by
  decide +kernel

theorem posted_timers_two : ∃ s : Loop,
    s.object.state.acts = [(.callback (.after 0 1),2),(.callback (.after 2 0),1)] ∧
    postedOf s.taken <+: s.queue.pushed.map (fun f => (askedFor f).method) ∧
    (s.queue.functions_ = [] → postedOf s.taken = s.queue.pushed.map fun f => (askedFor f).method) ∧
    (s.queue.phase = .draining → s.queue.functions_ ≠ [] → (postingStep askedFor s .front).isSome) ∧
    ∃ made : List Insertion, made.Sublist s.object.state.insertions.reverse ∧
      List.Forall₂ (fun m i => ∃ d cb, m = .runAfter d cb ∧ Asked d cb i) (postedOf s.taken) made ∧
      ∀ i ∈ made,
        (calls i.entry s.object.state = [] ∧ s.object.state.wheel.tick_ < i.at_ + i.delay) ∨
          (calls i.entry s.object.state = [i.at_ + i.delay] ∧ i.at_ + i.delay ≤ s.object.state.wheel.tick_) := by
  obtain ⟨s,run,ended⟩ := Option.map_eq_some_iff.mp twoTimers_runs
  obtain ⟨rest,acts⟩ := Prod.mk.inj ended
  exact ⟨s,acts,posted_timers askedFor start start_fresh twoTimers s run (List.length_eq_zero_iff.mp rest)⟩

end Tmms.Network.Timers
