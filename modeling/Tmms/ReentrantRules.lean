import Tmms.Reentrant

/-! Pre- and postconditions for reentrant programs. A contract says what the user finds in
control and what user code leaves alone; `Sound` asks one condition of each method body,
and `reachable_invariant` turns these into a statement about every run, callbacks nested
to any depth included. -/
namespace Reentrant

variable {σ Q A C M α β : Type}

/-- All parts may depend on the callbacks in progress, innermost first. `inv` holds whenever the
user is in control, `asks` at a system call; `post` is about the state before a call and after it. -/
structure Contract (σ Q C M : Type) where
  inv : List C → σ → Prop
  -- what user code cannot change, however many methods it calls
  rely : List C → σ → σ → Prop
  pre : List C → M → σ → Prop
  post : List C → M → σ → σ → Prop
  asks : List C → Q → σ → Prop
  -- undefined behaviour is let pass (and ends the run) or ruled out
  mayFault : Prop

section WeakestPrecondition
variable (T : System σ Q A C M) (E : Environment σ Q A C M) (K : Contract σ Q C M) (ctx : List C)

def wp : Prog σ Q A C M α → (α → σ → Prop) → σ → Prop
  | .done value,goal,s => goal value s
  | .get next,goal,s => wp (next s) goal s
  | .set s next,goal,_ => wp next goal s
  | .ask q next,goal,s => K.asks ctx q s ∧
      ∀ a, E.admits ctx s q a = true → wp (next a) goal (T.answered q a s)
  | .callback c next,goal,s => K.inv (c :: ctx) (T.invoked c s) ∧
      ∀ after, K.rely (c :: ctx) (T.invoked c s) after → K.inv (c :: ctx) after → wp next goal after
  | .call m next,goal,s => K.pre ctx m s ∧ ∀ after, K.post ctx m s after → wp next goal after
  | .fault,_,_ => K.mayFault

@[simp] theorem wp_bind (p : Prog σ Q A C M α) (f : α → Prog σ Q A C M β)
    (goal : β → σ → Prop) (s : σ) :
    wp T E K ctx (p >>= f) goal s ↔ wp T E K ctx p (fun value => wp T E K ctx (f value) goal) s := by
  change wp T E K ctx (p.bind f) goal s ↔ _
  induction p generalizing s with
  | done value => rfl
  | get next ih => exact ih s s
  | set state next ih => exact ih state
  | ask q next ih => exact and_congr_right' (forall_congr' fun a => imp_congr_right fun _ => ih a _)
  | callback c next ih =>
    exact and_congr_right' (forall_congr' fun after =>
      imp_congr_right fun _ => imp_congr_right fun _ => ih after)
  | call m next ih =>
    exact and_congr_right' (forall_congr' fun after => imp_congr_right fun _ => ih after)
  | fault => rfl

variable (goal : α → σ → Prop) (final : Unit → σ → Prop) (s : σ)

@[simp] theorem wp_pure (value : α) :
    wp T E K ctx (pure value : Prog σ Q A C M α) goal s ↔ goal value s := Iff.rfl

@[simp] theorem wp_read (next : σ → σ → Prop) :
    wp T E K ctx (Prog.read : Prog σ Q A C M σ) next s ↔ next s s := Iff.rfl

@[simp] theorem wp_modify (f : σ → σ) :
    wp T E K ctx (Prog.modify f) final s ↔ final () (f s) := Iff.rfl

@[simp] theorem wp_query (q : Q) (next : A → σ → Prop) :
    wp T E K ctx (Prog.query q) next s ↔
      K.asks ctx q s ∧ ∀ a, E.admits ctx s q a = true → next a (T.answered q a s) := Iff.rfl

@[simp] theorem wp_invoke (c : C) :
    wp T E K ctx (Prog.invoke c) final s ↔ K.inv (c :: ctx) (T.invoked c s) ∧
      ∀ after, K.rely (c :: ctx) (T.invoked c s) after → K.inv (c :: ctx) after → final () after :=
  Iff.rfl

@[simp] theorem wp_run (m : M) :
    wp T E K ctx (Prog.run m) final s ↔
      K.pre ctx m s ∧ ∀ after, K.post ctx m s after → final () after := Iff.rfl

@[simp] theorem wp_fault :
    wp T E K ctx (Prog.fault : Prog σ Q A C M α) goal s ↔ K.mayFault := Iff.rfl

@[simp] theorem wp_ite (c : Prop) [Decidable c] (p q : Prog σ Q A C M α) :
    wp T E K ctx (if c then p else q) goal s ↔
      (c → wp T E K ctx p goal s) ∧ (¬c → wp T E K ctx q goal s) := by
  split <;> simp_all

end WeakestPrecondition

section Kept
variable {T : System σ Q A C M} {E : Environment σ Q A C M} {K : Contract σ Q C M} {ctx : List C}
  {I : σ → Prop}

theorem wp_mono {p : Prog σ Q A C M α} {s : σ} {goal weaker : α → σ → Prop}
    (holds : wp T E K ctx p goal s) (implies : ∀ value after, goal value after → weaker value after) :
    wp T E K ctx p weaker s := by
  induction p generalizing s with
  | done value => exact implies _ _ holds
  | get next ih => exact ih s holds
  | set state next ih => exact ih holds
  | ask q next ih => exact ⟨holds.1,fun a admitted => ih a (holds.2 a admitted)⟩
  | callback c next ih => exact ⟨holds.1,fun after kept inv => ih (holds.2 after kept inv)⟩
  | call m next ih => exact ⟨holds.1,fun after done => ih (holds.2 after done)⟩
  | fault => exact holds

/-- Where a contract asks for nothing, every program keeps it. -/
theorem wp_vacuous (asks : ∀ q s, K.asks ctx q s) (inv : ∀ c s, K.inv (c :: ctx) s)
    (pre : ∀ m s, K.pre ctx m s) (fault : K.mayFault) (p : Prog σ Q A C M α) (s : σ)
    {goal : α → σ → Prop} (ends : ∀ value after, goal value after) : wp T E K ctx p goal s := by
  induction p generalizing s with
  | done value => exact ends value s
  | get next ih => exact ih s s
  | set state next ih => exact ih state
  | ask q next ih => exact ⟨asks q s,fun a _ => ih a _⟩
  | callback c next ih => exact ⟨inv c _,fun after _ _ => ih after⟩
  | call m next ih => exact ⟨pre m s,fun after _ => ih after⟩
  | fault => exact fault

def Triple (T : System σ Q A C M) (E : Environment σ Q A C M) (K : Contract σ Q C M) (ctx : List C)
    (before : σ → Prop) (p : Prog σ Q A C M α) (goal : α → σ → Prop) : Prop :=
  ∀ s, before s → wp T E K ctx p goal s

variable {before stronger : σ → Prop}

theorem Triple.mono {p : Prog σ Q A C M α} {goal weaker : α → σ → Prop}
    (triple : Triple T E K ctx before p goal) (starts : ∀ s, stronger s → before s)
    (ends : ∀ value s, goal value s → weaker value s) : Triple T E K ctx stronger p weaker :=
  fun s holds => wp_mono (triple s (starts s holds)) ends

theorem Triple.bind {p : Prog σ Q A C M α} {f : α → Prog σ Q A C M β} {between : α → σ → Prop}
    {goal : β → σ → Prop} (first : Triple T E K ctx before p between)
    (second : ∀ value, Triple T E K ctx (between value) (f value) goal) :
    Triple T E K ctx before (p >>= f) goal := by
  intro s holds
  rw [wp_bind]
  exact wp_mono (first s holds) second

theorem Triple.ite {c : Prop} [Decidable c] {p q : Prog σ Q A C M α} {goal : α → σ → Prop}
    (left : c → Triple T E K ctx before p goal) (right : ¬c → Triple T E K ctx before q goal) :
    Triple T E K ctx before (if c then p else q) goal := by
  by_cases holds : c
  · rw [if_pos holds]; exact left holds
  · rw [if_neg holds]; exact right holds

def Kept (T : System σ Q A C M) (E : Environment σ Q A C M) (K : Contract σ Q C M) (ctx : List C)
    (I : σ → Prop) (p : Prog σ Q A C M α) (values : α → Prop) : Prop :=
  Triple T E K ctx I p fun value after => values value ∧ I after

theorem Kept.pure {values : α → Prop} {value : α} (among : values value) :
    Kept T E K ctx I (Pure.pure value) values :=
  fun _ holds => ⟨among,holds⟩

theorem Kept.read : Kept T E K ctx I (Prog.read : Prog σ Q A C M σ) fun _ => True :=
  fun _ holds => ⟨trivial,holds⟩

theorem Kept.bind {p : Prog σ Q A C M α} {f : α → Prog σ Q A C M β} {values : α → Prop}
    {results : β → Prop} (first : Kept T E K ctx I p values)
    (second : ∀ value, values value → Kept T E K ctx I (f value) results) :
    Kept T E K ctx I (p >>= f) results :=
  Triple.bind first fun value after kept => second value kept.1 after kept.2

theorem Kept.ite {c : Prop} [Decidable c] {p q : Prog σ Q A C M α} {values : α → Prop}
    (left : c → Kept T E K ctx I p values) (right : ¬c → Kept T E K ctx I q values) :
    Kept T E K ctx I (if c then p else q) values :=
  Triple.ite left right

theorem Kept.wp {p : Prog σ Q A C M α} {values : α → Prop} (kept : Kept T E K ctx I p values)
    (s : σ) (holds : I s) : wp T E K ctx p (fun _ after => I after) s :=
  wp_mono (kept s holds) fun _ _ kept => kept.2

end Kept

/-- What has to be checked of a contract: each body, and each way in and out for the user. -/
structure Contract.Sound (K : Contract σ Q C M) (T : System σ Q A C M) (E : Environment σ Q A C M) : Prop where
  rely_refl : ∀ ctx s, K.rely ctx s s
  rely_trans : ∀ ctx a b c, K.rely ctx a b → K.rely ctx b c → K.rely ctx a c
  body : ∀ ctx m s, K.pre ctx m s →
    wp T E K ctx (T.body m) (fun _ after => K.post ctx m s after) (T.began m s)
  enter : ∀ ctx m s, K.inv ctx s → E.enters ctx s m = true → K.pre ctx m s
  leave : ∀ ctx m s after, K.inv ctx s → E.enters ctx s m = true → K.post ctx m s after →
    K.inv ctx after ∧ K.rely ctx s after

section Adequacy
variable {K : Contract σ Q C M} {T : System σ Q A C M} {E : Environment σ Q A C M}

/-- What a stack promises of the state its top frame is in. -/
def Holds (T : System σ Q A C M) (E : Environment σ Q A C M) (K : Contract σ Q C M) : List (Frame σ Q A C M) → σ → Prop
  | [],s => K.inv [] s
  | .user c :: rest,s => K.inv (c :: active rest) s ∧ ∀ after, K.rely (c :: active rest) s after →
      K.inv (c :: active rest) after → Holds T E K rest after
  | .code p :: rest,s => wp T E K (active rest) p (fun _ => Holds T E K rest) s

theorem holds_controlled (stack : List (Frame σ Q A C M)) (s : σ)
    (controlled : (⟨s,stack⟩ : Config σ Q A C M).controlled) (holds : Holds T E K stack s) :
    K.inv (active stack) s := by
  match stack,controlled with
  | [],_ => exact holds
  | .user c :: rest,_ => exact holds.1

/-- What the frames above `rest` promise, and `goal` once they are gone. -/
def Above (T : System σ Q A C M) (E : Environment σ Q A C M) (K : Contract σ Q C M)
    (rest : List (Frame σ Q A C M)) (goal : σ → Prop) : List (Frame σ Q A C M) → σ → Prop
  | [],s => goal s
  | .user c :: more,s => K.inv (c :: active (more ++ rest)) s ∧
      ∀ after, K.rely (c :: active (more ++ rest)) s after → K.inv (c :: active (more ++ rest)) after →
        Above T E K rest goal more after
  | .code p :: more,s => wp T E K (active (more ++ rest)) p (fun _ => Above T E K rest goal more) s

theorem above_enter (sound : K.Sound T E) {rest more : List (Frame σ Q A C M)} {goal : σ → Prop}
    (s : σ) (c : C) (m : M) (holds : Above T E K rest goal (.user c :: more) s)
    (allowed : E.enters (c :: active (more ++ rest)) s m = true) :
    Above T E K rest goal (.code (T.body m) :: .user c :: more) (T.began m s) := by
  apply wp_mono (sound.body _ m s (sound.enter _ m s holds.1 allowed))
  intro _ after done
  obtain ⟨later,kept⟩ := sound.leave _ m s after holds.1 allowed done
  exact ⟨later,fun final further => holds.2 final (sound.rely_trans _ _ _ _ kept further)⟩

/-- Frames stay above `rest` until the last of them is gone. -/
theorem above_step (sound : K.Sound T E) {rest : List (Frame σ Q A C M)} {goal : σ → Prop}
    (frame : Frame σ Q A C M) (more : List (Frame σ Q A C M)) (s : σ) (next : Config σ Q A C M)
    (move : Move σ Q A C M) (holds : Above T E K rest goal (frame :: more) s)
    (stepped : T.step E ⟨s,frame :: more ++ rest⟩ move = some next) :
    ∃ frames, next.stack = frames ++ rest ∧ Above T E K rest goal frames next.state := by
  unfold System.step at stepped
  split at stepped
  case h_1 m stackEq => cases stackEq
  case h_2 t below m stackEq =>
    cases stackEq
    simp only [System.enter] at stepped
    split at stepped
    · next allowed => cases stepped; exact ⟨_,rfl,above_enter sound s t m holds allowed⟩
    · contradiction
  case h_3 t below stackEq =>
    cases stackEq; cases stepped
    exact ⟨more,rfl,holds.2 s (sound.rely_refl _ s) holds.1⟩
  case h_4 value below stackEq => cases stackEq; cases stepped; exact ⟨more,rfl,holds⟩
  case h_5 k below stackEq => cases stackEq; cases stepped; exact ⟨.code (k s) :: more,rfl,holds⟩
  case h_6 state k below stackEq => cases stackEq; cases stepped; exact ⟨.code k :: more,rfl,holds⟩
  case h_7 q k below a stackEq =>
    cases stackEq
    split at stepped
    · next admitted => cases stepped; exact ⟨.code (k a) :: more,rfl,holds.2 a admitted⟩
    · contradiction
  case h_8 t k below stackEq =>
    cases stackEq; cases stepped
    exact ⟨.user t :: .code k :: more,rfl,holds.1,holds.2⟩
  case h_9 m k below stackEq =>
    cases stackEq; cases stepped
    refine ⟨.code (T.body m) :: .code k :: more,rfl,?_⟩
    exact wp_mono (sound.body _ m s holds.1) fun _ after done => holds.2 after done
  case h_10 => contradiction

/-- A run that is back at `rest` was there for the first time with `goal`. -/
theorem above_exec (sound : K.Sound T E) {rest : List (Frame σ Q A C M)} {goal : σ → Prop}
    (moves : List (Move σ Q A C M)) (frames : List (Frame σ Q A C M)) (s after : σ)
    (holds : Above T E K rest goal frames s)
    (run : T.exec E moves ⟨s,frames ++ rest⟩ = some ⟨after,rest⟩) :
    ∃ first second mid, moves = first ++ second ∧
      T.exec E first ⟨s,frames ++ rest⟩ = some ⟨mid,rest⟩ ∧ goal mid := by
  induction moves generalizing frames s with
  | nil =>
    cases frames with
    | nil => exact ⟨[],[],s,rfl,rfl,holds⟩
    | cons frame more =>
      have back := congrArg (fun c => c.stack.length) (Option.some.inj run)
      simp only [List.length_append,List.length_cons] at back
      omega
  | cons move moves ih =>
    cases frames with
    | nil => exact ⟨[],move :: moves,s,rfl,rfl,holds⟩
    | cons frame more =>
      obtain ⟨⟨t,stack⟩,stepped,further⟩ := Option.bind_eq_some_iff.mp run
      obtain ⟨frames,same,holds⟩ := above_step sound frame more s ⟨t,stack⟩ move holds stepped
      subst same
      obtain ⟨first,second,mid,split,ran,reached⟩ := ih frames t holds further
      refine ⟨move :: first,second,mid,congrArg (List.cons move) split,?_,reached⟩
      rw [System.exec,stepped]
      exact ran

/-- Where nobody but the code on top can act, what it ends with holds when it is gone. -/
theorem exec_returned (sound : K.Sound T E) (alone : ∀ s m, E.enters [] s m = false) {p : Prog σ Q A C M Unit}
    {goal : σ → Prop} {moves : List (Move σ Q A C M)} {s after : σ} (holds : wp T E K [] p (fun _ => goal) s)
    (run : T.exec E moves ⟨s,[.code p]⟩ = some ⟨after,[]⟩) : goal after := by
  have above : Above T E K [] goal [.code p] s := holds
  obtain ⟨first,second,mid,split,ran,reached⟩ := above_exec sound moves [.code p] s after above run
  subst split
  change T.exec E first ⟨s,[.code p]⟩ = some ⟨mid,[]⟩ at ran
  rw [System.exec_append,ran,Option.bind_some] at run
  cases second with
  | nil => cases run; exact reached
  | cons move more =>
    -- Nothing is left to take a step.
    have stuck : T.step E ⟨mid,[]⟩ move = none := by
      cases move with
      | enter m => exact if_neg (by rw [show active [] = ([] : List C) from rfl,alone]; decide)
      | _ => rfl
    rw [System.exec,stuck] at run
    cases run

theorem holds_iff_above (stack : List (Frame σ Q A C M)) (s : σ) :
    Holds T E K stack s ↔ Above T E K [] (K.inv []) stack s := by
  induction stack generalizing s with
  | nil => rfl
  | cons frame rest ih =>
    have same : Holds T E K rest = Above T E K [] (K.inv []) rest := funext fun s => propext (ih s)
    cases frame <;> simp only [Holds,Above,List.append_nil,same]

theorem holds_step (sound : K.Sound T E) (c next : Config σ Q A C M) (move : Move σ Q A C M)
    (holds : Holds T E K c.stack c.state) (stepped : T.step E c move = some next) :
    Holds T E K next.stack next.state := by
  obtain ⟨s,stack⟩ := c
  cases stack with
  | nil =>
    cases move with
    | enter m =>
      simp only [System.step,System.enter] at stepped
      split at stepped
      · next allowed =>
        cases stepped
        apply wp_mono (sound.body _ m s (sound.enter _ m s holds allowed))
        exact fun _ after done => (sound.leave _ m s after holds allowed done).1
      · contradiction
    | _ => cases stepped
  | cons frame rest =>
    rw [holds_iff_above] at holds
    rw [← List.append_nil (frame :: rest)] at stepped
    obtain ⟨frames,same,above⟩ := above_step sound frame rest s next move holds stepped
    rw [same,List.append_nil,holds_iff_above]
    exact above

theorem exec_holds (sound : K.Sound T E) (s : σ) (c : Config σ Q A C M) (initial : K.inv [] s)
    (reached : T.Reachable E s c) : Holds T E K c.stack c.state := by
  obtain ⟨moves,run⟩ := reached
  exact T.exec_invariant E (fun c => Holds T E K c.stack c.state)
    (fun c move next => holds_step sound c next move) moves ⟨s,[]⟩ c initial run

/-- Whenever the user is in control, the invariant holds. -/
theorem reachable_invariant (sound : K.Sound T E) (s : σ) (c : Config σ Q A C M)
    (initial : K.inv [] s) (reached : T.Reachable E s c) (controlled : c.controlled) :
    K.inv (active c.stack) c.state :=
  holds_controlled _ _ controlled (exec_holds sound s c initial reached)

theorem reachable_asks (sound : K.Sound T E) (s : σ) (c : Config σ Q A C M)
    (initial : K.inv [] s) (reached : T.Reachable E s c)
    (top : c.stack = .code (.ask q next) :: rest) : K.asks (active rest) q c.state := by
  have holds := exec_holds sound s c initial reached
  rw [top] at holds
  exact holds.1

/-- Where code calls a method, the method's precondition holds. -/
theorem reachable_calls (sound : K.Sound T E) (s : σ) (c : Config σ Q A C M)
    (initial : K.inv [] s) (reached : T.Reachable E s c)
    (top : c.stack = .code (.call m next) :: rest) : K.pre (active rest) m c.state := by
  have holds := exec_holds sound s c initial reached
  rw [top] at holds
  exact holds.1

theorem reachable_returns (sound : K.Sound T E) (s : σ) (c : Config σ Q A C M) (initial : K.inv [] s)
    (reached : T.Reachable E s c) {m : M} {rest : List (Frame σ Q A C M)} (calls : System.Calls E c m rest)
    (moves : List (Move σ Q A C M)) (after : σ)
    (returned : T.exec E moves (T.started c m rest) = some ⟨after,rest⟩) :
    ∃ first second mid, moves = first ++ second ∧
      T.exec E first (T.started c m rest) = some ⟨mid,rest⟩ ∧ K.post (active rest) m c.state mid := by
  have pre : K.pre (active rest) m c.state := by
    rcases calls with ⟨controlled,enters,same⟩ | ⟨next,below,top,same⟩
    · subst same
      exact sound.enter _ m _ (reachable_invariant sound s c initial reached controlled) enters
    · subst same
      have pre : K.pre (active below) m c.state := reachable_calls sound s c initial reached top
      exact pre
  exact above_exec sound moves [.code (T.body m)] (T.began m c.state) after (sound.body _ m _ pre) returned

/-- Undefined behaviour that the contract rules out is not reached. -/
theorem reachable_no_fault (sound : K.Sound T E) (s : σ) (c : Config σ Q A C M)
    (initial : K.inv [] s) (reached : T.Reachable E s c) (safe : ¬K.mayFault) :
    c.stack ≠ .code .fault :: rest := by
  intro top
  have holds := exec_holds sound s c initial reached
  rw [top] at holds
  exact safe holds

end Adequacy
section Steady
variable {T : System σ Q A C M} {E : Environment σ Q A C M} {R : σ → σ → Prop}

/-- From `s`, each update of the state is one of `R`, whatever happens in between. -/
def Prog.SteadyAt (R : σ → σ → Prop) : Prog σ Q A C M α → σ → Prop
  | .done _,_ => True
  | .get next,s => (next s).SteadyAt R s
  | .set after next,s => R s after ∧ next.SteadyAt R after
  | .ask _ next,_ => ∀ a after, (next a).SteadyAt R after
  | .callback _ next,_ => ∀ after, next.SteadyAt R after
  | .call _ next,_ => ∀ after, next.SteadyAt R after
  | .fault,_ => True

def Prog.Steady (R : σ → σ → Prop) (p : Prog σ Q A C M α) : Prop := ∀ s, p.SteadyAt R s

theorem Prog.SteadyAt.bind {p : Prog σ Q A C M α} {f : α → Prog σ Q A C M β} {s : σ}
    (first : p.SteadyAt R s) (second : ∀ value, (f value).Steady R) : (p >>= f).SteadyAt R s := by
  change (p.bind f).SteadyAt R s
  induction p generalizing s with
  | done value => exact second value s
  | get next ih => exact ih s first
  | set state next ih => exact ⟨first.1,ih first.2⟩
  | ask q next ih => exact fun a after => ih a (first a after)
  | callback c next ih => exact fun after => ih (first after)
  | call m next ih => exact fun after => ih (first after)
  | fault => trivial

theorem Prog.Steady.bind {p : Prog σ Q A C M α} {f : α → Prog σ Q A C M β} (first : p.Steady R)
    (second : ∀ value, (f value).Steady R) : (p >>= f).Steady R :=
  fun s => (first s).bind second

theorem Prog.Steady.ite {c : Prop} [Decidable c] {p q : Prog σ Q A C M α} (left : p.Steady R)
    (right : q.Steady R) : (if c then p else q).Steady R := by
  split
  · exact left
  · exact right

theorem Prog.Steady.modify {f : σ → σ} (steady : ∀ s, R s (f s)) :
    (Prog.modify f : Prog σ Q A C M Unit).Steady R :=
  fun s => ⟨steady s,trivial⟩

structure System.Steady (T : System σ Q A C M) (R : σ → σ → Prop) : Prop where
  refl : ∀ s, R s s
  trans : ∀ a b c, R a b → R b c → R a c
  body : ∀ m, (T.body m).Steady R
  answered : ∀ q a s, R s (T.answered q a s)
  began : ∀ m s, R s (T.began m s)
  invoked : ∀ t s, R s (T.invoked t s)

def SteadyStack (R : σ → σ → Prop) : List (Frame σ Q A C M) → σ → Prop
  | [],_ => True
  | .user _ :: rest,_ => ∀ after, SteadyStack R rest after
  | .code p :: rest,s => p.SteadyAt R s ∧ ∀ after, SteadyStack R rest after

theorem SteadyStack.controlled {stack : List (Frame σ Q A C M)} {s : σ} (after : σ)
    (controlled : (⟨s,stack⟩ : Config σ Q A C M).controlled) (holds : SteadyStack R stack s) :
    SteadyStack R stack after := by
  match stack,controlled with
  | [],_ => trivial
  | .user _ :: _,_ => exact holds

theorem steady_enter (steady : T.Steady R) (c next : Config σ Q A C M) (m : M) (controlled : c.controlled)
    (holds : SteadyStack R c.stack c.state) (stepped : T.enter E c m = some next) :
    R c.state next.state ∧ SteadyStack R next.stack next.state := by
  simp only [System.enter] at stepped
  split at stepped
  · cases stepped
    exact ⟨steady.began m _,steady.body m _,fun after => holds.controlled after controlled⟩
  · contradiction

theorem steady_step (steady : T.Steady R) (c next : Config σ Q A C M) (move : Move σ Q A C M)
    (holds : SteadyStack R c.stack c.state) (stepped : T.step E c move = some next) :
    R c.state next.state ∧ SteadyStack R next.stack next.state := by
  obtain ⟨s,stack⟩ := c
  unfold System.step at stepped
  split at stepped
  case h_1 m stackEq =>
    cases stackEq; exact steady_enter steady ⟨s,[]⟩ next m trivial holds stepped
  case h_2 t rest m stackEq =>
    cases stackEq; exact steady_enter steady ⟨s,.user t :: rest⟩ next m trivial holds stepped
  case h_3 t rest stackEq => cases stackEq; cases stepped; exact ⟨steady.refl s,holds s⟩
  case h_4 value rest stackEq => cases stackEq; cases stepped; exact ⟨steady.refl s,holds.2 s⟩
  case h_5 k rest stackEq => cases stackEq; cases stepped; exact ⟨steady.refl s,holds⟩
  case h_6 state k rest stackEq => cases stackEq; cases stepped; exact ⟨holds.1.1,holds.1.2,holds.2⟩
  case h_7 q k rest a stackEq =>
    cases stackEq
    split at stepped
    · cases stepped; exact ⟨steady.answered q a s,holds.1 a _,holds.2⟩
    · contradiction
  case h_8 t k rest stackEq =>
    cases stackEq; cases stepped
    exact ⟨steady.invoked t s,fun after => ⟨holds.1 after,holds.2⟩⟩
  case h_9 m k rest stackEq =>
    cases stackEq; cases stepped
    exact ⟨steady.began m s,steady.body m _,fun after => ⟨holds.1 after,holds.2⟩⟩
  case h_10 => contradiction

theorem exec_steady (steady : T.Steady R) (moves : List (Move σ Q A C M)) (c final : Config σ Q A C M)
    (holds : SteadyStack R c.stack c.state) (run : T.exec E moves c = some final) :
    R c.state final.state ∧ SteadyStack R final.stack final.state := by
  induction moves generalizing c with
  | nil => cases run; exact ⟨steady.refl _,holds⟩
  | cons move moves ih =>
    obtain ⟨next,stepped,rest⟩ := Option.bind_eq_some_iff.mp run
    obtain ⟨first,kept⟩ := steady_step steady c next move holds stepped
    obtain ⟨second,later⟩ := ih next kept rest
    exact ⟨steady.trans _ _ _ first second,later⟩

/-- Whatever happens after a reachable configuration, the states are related. -/
theorem reachable_steady (steady : T.Steady R) (s : σ) (c later : Config σ Q A C M)
    (moves : List (Move σ Q A C M)) (reached : T.Reachable E s c) (run : T.exec E moves c = some later) :
    R c.state later.state := by
  obtain ⟨before,ran⟩ := reached
  have kept := (exec_steady steady before ⟨s,[]⟩ c trivial ran).2
  exact (exec_steady steady moves c later kept run).1

end Steady

section Conjunction
variable {K L : Contract σ Q C M} {T : System σ Q A C M} {E F : Environment σ Q A C M} {ctx : List C}

def Contract.both (K L : Contract σ Q C M) : Contract σ Q C M where
  inv := fun ctx s => K.inv ctx s ∧ L.inv ctx s
  rely := fun ctx s after => K.rely ctx s after ∧ L.rely ctx s after
  pre := fun ctx m s => K.pre ctx m s ∧ L.pre ctx m s
  post := fun ctx m s after => K.post ctx m s after ∧ L.post ctx m s after
  asks := fun ctx q s => K.asks ctx q s ∧ L.asks ctx q s
  mayFault := K.mayFault ∧ L.mayFault

theorem wp_both {p : Prog σ Q A C M α} {s : σ} {first second : α → σ → Prop}
    (left : wp T E K ctx p first s) (right : wp T E L ctx p second s) :
    wp T E (K.both L) ctx p (fun value after => first value after ∧ second value after) s := by
  induction p generalizing s with
  | done value => exact ⟨left,right⟩
  | get next ih => exact ih s left right
  | set state next ih => exact ih left right
  | ask q next ih =>
    exact ⟨⟨left.1,right.1⟩,fun a admitted => ih a (left.2 a admitted) (right.2 a admitted)⟩
  | callback c next ih =>
    exact ⟨⟨left.1,right.1⟩,fun after kept inv => ih (left.2 after kept.1 inv.1) (right.2 after kept.2 inv.2)⟩
  | call m next ih =>
    exact ⟨⟨left.1,right.1⟩,fun after done => ih (left.2 after done.1) (right.2 after done.2)⟩
  | fault => exact ⟨left,right⟩

/-- What has to be checked of a second contract whose bodies may count on the first. -/
structure Contract.Refines (L K : Contract σ Q C M) (T : System σ Q A C M) (E : Environment σ Q A C M) : Prop where
  rely_refl : ∀ ctx s, L.rely ctx s s
  rely_trans : ∀ ctx a b c, L.rely ctx a b → L.rely ctx b c → L.rely ctx a c
  body : ∀ ctx m s, K.pre ctx m s → L.pre ctx m s →
    wp T E L ctx (T.body m) (fun _ after => L.post ctx m s after) (T.began m s)
  enter : ∀ ctx m s, K.inv ctx s → L.inv ctx s → E.enters ctx s m = true → L.pre ctx m s
  leave : ∀ ctx m s after, L.inv ctx s → E.enters ctx s m = true → L.post ctx m s after →
    L.inv ctx after ∧ L.rely ctx s after

theorem Contract.Sound.both (sound : K.Sound T E) (refines : L.Refines K T E) : (K.both L).Sound T E where
  rely_refl := fun ctx s => ⟨sound.rely_refl ctx s,refines.rely_refl ctx s⟩
  rely_trans := fun ctx a b c first second =>
    ⟨sound.rely_trans ctx a b c first.1 second.1,refines.rely_trans ctx a b c first.2 second.2⟩
  body := fun ctx m s pre => wp_both (sound.body ctx m s pre.1) (refines.body ctx m s pre.1 pre.2)
  enter := fun ctx m s inv allowed =>
    ⟨sound.enter ctx m s inv.1 allowed,refines.enter ctx m s inv.1 inv.2 allowed⟩
  leave := fun ctx m s after inv allowed post => by
    obtain ⟨kept,same⟩ := sound.leave ctx m s after inv.1 allowed post.1
    obtain ⟨later,steady⟩ := refines.leave ctx m s after inv.2 allowed post.2
    exact ⟨⟨kept,later⟩,same,steady⟩

theorem wp_admits {p : Prog σ Q A C M α} {s : σ} {goal : α → σ → Prop} (fewer : ∀ ctx s q a,
    F.admits ctx s q a = true → E.admits ctx s q a = true) (holds : wp T E K ctx p goal s) :
    wp T F K ctx p goal s := by
  induction p generalizing s with
  | done value => exact holds
  | get next ih => exact ih s holds
  | set state next ih => exact ih holds
  | ask q next ih =>
    exact ⟨holds.1,fun a admitted => ih a (holds.2 a (fewer ctx s q a admitted))⟩
  | callback c next ih => exact ⟨holds.1,fun after kept inv => ih (holds.2 after kept inv)⟩
  | call m next ih => exact ⟨holds.1,fun after done => ih (holds.2 after done)⟩
  | fault => exact holds

/-- Surroundings that do less need no more. -/
theorem Contract.Sound.mono (sound : K.Sound T E) (admits : ∀ ctx s q a, F.admits ctx s q a = true →
    E.admits ctx s q a = true) (enters : ∀ ctx s m, F.enters ctx s m = true → E.enters ctx s m = true) :
    K.Sound T F where
  rely_refl := sound.rely_refl
  rely_trans := sound.rely_trans
  body := fun ctx m s pre => wp_admits admits (sound.body ctx m s pre)
  enter := fun ctx m s inv allowed => sound.enter ctx m s inv (enters ctx s m allowed)
  leave := fun ctx m s after inv allowed post => sound.leave ctx m s after inv (enters ctx s m allowed) post

end Conjunction

section Termination
variable {T : System σ Q A C M} {E : Environment σ Q A C M} {rest : List (Frame σ Q A C M)}

/-- On every path control comes back to `rest`, if the user returns from the callbacks made
on the way. Each code step must also be possible. -/
inductive Returns (T : System σ Q A C M) (E : Environment σ Q A C M)
    (rest : List (Frame σ Q A C M)) : Config σ Q A C M → Prop where
  | back (s : σ) : Returns T E rest ⟨s,rest⟩
  | own (s : σ) (p : Prog σ Q A C M Unit) (k : List (Frame σ Q A C M)) :
      (∃ move next, T.step E ⟨s,.code p :: k⟩ move = some next) →
      (∀ move next, T.step E ⟨s,.code p :: k⟩ move = some next → Returns T E rest next) →
      Returns T E rest ⟨s,.code p :: k⟩
  | user (s : σ) (c : C) (k : List (Frame σ Q A C M)) :
      (∀ after, Returns T E rest ⟨after,k⟩) → Returns T E rest ⟨s,.user c :: k⟩

theorem Returns.silent {c next : Config σ Q A C M} {p : Prog σ Q A C M Unit}
    {k : List (Frame σ Q A C M)} (top : c.stack = .code p :: k)
    (only : ∀ move, T.step E c move = some next ∨ T.step E c move = none)
    (stepped : T.step E c .advance = some next)
    (returns : Returns T E rest next) : Returns T E rest c := by
  obtain ⟨s,stack⟩ := c
  subst top
  refine .own s p k ⟨.advance,next,stepped⟩ ?_
  intro move other took
  rcases only move with same | none
  · rw [same] at took; cases took; exact returns
  · rw [none] at took; contradiction

variable {s : σ} {k : List (Frame σ Q A C M)}

theorem Returns.done (returns : Returns T E rest ⟨s,k⟩) :
    Returns T E rest ⟨s,.code (.done ()) :: k⟩ :=
  .silent rfl (fun move => by cases move <;> simp [System.step]) rfl returns

theorem Returns.get {next : σ → Prog σ Q A C M Unit}
    (returns : Returns T E rest ⟨s,.code (next s) :: k⟩) :
    Returns T E rest ⟨s,.code (.get next) :: k⟩ :=
  .silent rfl (fun move => by cases move <;> simp [System.step]) rfl returns

theorem Returns.set {after : σ} {next : Prog σ Q A C M Unit}
    (returns : Returns T E rest ⟨after,.code next :: k⟩) :
    Returns T E rest ⟨s,.code (.set after next) :: k⟩ :=
  .silent rfl (fun move => by cases move <;> simp [System.step]) rfl returns

theorem Returns.callback {c : C} {next : Prog σ Q A C M Unit}
    (returns : ∀ after, Returns T E rest ⟨after,.code next :: k⟩) :
    Returns T E rest ⟨s,.code (.callback c next) :: k⟩ :=
  .silent rfl (fun move => by cases move <;> simp [System.step]) rfl (.user _ c _ returns)

theorem Returns.ask {q : Q} {next : A → Prog σ Q A C M Unit}
    (answered : ∃ a, E.admits (active k) s q a = true)
    (returns : ∀ a, E.admits (active k) s q a = true →
      Returns T E rest ⟨T.answered q a s,.code (next a) :: k⟩) :
    Returns T E rest ⟨s,.code (.ask q next) :: k⟩ := by
  obtain ⟨first,admitted⟩ := answered
  refine .own s _ k ⟨.answer first,_,by simp only [System.step,admitted,if_true]; rfl⟩ ?_
  intro move other took
  cases move with
  | answer a =>
    simp only [System.step] at took
    split at took
    · next allowed => cases took; exact returns a allowed
    · contradiction
  | _ => simp [System.step] at took

def Prog.Straight : Prog σ Q A C M α → Prop
  | .done _ => True
  | .get next => ∀ s, (next s).Straight
  | .set _ next => next.Straight
  | .ask _ next => ∀ a, (next a).Straight
  | .callback _ next => next.Straight
  | .call _ _ => False
  | .fault => False

theorem Prog.Straight.bind {p : Prog σ Q A C M α} {f : α → Prog σ Q A C M β}
    (first : p.Straight) (second : ∀ value, (f value).Straight) : (p >>= f).Straight := by
  change (p.bind f).Straight
  induction p with
  | done value => exact second value
  | get next ih => exact fun s => ih s (first s)
  | set s next ih => exact ih first
  | ask q next ih => exact fun a => ih a (first a)
  | callback c next ih => exact ih first
  | call m next ih => exact first.elim
  | fault => exact first.elim

/-- Straight code goes on to the frames below it, where every system call has some answer. -/
theorem Prog.Straight.goes_on {p : Prog σ Q A C M Unit} (straight : p.Straight)
    (answers : ∀ ctx s q, ∃ a, E.admits ctx s q a = true) (below : ∀ after, Returns T E rest ⟨after,k⟩) (s : σ) :
    Returns T E rest ⟨s,.code p :: k⟩ := by
  induction p generalizing s with
  | done value => exact .done (below s)
  | get next ih => exact .get (ih s (straight s) s)
  | set after next ih => exact .set (ih straight after)
  | ask q next ih => exact .ask (answers _ s q) fun a _ => ih a (straight a) _
  | callback c next ih => exact .callback fun after => ih straight after
  | call m next ih => exact straight.elim
  | fault => exact straight.elim

/-- Straight code returns where every system call has some answer. -/
theorem Prog.Straight.returns {p : Prog σ Q A C M Unit} (straight : p.Straight)
    (answers : ∀ ctx s q, ∃ a, E.admits ctx s q a = true) (s : σ) :
    Returns T E rest ⟨s,.code p :: rest⟩ :=
  straight.goes_on answers (fun after => .back after) s

theorem Returns.call {m : M} {next : Prog σ Q A C M Unit}
    (returns : Returns T E rest ⟨T.began m s,.code (T.body m) :: .code next :: k⟩) :
    Returns T E rest ⟨s,.code (.call m next) :: k⟩ :=
  .silent rfl (fun move => by cases move <;> simp [System.step]) rfl returns

/-- What comes back on every path comes back in some run of any surroundings that answer less. -/
theorem Returns.run {F : Environment σ Q A C M} {c : Config σ Q A C M} (returns : Returns T E rest c)
    (fewer : ∀ ctx s q a, F.admits ctx s q a = true → E.admits ctx s q a = true)
    (answers : ∀ ctx s q, ∃ a, F.admits ctx s q a = true) :
    ∃ moves after, T.exec F moves c = some ⟨after,rest⟩ := by
  induction returns with
  | back s => exact ⟨[],s,rfl⟩
  | own s p k possible _ ih =>
    have goes : ∃ move next, T.step F ⟨s,.code p :: k⟩ move = some next ∧
        T.step E ⟨s,.code p :: k⟩ move = some next := by
      cases p with
      | ask q next =>
        obtain ⟨a,admitted⟩ := answers (active k) s q
        exact ⟨.answer a,_,if_pos admitted,if_pos (fewer _ _ _ _ admitted)⟩
      | fault =>
        obtain ⟨move,next,stepped⟩ := possible
        cases move <;> cases stepped
      | _ => exact ⟨.advance,_,rfl,rfl⟩
    obtain ⟨move,next,mine,theirs⟩ := goes
    obtain ⟨moves,after,run⟩ := ih move next theirs
    refine ⟨move :: moves,after,?_⟩
    rw [System.exec,mine]
    exact run
  | user s c k _ ih =>
    obtain ⟨moves,after,run⟩ := ih s
    exact ⟨.leave :: moves,after,run⟩

end Termination
end Reentrant
