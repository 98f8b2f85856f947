import Tmms.ReentrantRules

/-! One reentrant system seen as another. A view forgets a part of the state, some system calls and
some methods; where every method that is seen does what its counterpart does, a run of the first
system is seen as a run of the second. -/
namespace Reentrant

variable {σ τ Q R A B C D M N α β : Type}

structure View (σ τ Q R A B C D M N : Type) where
  state : σ → τ
  query : Q → Option R
  answer : σ → Q → A → B
  callback : C → D
  method : M → Option N

/-- Up to its first step that is not a look at the state. -/
def Prog.settle (t : τ) : Prog τ R B D N α → Prog τ R B D N α
  | .get next => (next t).settle t
  | p => p

theorem Prog.settle_bind (t : τ) (p : Prog τ R B D N α) (f : α → Prog τ R B D N β) :
    (p.bind f).settle t = ((p.settle t).bind f).settle t := by
  induction p with
  | get next ih => exact ih t
  | _ => rfl

/-- Code gets there by itself. -/
theorem System.settles (U : System τ R B D N) (F : Environment τ R B D N) (p : Prog τ R B D N Unit) (t : τ)
    (rest : List (Frame τ R B D N)) :
    ∃ moves, U.exec F moves ⟨t,.code p :: rest⟩ = some ⟨t,.code (p.settle t) :: rest⟩ := by
  induction p with
  | get next ih =>
    obtain ⟨moves,run⟩ := ih t
    exact ⟨.advance :: moves,run⟩
  | _ => exact ⟨[],rfl⟩

section Programs
variable (V : View σ τ Q R A B C D M N) (T : System σ Q A C M)

/-- From `s`, the first program is seen as the second; they end in the same value. -/
def Seen : Prog σ Q A C M α → Prog τ R B D N α → σ → Prop
  | .done value,p,s => p.settle (V.state s) = .done value
  | .get next,p,s => Seen (next s) p s
  | .set after next,p,s => (V.state after = V.state s ∧ Seen next p after) ∨
      ∃ other, p.settle (V.state s) = .set (V.state after) other ∧ Seen next other after
  | .ask q next,p,s =>
      (V.query q = none → ∀ a, V.state (T.answered q a s) = V.state s ∧ Seen (next a) p (T.answered q a s)) ∧
      ∀ r, V.query q = some r → ∃ other, p.settle (V.state s) = .ask r other ∧
        ∀ a, Seen (next a) (other (V.answer s q a)) (T.answered q a s)
  | .callback c next,p,s => ∃ other, p.settle (V.state s) = .callback (V.callback c) other ∧
      ∀ after, Seen next other after
  | .call m next,p,s => ∃ n other, V.method m = some n ∧ p.settle (V.state s) = .call n other ∧
      ∀ after, Seen next other after
  | .fault,_,_ => True

def Prog.SeenAs (p : Prog σ Q A C M α) (other : Prog τ R B D N α) : Prop := ∀ s, Seen V T p other s

variable {V T}

theorem Seen.congr {p : Prog σ Q A C M α} {first second : Prog τ R B D N α} {s : σ} (seen : Seen V T p first s)
    (same : first.settle (V.state s) = second.settle (V.state s)) : Seen V T p second s := by
  induction p generalizing s with
  | done value => exact same.symm.trans seen
  | get next ih => exact ih s seen same
  | set after next ih =>
    rcases seen with ⟨silent,seen⟩ | ⟨other,settled,seen⟩
    · exact .inl ⟨silent,ih seen (silent ▸ same)⟩
    · exact .inr ⟨other,same ▸ settled,seen⟩
  | ask q next ih =>
    refine ⟨fun unseen a => ?_,fun r asked => ?_⟩
    · obtain ⟨silent,seen⟩ := seen.1 unseen a
      exact ⟨silent,ih a seen (silent ▸ same)⟩
    · obtain ⟨other,settled,seen⟩ := seen.2 r asked
      exact ⟨other,same ▸ settled,seen⟩
  | callback c next ih =>
    obtain ⟨other,settled,seen⟩ := seen
    exact ⟨other,same ▸ settled,seen⟩
  | call m next ih =>
    obtain ⟨n,other,known,settled,seen⟩ := seen
    exact ⟨n,other,known,same ▸ settled,seen⟩
  | fault => trivial

theorem Seen.bind {p : Prog σ Q A C M α} {other : Prog τ R B D N α} {f : α → Prog σ Q A C M β}
    {g : α → Prog τ R B D N β} {s : σ} (first : Seen V T p other s)
    (second : ∀ value, Prog.SeenAs V T (f value) (g value)) : Seen V T (p.bind f) (other.bind g) s := by
  -- A step of the second program stays its first one when more follows.
  have more : ∀ {q : Prog τ R B D N α} {t : τ} {step : Prog τ R B D N α}, q.settle t = step →
      (q.bind g).settle t = (step.bind g).settle t := fun settled => by
    rw [Prog.settle_bind,settled]
  induction p generalizing other s with
  | done value => exact (second value s).congr (more first).symm
  | get next ih => exact ih s first
  | set after next ih =>
    rcases first with ⟨silent,seen⟩ | ⟨rest,settled,seen⟩
    · exact .inl ⟨silent,ih seen⟩
    · exact .inr ⟨rest.bind g,more settled,ih seen⟩
  | ask q next ih =>
    refine ⟨fun unseen a => ?_,fun r asked => ?_⟩
    · obtain ⟨silent,seen⟩ := first.1 unseen a
      exact ⟨silent,ih a seen⟩
    · obtain ⟨rest,settled,seen⟩ := first.2 r asked
      exact ⟨fun b => (rest b).bind g,more settled,fun a => ih a (seen a)⟩
  | callback c next ih =>
    obtain ⟨rest,settled,seen⟩ := first
    exact ⟨rest.bind g,more settled,fun after => ih (seen after)⟩
  | call m next ih =>
    obtain ⟨n,rest,known,settled,seen⟩ := first
    exact ⟨n,rest.bind g,known,more settled,fun after => ih (seen after)⟩
  | fault => trivial

theorem Prog.SeenAs.bind {p : Prog σ Q A C M α} {other : Prog τ R B D N α} {f : α → Prog σ Q A C M β}
    {g : α → Prog τ R B D N β} (first : Prog.SeenAs V T p other)
    (second : ∀ value, Prog.SeenAs V T (f value) (g value)) : Prog.SeenAs V T (p >>= f) (other >>= g) :=
  fun s => (first s).bind second

theorem Prog.SeenAs.ite {c : Prop} [Decidable c] {p q : Prog σ Q A C M α} {first second : Prog τ R B D N α}
    (left : Prog.SeenAs V T p first) (right : Prog.SeenAs V T q second) :
    Prog.SeenAs V T (if c then p else q) (if c then first else second) := by
  split
  · exact left
  · exact right

theorem Prog.SeenAs.pure (value : α) : Prog.SeenAs V T (Pure.pure value) (Pure.pure value) :=
  fun _ => rfl

end Programs

section Runs
variable (V : View σ τ Q R A B C D M N) (T : System σ Q A C M) (E : Environment σ Q A C M) (U : System τ R B D N)
  (F : Environment τ R B D N)

/-- Code that is not seen: it leaves alone what is, and calls only methods that its caller may. -/
def Hidden (ctx : List D) : Prog σ Q A C M Unit → σ → Prop
  | .done _,_ => True
  | .get next,s => Hidden ctx (next s) s
  | .set after next,s => V.state after = V.state s ∧ Hidden ctx next after
  | .ask q next,s => V.query q = none ∧
      ∀ a, V.state (T.answered q a s) = V.state s ∧ Hidden ctx (next a) (T.answered q a s)
  | .callback _ _,_ => False
  | .call m next,s => (∃ n, V.method m = some n ∧ F.enters ctx (V.state s) n = true) ∧ ∀ after, Hidden ctx next after
  | .fault,_ => True

structure Simulation : Prop where
  admits : ∀ ctx s q a r, V.query q = some r → E.admits ctx s q a = true →
    F.admits (ctx.map V.callback) (V.state s) r (V.answer s q a) = true
  answered : ∀ q a s r, V.query q = some r →
    V.state (T.answered q a s) = U.answered r (V.answer s q a) (V.state s)
  enters : ∀ ctx s m n, V.method m = some n → E.enters ctx s m = true →
    F.enters (ctx.map V.callback) (V.state s) n = true
  began : ∀ m n s, V.method m = some n → V.state (T.began m s) = U.began n (V.state s)
  invoked : ∀ c s, V.state (T.invoked c s) = U.invoked (V.callback c) (V.state s)
  body : ∀ m n, V.method m = some n → Prog.SeenAs V T (T.body m) (U.body n)
  hidden : ∀ ctx m s, V.method m = none → E.enters ctx s m = true → V.state (T.began m s) = V.state s ∧
    Hidden V T F (ctx.map V.callback) (T.body m) (T.began m s)

/-- One stack is seen as another. Hidden code stands on the user, or on nothing. -/
def Shown : List (Frame σ Q A C M) → List (Frame τ R B D N) → σ → Prop
  | [],stack,_ => stack = []
  | .user c :: rest,stack,_ => ∃ below, stack = .user (V.callback c) :: below ∧ ∀ after, Shown rest below after
  | .code p :: rest,stack,s =>
      (∃ other below, stack = .code other :: below ∧ Seen V T p other s ∧
        ∀ after, Shown rest below after) ∨
      ((⟨V.state s,stack⟩ : Config τ R B D N).controlled ∧ Hidden V T F (active stack) p s ∧
        ∀ after, Shown rest stack after)

variable {V T E U F}

theorem shown_active {stack : List (Frame σ Q A C M)} {image : List (Frame τ R B D N)} {s : σ}
    (shown : Shown V T F stack image s) : active image = (active stack).map V.callback := by
  induction stack generalizing image s with
  | nil =>
    cases shown
    rfl
  | cons frame rest ih =>
    cases frame with
    | user c =>
      obtain ⟨below,same,shown⟩ := shown
      rw [same]
      exact congrArg (List.cons _) (ih (shown s))
    | code p =>
      rcases shown with ⟨other,below,same,_,shown⟩ | ⟨_,_,shown⟩
      · rw [same]
        exact (ih (shown s) : active below = _)
      · exact ih (shown s)

theorem shown_controlled {stack : List (Frame σ Q A C M)} {image : List (Frame τ R B D N)} {s : σ} {t : τ}
    (shown : Shown V T F stack image s) (controlled : (⟨s,stack⟩ : Config σ Q A C M).controlled) :
    (⟨t,image⟩ : Config τ R B D N).controlled := by
  match stack,controlled with
  | [],_ =>
    cases shown
    trivial
  | .user c :: rest,_ =>
    obtain ⟨below,same,_⟩ := shown
    rw [same]
    trivial

def Config.ShownAs (V : View σ τ Q R A B C D M N) (T : System σ Q A C M) (F : Environment τ R B D N)
    (c : Config σ Q A C M) (d : Config τ R B D N) : Prop :=
  d.state = V.state c.state ∧ Shown V T F c.stack d.stack c.state

def Follows (V : View σ τ Q R A B C D M N) (T : System σ Q A C M) (U : System τ R B D N) (F : Environment τ R B D N)
    (d : Config τ R B D N) (c : Config σ Q A C M) : Prop :=
  ∃ moves later, U.exec F moves d = some later ∧ c.ShownAs V T F later

theorem follows_rest {d : Config τ R B D N} {c : Config σ Q A C M} (shown : c.ShownAs V T F d) :
    Follows V T U F d c :=
  ⟨[],d,rfl,shown⟩

/-- The code that is seen settles and takes a step. -/
theorem follows_step {p settled : Prog τ R B D N Unit} {t : τ} {rest : List (Frame τ R B D N)} {c : Config σ Q A C M}
    {later : Config τ R B D N} (same : p.settle t = settled) (move : Move τ R B D N)
    (stepped : U.step F ⟨t,.code settled :: rest⟩ move = some later) (shown : c.ShownAs V T F later) :
    Follows V T U F ⟨t,.code p :: rest⟩ c := by
  obtain ⟨moves,run⟩ := U.settles F p t rest
  refine ⟨moves ++ [move],later,?_,shown⟩
  rw [System.exec_append,run,Option.bind_some,same,System.exec,stepped]
  rfl

section Step
variable (sim : Simulation V T E U F)
include sim

theorem shown_enter {stack : List (Frame σ Q A C M)} {image : List (Frame τ R B D N)} {s : σ}
    {next : Config σ Q A C M} {m : M} (shown : Shown V T F stack image s)
    (controlled : (⟨s,stack⟩ : Config σ Q A C M).controlled) (stepped : T.enter E ⟨s,stack⟩ m = some next) :
    Follows V T U F ⟨V.state s,image⟩ next := by
  have stays : ∀ after, Shown V T F stack image after := by
    intro after
    match stack,controlled with
    | [],_ => exact shown
    | .user c :: rest,_ => exact shown
  simp only [System.enter] at stepped
  split at stepped
  · next allowed =>
    cases stepped
    cases seen : V.method m with
    | some n =>
      have enters := sim.enters _ s m n seen allowed
      rw [← shown_active shown] at enters
      refine ⟨[.enter n],⟨U.began n (V.state s),.code (U.body n) :: image⟩,?_,?_,?_⟩
      · rw [System.exec,System.step_enter (shown_controlled shown controlled) enters]
        rfl
      · exact (sim.began m n s seen).symm
      · exact .inl ⟨_,_,rfl,sim.body m n seen _,stays⟩
    | none =>
      obtain ⟨same,hidden⟩ := sim.hidden _ m s seen allowed
      rw [← shown_active shown] at hidden
      exact follows_rest ⟨same.symm,.inr ⟨shown_controlled shown controlled,hidden,stays⟩⟩
  · contradiction

theorem seen_step {p : Prog σ Q A C M Unit} {rest : List (Frame σ Q A C M)} {other : Prog τ R B D N Unit}
    {below : List (Frame τ R B D N)} {s : σ} {next : Config σ Q A C M} {move : Move σ Q A C M}
    (seen : Seen V T p other s) (shown : ∀ after, Shown V T F rest below after)
    (stepped : T.step E ⟨s,.code p :: rest⟩ move = some next) :
    Follows V T U F ⟨V.state s,.code other :: below⟩ next := by
  cases p with
  | done value =>
    cases move <;> cases stepped
    exact follows_step seen .advance rfl ⟨rfl,shown s⟩
  | get k =>
    cases move <;> cases stepped
    exact follows_rest ⟨rfl,.inl ⟨other,below,rfl,seen,shown⟩⟩
  | set after k =>
    cases move <;> cases stepped
    rcases seen with ⟨silent,seen⟩ | ⟨k',settled,seen⟩
    · exact follows_rest ⟨silent.symm,.inl ⟨other,below,rfl,seen,shown⟩⟩
    · exact follows_step settled .advance rfl ⟨rfl,.inl ⟨k',below,rfl,seen,shown⟩⟩
  | ask q k =>
    cases move with
    | answer a =>
      obtain ⟨admitted,same⟩ := Option.ite_none_right_eq_some.mp stepped
      cases same
      cases asked : V.query q with
      | none =>
        obtain ⟨silent,seen⟩ := seen.1 asked a
        exact follows_rest ⟨silent.symm,.inl ⟨other,below,rfl,seen,shown⟩⟩
      | some r =>
        obtain ⟨k',settled,seen⟩ := seen.2 r asked
        have admits := sim.admits _ s q a r asked admitted
        rw [← shown_active (shown s)] at admits
        exact follows_step settled (.answer (V.answer s q a)) (if_pos admits)
          ⟨(sim.answered q a s r asked).symm,.inl ⟨k' _,below,rfl,seen a,shown⟩⟩
    | _ => cases stepped
  | callback c k =>
    cases move <;> cases stepped
    obtain ⟨k',settled,seen⟩ := seen
    exact follows_step settled .advance rfl ⟨(sim.invoked c s).symm,_,rfl,fun after =>
      .inl ⟨k',below,rfl,seen after,shown⟩⟩
  | call m k =>
    cases move <;> cases stepped
    obtain ⟨n,k',known,settled,seen⟩ := seen
    exact follows_step settled .advance rfl ⟨(sim.began m n s known).symm,.inl ⟨U.body n,_,rfl,
      sim.body m n known _,fun after => .inl ⟨k',below,rfl,seen after,shown⟩⟩⟩
  | fault => cases move <;> cases stepped

theorem hidden_step {p : Prog σ Q A C M Unit} {rest : List (Frame σ Q A C M)} {image : List (Frame τ R B D N)} {s : σ}
    {next : Config σ Q A C M} {move : Move σ Q A C M} (controlled : (⟨V.state s,image⟩ : Config τ R B D N).controlled)
    (hidden : Hidden V T F (active image) p s) (shown : ∀ after, Shown V T F rest image after)
    (stepped : T.step E ⟨s,.code p :: rest⟩ move = some next) : Follows V T U F ⟨V.state s,image⟩ next := by
  have stays : ∀ t, (⟨t,image⟩ : Config τ R B D N).controlled := fun _ => controlled
  cases p with
  | done value =>
    cases move <;> cases stepped
    exact follows_rest ⟨rfl,shown s⟩
  | get k =>
    cases move <;> cases stepped
    exact follows_rest ⟨rfl,.inr ⟨controlled,hidden,shown⟩⟩
  | set after k =>
    cases move <;> cases stepped
    exact follows_rest ⟨hidden.1.symm,.inr ⟨stays _,hidden.2,shown⟩⟩
  | ask q k =>
    cases move with
    | answer a =>
      obtain ⟨_,same⟩ := Option.ite_none_right_eq_some.mp stepped
      cases same
      obtain ⟨silent,hidden⟩ := hidden.2 a
      exact follows_rest ⟨silent.symm,.inr ⟨stays _,hidden,shown⟩⟩
    | _ => cases stepped
  | callback c k => exact hidden.elim
  | call m k =>
    cases move <;> cases stepped
    obtain ⟨⟨n,known,enters⟩,hidden⟩ := hidden
    refine ⟨[.enter n],⟨U.began n (V.state s),.code (U.body n) :: image⟩,?_,?_,?_⟩
    · rw [System.exec,System.step_enter controlled enters]
      rfl
    · exact (sim.began m n s known).symm
    · exact .inl ⟨_,_,rfl,sim.body m n known _,fun after => .inr ⟨stays _,hidden after,shown⟩⟩
  | fault => cases move <;> cases stepped

/-- A step is seen as some steps, or none. -/
theorem simulated_step (c next : Config σ Q A C M) (d : Config τ R B D N) (move : Move σ Q A C M)
    (shown : c.ShownAs V T F d) (stepped : T.step E c move = some next) : Follows V T U F d next := by
  obtain ⟨s,stack⟩ := c
  obtain ⟨t,image⟩ := d
  obtain ⟨same,shown⟩ := shown
  cases same
  match stack,shown with
  | [],shown =>
    cases move with
    | enter m => exact shown_enter sim shown trivial stepped
    | _ => cases stepped
  | .user c :: rest,shown =>
    cases move with
    | enter m => exact shown_enter sim shown trivial stepped
    | leave =>
      cases stepped
      obtain ⟨below,same,later⟩ := shown
      cases same
      exact ⟨[.leave],⟨V.state s,below⟩,rfl,rfl,later s⟩
    | _ => cases stepped
  | .code p :: rest,shown =>
    rcases shown with ⟨other,below,same,seen,later⟩ | ⟨controlled,hidden,later⟩
    · cases same
      exact seen_step sim seen later stepped
    · exact hidden_step sim controlled hidden later stepped

theorem simulated_reachable (s : σ) (c : Config σ Q A C M) (reached : T.Reachable E s c) :
    ∃ d, U.Reachable F (V.state s) d ∧ c.ShownAs V T F d := by
  obtain ⟨moves,run⟩ := reached
  refine T.exec_invariant E (fun c => ∃ d, U.Reachable F (V.state s) d ∧ c.ShownAs V T F d) ?_ moves ⟨s,[]⟩ c
    ⟨⟨V.state s,[]⟩,⟨[],rfl⟩,rfl,rfl⟩ run
  intro c move next seen stepped
  obtain ⟨d,reached,shown⟩ := seen
  obtain ⟨more,later,run,shown⟩ := simulated_step sim c next d move shown stepped
  exact ⟨later,reached.exec run,shown⟩

end Step
end Runs

section Within
variable {ω : Type}

/-- Where a system is kept inside a larger one with the same callbacks. -/
structure Place (ω σ Q R A B M N : Type) where
  get : σ → ω
  put : ω → σ → σ
  query : Q → R
  answer : B → A
  method : M → N

variable (L : Place ω σ Q R A B M N)

def Prog.within : Prog ω Q A C M α → Prog σ R B C N α
  | .done value => .done value
  | .get next => .get fun s => (next (L.get s)).within
  | .set after next => .get fun s => .set (L.put after s) next.within
  | .ask q next => .ask (L.query q) fun b => (next (L.answer b)).within
  | .callback c next => .callback c next.within
  | .call m next => .call (L.method m) next.within
  | .fault => .fault

/-- What a view has to forget for the code inside to be seen as it is. -/
structure Place.SeenIn (V : View σ ω R Q B A C C N M) : Prop where
  get_put : ∀ w s, L.get (L.put w s) = w
  state : V.state = L.get
  query : ∀ q, V.query (L.query q) = some q
  answer : ∀ s q b, V.answer s (L.query q) b = L.answer b
  callback : ∀ c, V.callback c = c
  method : ∀ m, V.method (L.method m) = some m

variable {L} {V : View σ ω R Q B A C C N M} {T : System σ R B C N}

theorem within_seen (seen : L.SeenIn V) (p : Prog ω Q A C M α) : Prog.SeenAs V T (p.within L) p := by
  intro s
  have settled : ∀ (next : ω → Prog ω Q A C M α) s, (next (L.get s)).settle (V.state s) =
      (Prog.get next).settle (V.state s) := fun next s => by rw [seen.state]; rfl
  induction p generalizing s with
  | done value => rfl
  | get next ih => exact (ih (L.get s) s).congr (settled next s)
  | set after next ih =>
    refine .inr ⟨next,?_,ih _⟩
    rw [seen.state,seen.get_put]
    rfl
  | ask q next ih =>
    refine ⟨fun unseen => ?_,fun r asked => ?_⟩
    · rw [seen.query] at unseen
      cases unseen
    · rw [seen.query] at asked
      cases asked
      refine ⟨next,rfl,fun b => ?_⟩
      rw [seen.answer]
      exact ih _ _
  | callback c next ih => exact ⟨next,by rw [seen.callback]; rfl,fun after => ih after⟩
  | call m next ih => exact ⟨m,next,seen.method m,rfl,fun after => ih after⟩
  | fault => trivial

@[simp] theorem within_bind (p : Prog ω Q A C M α) (f : α → Prog ω Q A C M β) :
    (p >>= f).within L = p.within L >>= fun value => (f value).within L := by
  change (p.bind f).within L = (p.within L).bind fun value => (f value).within L
  induction p with
  | done value => rfl
  | get next ih => exact congrArg Prog.get (funext fun s => ih _)
  | set after next ih => exact congrArg Prog.get (funext fun s => congrArg (Prog.set _) ih)
  | ask q next ih => exact congrArg (Prog.ask _) (funext fun b => ih _)
  | callback c next ih => exact congrArg (Prog.callback c) ih
  | call m next ih => exact congrArg (Prog.call _) ih
  | fault => rfl

@[simp] theorem within_pure (value : α) :
    (Pure.pure value : Prog ω Q A C M α).within L = (Pure.pure value : Prog σ R B C N α) := rfl

@[simp] theorem within_ite (c : Prop) [Decidable c] (p q : Prog ω Q A C M α) :
    (if c then p else q).within L = if c then p.within L else q.within L := apply_ite (Prog.within L) c p q

section WeakestPrecondition
variable {E : Environment σ R B C N} {K : Contract σ R C N} {ctx : List C} (s : σ)

@[simp] theorem wp_within_read (goal : ω → σ → Prop) :
    wp T E K ctx ((Prog.read : Prog ω Q A C M ω).within L) goal s ↔ goal (L.get s) s := Iff.rfl

@[simp] theorem wp_within_modify (f : ω → ω) (goal : Unit → σ → Prop) :
    wp T E K ctx ((Prog.modify f : Prog ω Q A C M Unit).within L) goal s ↔ goal () (L.put (f (L.get s)) s) := Iff.rfl

@[simp] theorem wp_within_query (q : Q) (goal : A → σ → Prop) :
    wp T E K ctx ((Prog.query q : Prog ω Q A C M A).within L) goal s ↔ K.asks ctx (L.query q) s ∧
      ∀ b, E.admits ctx s (L.query q) b = true → goal (L.answer b) (T.answered (L.query q) b s) := Iff.rfl

end WeakestPrecondition

theorem Prog.steady_any (p : Prog ω Q A C M α) : p.Steady fun _ _ => True := by
  intro s
  induction p generalizing s with
  | done value => trivial
  | get next ih => exact ih s s
  | set after next ih => exact ⟨trivial,ih after⟩
  | ask q next ih => exact fun a after => ih a after
  | callback c next ih => exact ih
  | call m next ih => exact ih
  | fault => trivial

/-- What the code changes where it belongs, it changes in the larger system. -/
theorem within_steady {S : ω → ω → Prop} {large : σ → σ → Prop} (get_put : ∀ w s, L.get (L.put w s) = w)
    (kept : ∀ s after, S (L.get s) after → large s (L.put after s)) {p : Prog ω Q A C M α} (steady : p.Steady S) :
    (p.within L).Steady large := by
  have from_ : ∀ s, p.SteadyAt S (L.get s) → (p.within L).SteadyAt large s := by
    clear steady
    induction p with
    | done value => exact fun _ _ => trivial
    | get next ih => exact fun s steady => ih _ s steady
    | set after next ih =>
      refine fun s steady => ⟨kept s after steady.1,ih _ ?_⟩
      rw [get_put]
      exact steady.2
    | ask q next ih => exact fun s steady b after => ih _ after (steady _ _)
    | callback c next ih => exact fun s steady after => ih after (steady _)
    | call m next ih => exact fun s steady after => ih after (steady _)
    | fault => exact fun _ _ => trivial
  exact fun s => from_ s (steady _)

/-- Code kept inside changes nothing around it. -/
theorem within_apart {large : σ → σ → Prop} (get_put : ∀ w s, L.get (L.put w s) = w)
    (kept : ∀ s after, large s (L.put after s)) (p : Prog ω Q A C M α) : (p.within L).Steady large :=
  within_steady get_put (fun s after _ => kept s after) (p.steady_any)

end Within
end Reentrant
