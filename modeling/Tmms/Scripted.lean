import Tmms.Reentrant

/-! Callbacks whose calls are given: the user makes no choice of his own, and what is left open
is how system calls are answered. `Finishes` says that control comes back to the bottom of the
stack whatever the answers are, so it also says that no system call waits for ever. -/
namespace Reentrant

variable {σ Q A C M α β : Type}

structure Scripted (σ Q A C M : Type) where
  config : Config σ Q A C M
  -- the calls that each callback in progress has still to make, innermost first
  scripts : List (List M)

section Follow
variable (T : System σ Q A C M) (E : Environment σ Q A C M) (script : C → List M)

/-- A callback makes its calls one after the other, and then returns. -/
def System.follow (c : Scripted σ Q A C M) (move : Move σ Q A C M) : Option (Scripted σ Q A C M) :=
  match c.config.stack with
  | [] => none
  | .user t :: rest =>
    match c.scripts,move with
    | [] :: scripts,.leave => some ⟨⟨c.config.state,rest⟩,scripts⟩
    | (m :: calls) :: scripts,.advance =>
      some ⟨⟨T.began m c.config.state,.code (T.body m) :: .user t :: rest⟩,calls :: scripts⟩
    | _,_ => none
  | .code p :: rest =>
    (T.step E ⟨c.config.state,.code p :: rest⟩ move).map fun next =>
      match p with
      | .callback t _ => ⟨next,script t :: c.scripts⟩
      | _ => ⟨next,c.scripts⟩

/-- Surroundings in which callbacks may make any call. -/
def Environment.lenient (E : Environment σ Q A C M) : Environment σ Q A C M :=
  { E with enters := fun _ _ _ => true }

/-- A callback that follows its script is one of those that make any calls. -/
theorem System.follow_step {c next : Scripted σ Q A C M} {move : Move σ Q A C M}
    (followed : T.follow E script c move = some next) :
    ∃ move, T.step E.lenient c.config move = some next.config := by
  obtain ⟨⟨s,stack⟩,scripts⟩ := c
  match stack with
  | [] => cases followed
  | .user t :: rest =>
    simp only [follow] at followed
    split at followed
    · cases followed
      exact ⟨.leave,rfl⟩
    · next m _ _ =>
      cases followed
      exact ⟨.enter m,rfl⟩
    · cases followed
  | .code p :: rest =>
    obtain ⟨config,stepped,rfl⟩ := Option.map_eq_some_iff.mp followed
    have same : T.step E.lenient ⟨s,.code p :: rest⟩ move = T.step E ⟨s,.code p :: rest⟩ move := by
      cases p <;> cases move <;> rfl
    refine ⟨move,same.trans (stepped.trans (congrArg some ?_))⟩
    cases p <;> rfl

/-- Every run that follows the scripts comes to its end, in a state with `post`. -/
inductive Finishes (post : σ → Prop) : Scripted σ Q A C M → Prop where
  | back (s : σ) : post s → Finishes post ⟨⟨s,[]⟩,[]⟩
  | step (s : σ) (top : Frame σ Q A C M) (k : List (Frame σ Q A C M)) (scripts : List (List M)) :
      (∃ move next, T.follow E script ⟨⟨s,top :: k⟩,scripts⟩ move = some next) →
      (∀ move next, T.follow E script ⟨⟨s,top :: k⟩,scripts⟩ move = some next → Finishes post next) →
      Finishes post ⟨⟨s,top :: k⟩,scripts⟩

end Follow

section Rules
variable {T : System σ Q A C M} {E : Environment σ Q A C M} {script : C → List M} {post : σ → Prop}
  {s : σ} {k : List (Frame σ Q A C M)} {scripts : List (List M)}

/-- Where one step is the only one possible, it decides. -/
theorem finishes_only {top : Frame σ Q A C M} {next : Scripted σ Q A C M}
    (stepped : ∃ move, T.follow E script ⟨⟨s,top :: k⟩,scripts⟩ move = some next)
    (only : ∀ move other, T.follow E script ⟨⟨s,top :: k⟩,scripts⟩ move = some other → other = next) :
    Finishes T E script post ⟨⟨s,top :: k⟩,scripts⟩ ↔ Finishes T E script post next := by
  obtain ⟨move,stepped⟩ := stepped
  constructor
  · intro finishes
    cases finishes with
    | step _ _ _ _ _ all => exact all move next stepped
  · intro finishes
    refine .step s top k scripts ⟨move,next,stepped⟩ fun other after took => ?_
    rw [only other after took]
    exact finishes

theorem finishes_back : Finishes T E script post ⟨⟨s,[]⟩,[]⟩ ↔ post s := by
  constructor
  · intro finishes
    cases finishes with
    | back _ holds => exact holds
  · exact .back s

theorem finishes_leave {t : C} : Finishes T E script post ⟨⟨s,.user t :: k⟩,[] :: scripts⟩ ↔
    Finishes T E script post ⟨⟨s,k⟩,scripts⟩ :=
  finishes_only ⟨.leave,rfl⟩ fun move other took => by cases move <;> cases took; rfl

theorem finishes_enter {t : C} {m : M} {calls : List M} :
    Finishes T E script post ⟨⟨s,.user t :: k⟩,(m :: calls) :: scripts⟩ ↔
      Finishes T E script post ⟨⟨T.began m s,.code (T.body m) :: .user t :: k⟩,calls :: scripts⟩ :=
  finishes_only ⟨.advance,rfl⟩ fun move other took => by cases move <;> cases took; rfl

theorem finishes_done {value : Unit} : Finishes T E script post ⟨⟨s,.code (pure value) :: k⟩,scripts⟩ ↔
    Finishes T E script post ⟨⟨s,k⟩,scripts⟩ :=
  finishes_only ⟨.advance,rfl⟩ fun move other took => by cases move <;> cases took; rfl

theorem finishes_read {f : σ → Prog σ Q A C M Unit} :
    Finishes T E script post ⟨⟨s,.code (Prog.read >>= f) :: k⟩,scripts⟩ ↔
      Finishes T E script post ⟨⟨s,.code (f s) :: k⟩,scripts⟩ :=
  finishes_only ⟨.advance,rfl⟩ fun move other took => by cases move <;> cases took; rfl

theorem finishes_modify {g : σ → σ} {f : Unit → Prog σ Q A C M Unit} :
    Finishes T E script post ⟨⟨s,.code (Prog.modify g >>= f) :: k⟩,scripts⟩ ↔
      Finishes T E script post ⟨⟨g s,.code (f ()) :: k⟩,scripts⟩ := by
  refine Iff.trans (finishes_only ⟨.advance,rfl⟩ fun move other took => ?_)
    (finishes_only ⟨.advance,rfl⟩ fun move other took => ?_)
  · cases move <;> cases took; rfl
  · cases move <;> cases took; rfl

theorem finishes_run {m : M} {f : Unit → Prog σ Q A C M Unit} :
    Finishes T E script post ⟨⟨s,.code (Prog.run m >>= f) :: k⟩,scripts⟩ ↔
      Finishes T E script post ⟨⟨T.began m s,.code (T.body m) :: .code (f ()) :: k⟩,scripts⟩ :=
  finishes_only ⟨.advance,rfl⟩ fun move other took => by cases move <;> cases took; rfl

theorem finishes_invoke {t : C} {f : Unit → Prog σ Q A C M Unit} :
    Finishes T E script post ⟨⟨s,.code (Prog.invoke t >>= f) :: k⟩,scripts⟩ ↔
      Finishes T E script post ⟨⟨T.invoked t s,.user t :: .code (f ()) :: k⟩,script t :: scripts⟩ :=
  finishes_only ⟨.advance,rfl⟩ fun move other took => by cases move <;> cases took; rfl

theorem finishes_query {q : Q} {f : A → Prog σ Q A C M Unit} :
    Finishes T E script post ⟨⟨s,.code (Prog.query q >>= f) :: k⟩,scripts⟩ ↔
      (∃ a, E.admits (active k) s q a = true) ∧ ∀ a, E.admits (active k) s q a = true →
        Finishes T E script post ⟨⟨T.answered q a s,.code (f a) :: k⟩,scripts⟩ := by
  have answer : ∀ a, E.admits (active k) s q a = true →
      T.follow E script ⟨⟨s,.code (Prog.query q >>= f) :: k⟩,scripts⟩ (.answer a) =
        some ⟨⟨T.answered q a s,.code (f a) :: k⟩,scripts⟩ := by
    intro a admitted
    exact Option.map_eq_some_iff.mpr ⟨_,if_pos admitted,rfl⟩
  have only : ∀ move next, T.follow E script ⟨⟨s,.code (Prog.query q >>= f) :: k⟩,scripts⟩ move = some next →
      ∃ a, move = .answer a ∧ E.admits (active k) s q a = true := by
    intro move next took
    cases move with
    | answer a =>
      obtain ⟨_,stepped,_⟩ := Option.map_eq_some_iff.mp took
      refine ⟨a,rfl,?_⟩
      by_contra refused
      exact Option.some_ne_none _ (stepped.symm.trans (if_neg refused))
    | _ => cases took
  constructor
  · intro finishes
    cases finishes with
    | step _ _ _ _ possible all =>
      obtain ⟨move,next,took⟩ := possible
      obtain ⟨a,_,admitted⟩ := only move next took
      exact ⟨⟨a,admitted⟩,fun a admitted => all _ _ (answer a admitted)⟩
  · rintro ⟨⟨a,admitted⟩,all⟩
    refine .step _ _ _ _ ⟨_,_,answer a admitted⟩ fun move next took => ?_
    obtain ⟨a,rfl,admitted⟩ := only move next took
    rw [answer a admitted] at took
    cases took
    exact all a admitted

theorem finishes_last {p : Prog σ Q A C M Unit} :
    Finishes T E script post ⟨⟨s,.code p :: k⟩,scripts⟩ ↔
      Finishes T E script post ⟨⟨s,.code (p >>= pure) :: k⟩,scripts⟩ := by
  have same : p >>= pure = p := Prog.bind_done p
  rw [same]

end Rules
end Reentrant
