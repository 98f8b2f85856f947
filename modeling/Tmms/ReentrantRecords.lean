import Tmms.Channel
import Tmms.ReentrantRules

/-! What the world outside records of a reentrant system. Code does not write such a record; it
grows where a system call is answered, a method begins or a callback is made, and there the
contract says what holds. So what is true of the record is true at every step of a run, not only
where the user is in control. -/
namespace Reentrant

variable {σ Q A C M ρ : Type} {T : System σ Q A C M} {E : Environment σ Q A C M} {K : Contract σ Q C M}

/-- Runs are those of the transition system of single steps. -/
theorem System.exec_eq (T : System σ Q A C M) (E : Environment σ Q A C M) (moves : List (Move σ Q A C M))
    (c : Config σ Q A C M) : T.exec E moves c = Transition.exec (T.step E) moves c := by
  induction moves generalizing c with
  | nil => rfl
  | cons move moves ih =>
    rw [System.exec,Transition.exec]
    exact congrArg _ (funext ih)

theorem Prog.SteadyAt.mono {R S : σ → σ → Prop} {p : Prog σ Q A C M α} {s : σ} (steady : p.SteadyAt R s)
    (weaker : ∀ s after, R s after → S s after) : p.SteadyAt S s := by
  induction p generalizing s with
  | done value => trivial
  | get next ih => exact ih s steady
  | set state next ih => exact ⟨weaker _ _ steady.1,ih steady.2⟩
  | ask q next ih => exact fun a after => ih a (steady a after)
  | callback c next ih => exact fun after => ih (steady after)
  | call m next ih => exact fun after => ih (steady after)
  | fault => trivial

section Effects
variable {R : σ → σ → Prop}

theorem stack_steady_enter (bodies : ∀ m, (T.body m).Steady R) (c next : Config σ Q A C M) (m : M)
    (controlled : c.controlled) (steady : SteadyStack R c.stack c.state) (stepped : T.enter E c m = some next) :
    SteadyStack R next.stack next.state := by
  simp only [System.enter] at stepped
  split at stepped
  · cases stepped
    exact ⟨bodies m _,fun after => steady.controlled after controlled⟩
  · contradiction

/-- Code whose writes are steps of `R` stays such code, whatever else changes the state. -/
theorem stack_steady_step (bodies : ∀ m, (T.body m).Steady R) (c next : Config σ Q A C M) (move : Move σ Q A C M)
    (steady : SteadyStack R c.stack c.state) (stepped : T.step E c move = some next) :
    SteadyStack R next.stack next.state := by
  obtain ⟨s,stack⟩ := c
  unfold System.step at stepped
  split at stepped
  case h_1 m stackEq => cases stackEq; exact stack_steady_enter bodies ⟨s,[]⟩ next m trivial steady stepped
  case h_2 t rest m stackEq =>
    cases stackEq; exact stack_steady_enter bodies ⟨s,.user t :: rest⟩ next m trivial steady stepped
  case h_3 t rest stackEq => cases stackEq; cases stepped; exact steady s
  case h_4 value rest stackEq => cases stackEq; cases stepped; exact steady.2 s
  case h_5 k rest stackEq => cases stackEq; cases stepped; exact steady
  case h_6 state k rest stackEq => cases stackEq; cases stepped; exact ⟨steady.1.2,steady.2⟩
  case h_7 q k rest a stackEq =>
    cases stackEq
    split at stepped
    · cases stepped; exact ⟨steady.1 a _,steady.2⟩
    · contradiction
  case h_8 t k rest stackEq =>
    cases stackEq; cases stepped; exact fun after => ⟨steady.1 after,steady.2⟩
  case h_9 m k rest stackEq =>
    cases stackEq; cases stepped; exact ⟨bodies m _,fun after => ⟨steady.1 after,steady.2⟩⟩
  case h_10 => contradiction

/-- The method that begins with a step. -/
def beginning (c : Config σ Q A C M) (move : Move σ Q A C M) : Option M :=
  match c.stack,move with
  | _,.enter m => some m
  | .code (.call m _) :: _,.advance => some m
  | _,_ => none

/-- What a step can do to the state `s`: a write of its own, or what the world records. -/
inductive Effect (T : System σ Q A C M) (E : Environment σ Q A C M) (R : σ → σ → Prop) (s : σ) : Option M → σ → Prop where
  | own (after : σ) (steady : R s after) : Effect T E R s none after
  | answered (ctx : List C) (q : Q) (a : A) (admitted : E.admits ctx s q a = true) :
    Effect T E R s none (T.answered q a s)
  | began (m : M) : Effect T E R s (some m) (T.began m s)
  | invoked (t : C) : Effect T E R s none (T.invoked t s)

theorem step_effect (refl : ∀ s, R s s) (c next : Config σ Q A C M) (move : Move σ Q A C M)
    (steady : SteadyStack R c.stack c.state) (stepped : T.step E c move = some next) :
    Effect T E R c.state (beginning c move) next.state := by
  obtain ⟨s,stack⟩ := c
  unfold System.step at stepped
  split at stepped
  case h_1 m stackEq =>
    cases stackEq
    simp only [System.enter] at stepped
    split at stepped
    · cases stepped; exact .began m
    · contradiction
  case h_2 t rest m stackEq =>
    cases stackEq
    simp only [System.enter] at stepped
    split at stepped
    · cases stepped; exact .began m
    · contradiction
  case h_3 t rest stackEq => cases stackEq; cases stepped; exact .own s (refl s)
  case h_4 value rest stackEq => cases stackEq; cases stepped; exact .own s (refl s)
  case h_5 k rest stackEq => cases stackEq; cases stepped; exact .own s (refl s)
  case h_6 state k rest stackEq => cases stackEq; cases stepped; exact .own state steady.1.1
  case h_7 q k rest a stackEq =>
    cases stackEq
    split at stepped
    · next admitted => cases stepped; exact .answered _ q a admitted
    · contradiction
  case h_8 t k rest stackEq => cases stackEq; cases stepped; exact .invoked t
  case h_9 m k rest stackEq => cases stackEq; cases stepped; exact .began m
  case h_10 => contradiction

end Effects

structure Contract.Records (K : Contract σ Q C M) (T : System σ Q A C M) (E : Environment σ Q A C M)
    (record : σ → ρ) (property : ρ → Prop) : Prop where
  quiet : ∀ m, (T.body m).Steady fun s after => record after = record s
  answered : ∀ ctx q a s, K.asks ctx q s → E.admits ctx s q a = true → property (record s) →
    property (record (T.answered q a s))
  began : ∀ ctx m s, K.pre ctx m s → property (record s) → property (record (T.began m s))
  invoked : ∀ ctx t s, K.inv (t :: ctx) (T.invoked t s) → property (record s) → property (record (T.invoked t s))

section Recorded
variable {record : σ → ρ} {property : ρ → Prop}

theorem recorded_enter (sound : K.Sound T E) (records : K.Records T E record property) (c next : Config σ Q A C M)
    (m : M) (controlled : c.controlled) (holds : Holds T E K c.stack c.state) (recorded : property (record c.state))
    (stepped : T.enter E c m = some next) : property (record next.state) := by
  simp only [System.enter] at stepped
  split at stepped
  · next allowed =>
    cases stepped
    exact records.began _ m _ (sound.enter _ m _ (holds_controlled _ _ controlled holds) allowed) recorded
  · contradiction

theorem recorded_step (sound : K.Sound T E) (records : K.Records T E record property) (c next : Config σ Q A C M)
    (move : Move σ Q A C M) (holds : Holds T E K c.stack c.state)
    (steady : SteadyStack (fun s after => record after = record s) c.stack c.state)
    (recorded : property (record c.state)) (stepped : T.step E c move = some next) :
    property (record next.state) := by
  obtain ⟨s,stack⟩ := c
  unfold System.step at stepped
  split at stepped
  case h_1 m stackEq =>
    cases stackEq
    exact recorded_enter sound records ⟨s,[]⟩ next m trivial holds recorded stepped
  case h_2 t rest m stackEq =>
    cases stackEq
    exact recorded_enter sound records ⟨s,.user t :: rest⟩ next m trivial holds recorded stepped
  case h_3 t rest stackEq => cases stackEq; cases stepped; exact recorded
  case h_4 value rest stackEq => cases stackEq; cases stepped; exact recorded
  case h_5 k rest stackEq => cases stackEq; cases stepped; exact recorded
  case h_6 state k rest stackEq =>
    cases stackEq; cases stepped
    have same : record state = record s := steady.1.1
    exact same ▸ recorded
  case h_7 q k rest a stackEq =>
    cases stackEq
    split at stepped
    · next admitted => cases stepped; exact records.answered _ q a s holds.1 admitted recorded
    · contradiction
  case h_8 t k rest stackEq => cases stackEq; cases stepped; exact records.invoked _ t s holds.1 recorded
  case h_9 m k rest stackEq => cases stackEq; cases stepped; exact records.began _ m s holds.1 recorded
  case h_10 => contradiction

/-- The record has the property in every configuration of every run. -/
theorem reachable_recorded (sound : K.Sound T E) (records : K.Records T E record property) (s : σ)
    (c : Config σ Q A C M) (initial : K.inv [] s) (start : property (record s)) (reached : T.Reachable E s c) :
    property (record c.state) := by
  obtain ⟨moves,run⟩ := reached
  have all := T.exec_invariant E
    (fun c => Holds T E K c.stack c.state ∧ SteadyStack (fun s after => record after = record s) c.stack c.state ∧
      property (record c.state))
    (fun c move next before stepped => ⟨holds_step sound c next move before.1 stepped,
      stack_steady_step records.quiet c next move before.2.1 stepped,
      recorded_step sound records c next move before.1 before.2.1 before.2.2 stepped⟩)
    moves ⟨s,[]⟩ c ⟨initial,trivial,start⟩ run
  exact all.2.2

end Recorded

section Carried
variable {α β μ ν : Type} {R : σ → σ → Prop} {left : α → μ → Option α} {right : β → ν → Option β}
  {fits : α → β → Bool} {s t : α × β} {moves : List (Channel.Move μ ν)}

/-- Where the first side of a channel moves an object in steps of `R`, and what fits an object fits it
after such a step, what has been taken from the channel fits in the end. -/
theorem exec_carried (steady : T.Steady R) (object : α → Config σ Q A C M)
    (moved : ∀ a move next, left a move = some next →
      object next = object a ∨ ∃ step, T.step E (object a) step = some (object next))
    (kept : ∀ a next b, R (object a).state (object next).state → fits a b = true → fits next b = true)
    (run : Transition.exec (Channel.step left right fits) moves s = some t) (clean : (object s.1).stack = [])
    (start : fits s.1 s.2 = true) : fits t.1 t.2 = true := by
  refine Channel.exec_fits (fun a => SteadyStack R (object a).stack (object a).state) ?_ run ?_ start
  · intro a move next holds took
    rcases moved a move next took with same | ⟨step,stepped⟩
    · refine ⟨same ▸ holds,fun b => kept a next b ?_⟩
      rw [same]
      exact steady.refl _
    · obtain ⟨grows,later⟩ := steady_step steady (object a) (object next) step holds stepped
      exact ⟨later,fun b => kept a next b grows⟩
  · rw [clean]
    trivial

end Carried
end Reentrant
