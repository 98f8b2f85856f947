import Mathlib.Data.List.Basic

/-! Runs of a system that takes one move after another, where a move may be refused. -/
namespace Transition

variable {σ μ : Type} (step : σ → μ → Option σ) (allowed : μ → Prop)

def exec : List μ → σ → Option σ
  | [],s => some s
  | move :: moves,s => (step s move).bind (exec moves)

/-- `s` occurs in a run from `start` made of allowed moves. -/
def Reachable (start s : σ) : Prop :=
  ∃ moves, (∀ move ∈ moves, allowed move) ∧ exec step moves start = some s

variable {step allowed}

theorem exec_append (first second : List μ) (s : σ) :
    exec step (first ++ second) s = (exec step first s).bind (exec step second) := by
  induction first generalizing s with
  | nil => rfl
  | cons move moves ih =>
    simp only [List.cons_append,exec]
    cases step s move with
    | none => rfl
    | some next => exact ih next

theorem Reachable.start (s : σ) : Reachable step allowed s s :=
  ⟨[],fun _ among => (by cases among),rfl⟩

theorem Reachable.exec {start s later : σ} {moves : List μ} (reached : Reachable step allowed start s)
    (run : Transition.exec step moves s = some later) (good : ∀ move ∈ moves, allowed move) :
    Reachable step allowed start later := by
  obtain ⟨first,fine,ran⟩ := reached
  refine ⟨first ++ moves,?_,?_⟩
  · intro move among
    rcases List.mem_append.mp among with before | after
    · exact fine move before
    · exact good move after
  · rw [exec_append,ran]
    exact run

theorem Reachable.trans {start s later : σ} (reached : Reachable step allowed start s)
    (onward : Reachable step allowed s later) : Reachable step allowed start later := by
  obtain ⟨moves,good,run⟩ := onward
  exact reached.exec run good

/-- What every allowed move keeps holds in every state reached. -/
theorem Reachable.invariant {start s : σ} (reached : Reachable step allowed start s) (property : σ → Prop)
    (preserved : ∀ s move next, allowed move → property s → step s move = some next → property next)
    (initial : property start) : property s := by
  obtain ⟨moves,good,run⟩ := reached
  induction moves generalizing start with
  | nil =>
    cases run
    exact initial
  | cons move moves ih =>
    obtain ⟨next,stepped,rest⟩ := Option.bind_eq_some_iff.mp run
    have later := preserved start move next (good move List.mem_cons_self) initial stepped
    exact ih later (fun other among => good other (List.mem_cons_of_mem _ among)) rest

/-- `s` occurs in a run from `start` whose every move is allowed where it is made. -/
inductive Guarded (step : σ → μ → Option σ) (allowed : σ → μ → Prop) (start : σ) : σ → Prop
  | start : Guarded step allowed start start
  | move {s next : σ} {move : μ} (reached : Guarded step allowed start s) (good : allowed s move)
      (stepped : step s move = some next) : Guarded step allowed start next

end Transition
