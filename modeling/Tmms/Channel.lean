import Tmms.Transition

/-! Two systems, the second of which takes what the first has put between them. Each takes its own
steps in any interleaving; a step of the second has to fit the state the first is in. -/
namespace Channel

open Transition

variable {α β μ ν : Type}

inductive Move (μ ν : Type) where
  | left (move : μ)
  | right (move : ν)

def Move.left? : Move μ ν → Option μ
  | .left move => some move
  | .right _ => none

def Move.right? : Move μ ν → Option ν
  | .left _ => none
  | .right move => some move

section Step
variable (left : α → μ → Option α) (right : β → ν → Option β) (fits : α → β → Bool)

def step (s : α × β) : Move μ ν → Option (α × β)
  | .left move => (left s.1 move).map fun next => (next,s.2)
  | .right move => (right s.2 move).bind fun next => if fits s.1 next then some (s.1,next) else none

variable {left right fits} {s t : α × β} {moves : List (Move μ ν)}

theorem step_left {move : μ} (stepped : step left right fits s (.left move) = some t) :
    left s.1 move = some t.1 ∧ t.2 = s.2 := by
  obtain ⟨next,took,same⟩ := Option.map_eq_some_iff.mp stepped
  cases same
  exact ⟨took,rfl⟩

theorem step_right {move : ν} (stepped : step left right fits s (.right move) = some t) :
    right s.2 move = some t.2 ∧ t.1 = s.1 ∧ fits t.1 t.2 = true := by
  obtain ⟨next,took,same⟩ := Option.bind_eq_some_iff.mp stepped
  split at same
  · next fine => cases same; exact ⟨took,rfl,fine⟩
  · contradiction

/-- Each side has made a run of its own. -/
theorem exec_sides (run : exec (step left right fits) moves s = some t) :
    exec left (moves.filterMap Move.left?) s.1 = some t.1 ∧
      exec right (moves.filterMap Move.right?) s.2 = some t.2 := by
  induction moves generalizing s with
  | nil =>
    cases run
    exact ⟨rfl,rfl⟩
  | cons move moves ih =>
    obtain ⟨next,stepped,rest⟩ := Option.bind_eq_some_iff.mp run
    obtain ⟨first,second⟩ := ih rest
    cases move with
    | left move =>
      obtain ⟨took,same⟩ := step_left stepped
      rw [same] at second
      refine ⟨?_,second⟩
      change (left s.1 move).bind _ = _
      rw [took]
      exact first
    | right move =>
      obtain ⟨took,same,_⟩ := step_right stepped
      rw [same] at first
      refine ⟨first,?_⟩
      change (right s.2 move).bind _ = _
      rw [took]
      exact second

/-- What the second side has taken still fits when the first has gone on. -/
theorem exec_fits (property : α → Prop)
    (kept : ∀ a move next, property a → left a move = some next →
      property next ∧ ∀ b, fits a b = true → fits next b = true)
    (run : exec (step left right fits) moves s = some t) (initial : property s.1) (start : fits s.1 s.2 = true) :
    fits t.1 t.2 = true := by
  induction moves generalizing s with
  | nil =>
    cases run
    exact start
  | cons move moves ih =>
    obtain ⟨next,stepped,rest⟩ := Option.bind_eq_some_iff.mp run
    cases move with
    | left move =>
      obtain ⟨took,same⟩ := step_left stepped
      obtain ⟨later,grows⟩ := kept s.1 move next.1 initial took
      exact ih rest later (same ▸ grows s.2 start)
    | right move =>
      obtain ⟨_,same,fine⟩ := step_right stepped
      exact ih rest (same ▸ initial) fine

/-- The first side may go on by itself. -/
theorem exec_left {moves : List μ} {a next : α} (b : β) (run : exec left moves a = some next) :
    exec (step left right fits) (moves.map .left) (a,b) = some (next,b) := by
  induction moves generalizing a with
  | nil =>
    cases run
    rfl
  | cons move moves ih =>
    obtain ⟨after,stepped,rest⟩ := Option.bind_eq_some_iff.mp run
    change ((left a move).map _).bind _ = _
    rw [stepped]
    exact ih rest

/-- The second side may if what it takes fits in the end: it fits less where it has taken less. -/
theorem exec_right {moves : List ν} {b next : β} (a : α) (property : β → Prop)
    (kept : ∀ b move after, property b → right b move = some after →
      property after ∧ (fits a after = true → fits a b = true))
    (run : exec right moves b = some next) (initial : property b) (fine : fits a next = true) :
    exec (step left right fits) (moves.map .right) (a,b) = some (a,next) ∧ fits a b = true := by
  induction moves generalizing b with
  | nil =>
    cases run
    exact ⟨rfl,fine⟩
  | cons move moves ih =>
    obtain ⟨after,stepped,rest⟩ := Option.bind_eq_some_iff.mp run
    obtain ⟨later,shrinks⟩ := kept b move after initial stepped
    obtain ⟨ran,fits_⟩ := ih rest later
    refine ⟨?_,shrinks fits_⟩
    change ((right b move).bind _).bind _ = _
    rw [stepped,Option.bind_some,if_pos fits_]
    exact ran

end Step
end Channel
