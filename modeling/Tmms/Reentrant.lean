import Mathlib.Data.List.Basic

/-! Programs of an object whose surroundings may call it back. A method is a tree of
state accesses, system calls, calls of other methods and callbacks; the machine keeps a
stack, and whoever is on top of it acts. During a callback the user is on top and may
call any method the environment lets in, to any depth. -/
namespace Reentrant

/-- Method bodies over a state `σ`, system calls `Q` with answers `A`, callbacks `C` and
methods `M`. Loops of the source are methods that call themselves. -/
inductive Prog (σ Q A C M : Type) (α : Type) where
  | done (value : α)
  | get (next : σ → Prog σ Q A C M α)
  | set (state : σ) (next : Prog σ Q A C M α)
  | ask (query : Q) (next : A → Prog σ Q A C M α)
  | callback (target : C) (next : Prog σ Q A C M α)
  | call (method : M) (next : Prog σ Q A C M α)
  -- undefined behaviour: nothing is said about what follows
  | fault

variable {σ Q A C M α β : Type}

namespace Prog

def bind : Prog σ Q A C M α → (α → Prog σ Q A C M β) → Prog σ Q A C M β
  | .done value, f => f value
  | .get next, f => .get fun s => (next s).bind f
  | .set s next, f => .set s (next.bind f)
  | .ask q next, f => .ask q fun a => (next a).bind f
  | .callback c next, f => .callback c (next.bind f)
  | .call m next, f => .call m (next.bind f)
  | .fault, _ => .fault

instance : Monad (Prog σ Q A C M) where
  pure := .done
  bind := .bind

theorem bind_assoc (p : Prog σ Q A C M α) (f : α → Prog σ Q A C M β) (g : β → Prog σ Q A C M γ) :
    (p.bind f).bind g = p.bind fun value => (f value).bind g := by
  induction p with
  | done value => rfl
  | get next ih => exact congrArg Prog.get (funext fun s => ih s)
  | set s next ih => exact congrArg (Prog.set s) ih
  | ask q next ih => exact congrArg (Prog.ask q) (funext fun a => ih a)
  | callback c next ih => exact congrArg (Prog.callback c) ih
  | call m next ih => exact congrArg (Prog.call m) ih
  | fault => rfl

theorem bind_done (p : Prog σ Q A C M α) : p.bind .done = p := by
  induction p with
  | done value => rfl
  | get next ih => exact congrArg Prog.get (funext fun s => ih s)
  | set s next ih => exact congrArg (Prog.set s) ih
  | ask q next ih => exact congrArg (Prog.ask q) (funext fun a => ih a)
  | callback c next ih => exact congrArg (Prog.callback c) ih
  | call m next ih => exact congrArg (Prog.call m) ih
  | fault => rfl

def read : Prog σ Q A C M σ := .get .done
def modify (f : σ → σ) : Prog σ Q A C M Unit := .get fun s => .set (f s) (.done ())
def query (q : Q) : Prog σ Q A C M A := .ask q .done
def invoke (c : C) : Prog σ Q A C M Unit := .callback c (.done ())
def run (m : M) : Prog σ Q A C M Unit := .call m (.done ())

end Prog

/-- Bodies, and what the world outside records when something happens: a system call is
answered, a method begins, a callback is made. -/
structure System (σ Q A C M : Type) where
  body : M → Prog σ Q A C M Unit
  answered : Q → A → σ → σ
  began : M → σ → σ
  invoked : C → σ → σ

/-- The possible surroundings: which answers a system call may get, and which methods the
user may call. Both may depend on the callbacks in progress, innermost first. -/
structure Environment (σ Q A C M : Type) where
  admits : List C → σ → Q → A → Bool
  enters : List C → σ → M → Bool

inductive Frame (σ Q A C M : Type) where
  | code (rest : Prog σ Q A C M Unit)
  | user (target : C)

structure Config (σ Q A C M : Type) where
  state : σ
  stack : List (Frame σ Q A C M)

inductive Move (σ Q A C M : Type) where
  -- the user, at the bottom or inside a callback, calls a method
  | enter (method : M)
  | leave
  | answer (value : A)
  | advance

def active : List (Frame σ Q A C M) → List C
  | [] => []
  | .code _ :: rest => active rest
  | .user c :: rest => c :: active rest

/-- Nobody but the user can act: between two calls, or inside a callback. -/
def Config.controlled (c : Config σ Q A C M) : Prop :=
  match c.stack with
  | [] => True
  | .user _ :: _ => True
  | .code _ :: _ => False

theorem Config.controlled_of_nil {c : Config σ Q A C M} (idle : c.stack = []) : c.controlled := by
  rw [Config.controlled,idle]
  trivial

namespace System

variable (T : System σ Q A C M) (E : Environment σ Q A C M)

def enter (c : Config σ Q A C M) (m : M) : Option (Config σ Q A C M) :=
  if E.enters (active c.stack) c.state m then
    some ⟨T.began m c.state,.code (T.body m) :: c.stack⟩
  else none

def step (c : Config σ Q A C M) (move : Move σ Q A C M) : Option (Config σ Q A C M) :=
  match c.stack,move with
  | [],.enter m => T.enter E c m
  | .user _ :: _,.enter m => T.enter E c m
  | .user _ :: rest,.leave => some ⟨c.state,rest⟩
  | .code (.done _) :: rest,.advance => some ⟨c.state,rest⟩
  | .code (.get next) :: rest,.advance => some ⟨c.state,.code (next c.state) :: rest⟩
  | .code (.set s next) :: rest,.advance => some ⟨s,.code next :: rest⟩
  | .code (.ask q next) :: rest,.answer a =>
    if E.admits (active rest) c.state q a then
      some ⟨T.answered q a c.state,.code (next a) :: rest⟩
    else none
  | .code (.callback t next) :: rest,.advance =>
    some ⟨T.invoked t c.state,.user t :: .code next :: rest⟩
  | .code (.call m next) :: rest,.advance =>
    some ⟨T.began m c.state,.code (T.body m) :: .code next :: rest⟩
  | _,_ => none

def exec : List (Move σ Q A C M) → Config σ Q A C M → Option (Config σ Q A C M)
  | [],c => some c
  | move :: moves,c => (T.step E c move).bind (exec moves)

/-- `c` occurs in some run that starts with the user in control of `s`. -/
def Reachable (s : σ) (c : Config σ Q A C M) : Prop :=
  ∃ moves, T.exec E moves ⟨s,[]⟩ = some c

theorem exec_append (first second : List (Move σ Q A C M)) (c : Config σ Q A C M) :
    T.exec E (first ++ second) c = (T.exec E first c).bind (T.exec E second) := by
  induction first generalizing c with
  | nil => rfl
  | cons move moves ih =>
    simp only [List.cons_append,exec]
    cases T.step E c move with
    | none => rfl
    | some next => exact ih next

theorem Reachable.exec {T : System σ Q A C M} {E : Environment σ Q A C M} {s : σ}
    {c later : Config σ Q A C M} {moves : List (Move σ Q A C M)} (reached : T.Reachable E s c)
    (run : T.exec E moves c = some later) : T.Reachable E s later := by
  obtain ⟨first,ran⟩ := reached
  exact ⟨first ++ moves,by rw [exec_append,ran]; exact run⟩

/-- Where the code on top can go on by itself, nothing else can happen. -/
theorem step_forced {c next other : Config σ Q A C M} {move : Move σ Q A C M}
    (forced : T.step E c .advance = some next) (stepped : T.step E c move = some other) :
    move = .advance := by
  obtain ⟨s,stack⟩ := c
  match stack with
  | [] => cases forced
  | .user t :: rest => cases forced
  | .code p :: rest =>
    cases p with
    | ask q k => cases forced
    | fault => cases forced
    | _ =>
      cases move with
      | advance => rfl
      | _ => cases stepped

/-- A run takes the steps the code takes by itself, unless it ends among them. -/
theorem exec_forced (n : Nat) (moves : List (Move σ Q A C M)) (c between final : Config σ Q A C M)
    (forced : T.exec E (List.replicate n .advance) c = some between)
    (run : T.exec E moves c = some final) :
    (∃ rest, moves = List.replicate n .advance ++ rest) ∨ ∃ next, T.step E final .advance = some next := by
  induction n generalizing moves c with
  | zero => exact Or.inl ⟨moves,rfl⟩
  | succ n ih =>
    obtain ⟨next,stepped,further⟩ := Option.bind_eq_some_iff.mp forced
    cases moves with
    | nil =>
      cases run
      exact Or.inr ⟨next,stepped⟩
    | cons move moves =>
      obtain ⟨other,took,rest⟩ := Option.bind_eq_some_iff.mp run
      cases T.step_forced E stepped took
      rw [stepped] at took
      cases took
      rcases ih moves next further rest with ⟨tail,same⟩ | ends
      · exact Or.inl ⟨tail,congrArg (List.cons Move.advance) same⟩
      · exact Or.inr ends

/-- The user in control is not moved by the code. -/
theorem controlled_stays {c : Config σ Q A C M} (controlled : c.controlled) : T.step E c .advance = none := by
  obtain ⟨s,stack⟩ := c
  match stack,controlled with
  | [],_ => rfl
  | .user _ :: _,_ => rfl

theorem step_congr {E F : Environment σ Q A C M} (admits : E.admits = F.admits)
    (c : Config σ Q A C M) (move : Move σ Q A C M)
    (enters : ∀ m, move = .enter m → E.enters (active c.stack) c.state m = F.enters (active c.stack) c.state m) :
    T.step E c move = T.step F c move := by
  unfold step
  split
  case h_1 m stackEq => simp only [enter,enters m rfl]
  case h_2 m stackEq => simp only [enter,enters m rfl]
  case h_7 => simp only [admits]
  all_goals rfl

/-- A property of configurations kept by every step holds at the end of every run. -/
theorem exec_invariant (property : Config σ Q A C M → Prop)
    (preserved : ∀ c move next, property c → T.step E c move = some next → property next)
    (moves : List (Move σ Q A C M)) (c final : Config σ Q A C M) (initial : property c)
    (run : T.exec E moves c = some final) : property final := by
  induction moves generalizing c with
  | nil => cases run; exact initial
  | cons move moves ih =>
    obtain ⟨next,stepped,rest⟩ := Option.bind_eq_some_iff.mp run
    exact ih next (preserved c move next initial stepped) rest

def proceed (fuel : Nat) (c : Config σ Q A C M) : Config σ Q A C M :=
  match fuel with
  | 0 => c
  | fuel + 1 =>
    match T.step E c .advance with
    | none => c
    | some next => proceed fuel next

/-- Take the moves in order and let the code run on after each of them. -/
def play (fuel : Nat) : List (Move σ Q A C M) → Config σ Q A C M → Option (Config σ Q A C M)
  | [],c => some c
  | move :: moves,c => (T.step E c move).bind fun next => play fuel moves (T.proceed E fuel next)

theorem proceed_exec (fuel : Nat) (c : Config σ Q A C M) :
    ∃ moves, T.exec E moves c = some (T.proceed E fuel c) := by
  induction fuel generalizing c with
  | zero => exact ⟨[],rfl⟩
  | succ fuel ih =>
    cases stepped : T.step E c .advance with
    | none => exact ⟨[],by simp [exec,proceed,stepped]⟩
    | some next =>
      obtain ⟨moves,run⟩ := ih next
      exact ⟨.advance :: moves,by simp [exec,proceed,stepped,run]⟩

theorem play_exec (fuel : Nat) (script : List (Move σ Q A C M)) (c final : Config σ Q A C M)
    (played : T.play E fuel script c = some final) : ∃ moves, T.exec E moves c = some final := by
  induction script generalizing c with
  | nil => exact ⟨[],played⟩
  | cons move script ih =>
    obtain ⟨next,stepped,rest⟩ := Option.bind_eq_some_iff.mp played
    obtain ⟨silent,ran⟩ := T.proceed_exec E fuel next
    obtain ⟨moves,run⟩ := ih _ rest
    refine ⟨move :: (silent ++ moves),?_⟩
    simp [exec,stepped,exec_append,ran,run]

/-- A script that plays out reaches its last configuration. -/
theorem play_reachable (fuel : Nat) (script : List (Move σ Q A C M)) (s : σ)
    (c : Config σ Q A C M) (played : T.play E fuel script ⟨s,[]⟩ = some c) : T.Reachable E s c :=
  T.play_exec E fuel script ⟨s,[]⟩ c played

/-- A second script, in other surroundings, goes on from there. -/
theorem play_twice (F : Environment σ Q A C M) (fuel : Nat) (first second : List (Move σ Q A C M))
    (s : σ) (c final : Config σ Q A C M) (played : T.play E fuel first ⟨s,[]⟩ = some c)
    (further : T.play F fuel second c = some final) :
    T.Reachable E s c ∧ ∃ moves, T.exec F moves c = some final :=
  ⟨T.play_reachable E fuel first s c played,T.play_exec F fuel second c final further⟩

/-- In some run the code on top gets from `s` to `after` and yields `value`. -/
def Completes (ctx : List C) (p : Prog σ Q A C M α) (s : σ) (value : α) (after : σ) : Prop :=
  ∀ (next : α → Prog σ Q A C M Unit) (rest : List (Frame σ Q A C M)), active rest = ctx →
    ∃ moves, T.exec E moves ⟨s,.code (p.bind next) :: rest⟩ = some ⟨after,.code (next value) :: rest⟩

section Completes
variable {T E} {ctx : List C} {s after last : σ}

theorem completes_pure (value : α) : T.Completes E ctx (pure value) s value s :=
  fun _ _ _ => ⟨[],rfl⟩

theorem completes_read : T.Completes E ctx Prog.read s s s :=
  fun _ _ _ => ⟨[.advance],rfl⟩

theorem completes_modify (f : σ → σ) : T.Completes E ctx (Prog.modify f) s () (f s) :=
  fun _ _ _ => ⟨[.advance,.advance],rfl⟩

theorem completes_query {q : Q} {a : A} (admitted : E.admits ctx s q a = true) :
    T.Completes E ctx (Prog.query q) s a (T.answered q a s) :=
  fun _ rest inside => ⟨[.answer a],by
    subst inside
    simp only [exec,Prog.query,Prog.bind,step,admitted,if_true]
    rfl⟩

theorem completes_invoke (c : C) : T.Completes E ctx (Prog.invoke c) s () (T.invoked c s) :=
  fun _ _ _ => ⟨[.advance,.leave],rfl⟩

theorem completes_bind {p : Prog σ Q A C M α} {f : α → Prog σ Q A C M β} {value : α} {result : β}
    (first : T.Completes E ctx p s value after)
    (second : T.Completes E ctx (f value) after result last) :
    T.Completes E ctx (p >>= f) s result last := by
  intro next rest inside
  obtain ⟨moves,run⟩ := first (fun v => (f v).bind next) rest inside
  obtain ⟨more,further⟩ := second next rest inside
  refine ⟨moves ++ more,?_⟩
  change T.exec E (moves ++ more) ⟨s,.code ((p.bind f).bind next) :: rest⟩ = _
  rw [Prog.bind_assoc,exec_append,run]
  exact further

theorem completes_pos {c : Prop} [Decidable c] {p q : Prog σ Q A C M α} {value : α} (holds : c)
    (left : T.Completes E ctx p s value after) :
    T.Completes E ctx (if c then p else q) s value after := by
  rw [if_pos holds]
  exact left

theorem completes_neg {c : Prop} [Decidable c] {p q : Prog σ Q A C M α} {value : α} (fails : ¬c)
    (right : T.Completes E ctx q s value after) :
    T.Completes E ctx (if c then p else q) s value after := by
  rw [if_neg fails]
  exact right

theorem completes_run {m : M} (body : T.Completes E ctx (T.body m) (T.began m s) () after) :
    T.Completes E ctx (Prog.run m) s () after := by
  intro next rest inside
  obtain ⟨moves,run⟩ := body .done (.code (next ()) :: rest) inside
  rw [Prog.bind_done] at run
  refine ⟨.advance :: (moves ++ [.advance]),?_⟩
  change T.exec E (moves ++ [.advance]) ⟨T.began m s,.code (T.body m) :: .code (next ()) :: rest⟩ = _
  rw [exec_append,run]
  rfl

theorem step_enter {m : M} {stack : List (Frame σ Q A C M)}
    (controlled : (⟨s,stack⟩ : Config σ Q A C M).controlled) (enters : E.enters (active stack) s m = true) :
    T.step E ⟨s,stack⟩ (.enter m) = some ⟨T.began m s,.code (T.body m) :: stack⟩ := by
  match stack,controlled with
  | [],_ => exact if_pos enters
  | .user _ :: _,_ => exact if_pos enters

theorem completes_enter {m : M} {stack : List (Frame σ Q A C M)}
    (controlled : (⟨s,stack⟩ : Config σ Q A C M).controlled)
    (enters : E.enters (active stack) s m = true)
    (body : T.Completes E (active stack) (T.body m) (T.began m s) () after) :
    ∃ moves, T.exec E moves ⟨s,stack⟩ = some ⟨after,stack⟩ := by
  obtain ⟨moves,run⟩ := body .done stack rfl
  rw [Prog.bind_done] at run
  refine ⟨.enter m :: (moves ++ [.advance]),?_⟩
  rw [exec,step_enter controlled enters,Option.bind_some,exec_append,run]
  rfl

def Faults (T : System σ Q A C M) (E : Environment σ Q A C M) (ctx : List C) (p : Prog σ Q A C M α) (s : σ) :
    Prop :=
  ∀ (next : α → Prog σ Q A C M Unit) (rest : List (Frame σ Q A C M)), active rest = ctx →
    ∃ moves after more, T.exec E moves ⟨s,.code (p.bind next) :: rest⟩ = some ⟨after,.code .fault :: more⟩

theorem faults_fault : T.Faults E ctx (Prog.fault : Prog σ Q A C M α) s :=
  fun _ rest _ => ⟨[],s,rest,rfl⟩

theorem faults_bind {p : Prog σ Q A C M α} {f : α → Prog σ Q A C M β} {value : α}
    (first : T.Completes E ctx p s value after) (second : T.Faults E ctx (f value) after) :
    T.Faults E ctx (p >>= f) s := by
  intro next rest inside
  obtain ⟨moves,run⟩ := first (fun v => (f v).bind next) rest inside
  obtain ⟨more,last,stack,further⟩ := second next rest inside
  refine ⟨moves ++ more,last,stack,?_⟩
  change T.exec E (moves ++ more) ⟨s,.code ((p.bind f).bind next) :: rest⟩ = _
  rw [Prog.bind_assoc,exec_append,run]
  exact further

theorem faults_first {p : Prog σ Q A C M α} {f : α → Prog σ Q A C M β} (first : T.Faults E ctx p s) :
    T.Faults E ctx (p >>= f) s := by
  intro next rest inside
  change ∃ moves after more, T.exec E moves ⟨s,.code ((p.bind f).bind next) :: rest⟩ = _
  rw [Prog.bind_assoc]
  exact first (fun v => (f v).bind next) rest inside

theorem faults_pos {c : Prop} [Decidable c] {p q : Prog σ Q A C M α} (holds : c)
    (left : T.Faults E ctx p s) : T.Faults E ctx (if c then p else q) s := by
  rw [if_pos holds]
  exact left

theorem faults_neg {c : Prop} [Decidable c] {p q : Prog σ Q A C M α} (fails : ¬c)
    (right : T.Faults E ctx q s) : T.Faults E ctx (if c then p else q) s := by
  rw [if_neg fails]
  exact right

theorem faults_run {m : M} (body : T.Faults E ctx (T.body m) (T.began m s)) :
    T.Faults E ctx (Prog.run m) s := by
  intro next rest inside
  obtain ⟨moves,after,more,run⟩ := body .done (.code (next ()) :: rest) inside
  rw [Prog.bind_done] at run
  exact ⟨.advance :: moves,after,more,run⟩

theorem faults_enter {m : M} {stack : List (Frame σ Q A C M)}
    (controlled : (⟨s,stack⟩ : Config σ Q A C M).controlled) (enters : E.enters (active stack) s m = true)
    (body : T.Faults E (active stack) (T.body m) (T.began m s)) :
    ∃ moves after more, T.exec E moves ⟨s,stack⟩ = some ⟨after,.code .fault :: more⟩ := by
  obtain ⟨moves,after,more,run⟩ := body .done stack rfl
  rw [Prog.bind_done] at run
  refine ⟨.enter m :: moves,after,more,?_⟩
  rw [exec,step_enter controlled enters]
  exact run

end Completes

/-- A call of `m` comes next, from the user or from the code on top, and `rest` waits for it. -/
def Calls (c : Config σ Q A C M) (m : M) (rest : List (Frame σ Q A C M)) : Prop :=
  (c.controlled ∧ E.enters (active c.stack) c.state m = true ∧ rest = c.stack) ∨
    ∃ next below, c.stack = .code (.call m next) :: below ∧ rest = .code next :: below

def started (c : Config σ Q A C M) (m : M) (rest : List (Frame σ Q A C M)) : Config σ Q A C M :=
  ⟨T.began m c.state,.code (T.body m) :: rest⟩

theorem Calls.step {T : System σ Q A C M} {E : Environment σ Q A C M} {c : Config σ Q A C M} {m : M}
    {rest : List (Frame σ Q A C M)} (calls : Calls E c m rest) :
    ∃ move, T.step E c move = some (T.started c m rest) := by
  obtain ⟨s,stack⟩ := c
  rcases calls with ⟨controlled,enters,same⟩ | ⟨next,below,top,same⟩
  · cases same
    exact ⟨.enter m,step_enter controlled enters⟩
  · cases top
    subst same
    exact ⟨.advance,rfl⟩

end System
end Reentrant
