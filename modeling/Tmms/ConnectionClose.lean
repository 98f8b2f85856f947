import Tmms.Connection

/-! How often a connection reports its end. `OnClose` makes the close callback before it
sets `closed_`, so the report is made once as long as the callback triggers no close
itself, and as often as the callback asks for it otherwise. -/
namespace Tmms.Network.Connection

open Reentrant TcpConnection

/-- Handlers, sends and closes in any order and from inside any callback, with any answers
of the system; `writev` reports at most the bytes it was shown. -/
def anyUse : Environment World Query Result Callback Method where
  admits := fun _ _ q a =>
    match q with
    | .writev _ vec => decide (a.ret ≤ total vec)
    | _ => true
  enters := fun _ _ m =>
    match m with
    | .readLoop | .writeLoop => false
    | _ => true

def quietClose : Environment World Query Result Callback Method where
  admits := fun ctx s q a => anyUse.admits ctx s q a && !(ctx.contains .close && ends q a)
  enters := fun ctx s m => anyUse.enters ctx s m && !(ctx.contains .close && closes m)

structure Reported (ctx : List Callback) (s : World) : Prop where
  once : s.closeCalls ≤ 1
  opened : Callback.close ∉ ctx → s.connection.closed_ = false → s.closeCalls = 0

def closeContract : Contract World Query Callback Method where
  inv := Reported
  rely := fun _ _ _ => True
  pre := fun ctx m s => Reported ctx s ∧ (closes m = true → Callback.close ∉ ctx)
  post := fun ctx _ _ after => Reported ctx after
  asks := fun _ _ _ => True
  mayFault := False

theorem Reported.congr {ctx : List Callback} {s after : World} (holds : Reported ctx s)
    (calls : after.closeCalls = s.closeCalls)
    (closed : after.connection.closed_ = s.connection.closed_) : Reported ctx after :=
  ⟨calls ▸ holds.once,fun outside opened => by
    rw [calls]; exact holds.opened outside (closed ▸ opened)⟩

/-- Only the close callback hides an unreported close. -/
theorem reported_cons {ctx : List Callback} {s : World} {c : Callback} (other : c ≠ .close) :
    Reported (c :: ctx) s ↔ Reported ctx s := by
  have same : Callback.close ∉ c :: ctx ↔ Callback.close ∉ ctx := by
    simp [Ne.symm other]
  constructor
  · intro holds
    exact ⟨holds.once,fun outside => holds.opened (same.mpr outside)⟩
  · intro holds
    exact ⟨holds.once,fun outside => holds.opened (same.mp outside)⟩

section Contract
variable (memory : Nat → UInt8) (ctx : List Callback) (s : World)

/-- A handler may close the connection only outside the close callback. -/
theorem quiet_ends {q : Query} {a : Result} (admitted : quietClose.admits ctx s q a = true)
    (ending : ends q a = true) : Callback.close ∉ ctx := by
  intro inside
  simp [quietClose,ending,inside] at admitted

theorem close_reported (holds : Reported ctx s) :
    wp (system memory) quietClose closeContract ctx (TcpConnection.close host)
      (fun _ after => Reported ctx after) s := by
  simp only [TcpConnection.close,host,update,wp_bind,wp_read,wp_pure,wp_ite,wp_query,wp_modify]
  exact ⟨fun _ => ⟨trivial,fun a _ => holds.congr rfl rfl⟩,fun _ => holds⟩

theorem onClose_reported (holds : Reported ctx s) (outside : Callback.close ∉ ctx) :
    wp (system memory) quietClose closeContract ctx (TcpConnection.onClose host)
      (fun _ after => Reported ctx after) s := by
  simp only [TcpConnection.onClose,host,update,wp_bind,wp_read,wp_pure,wp_ite,wp_invoke,wp_modify]
  refine ⟨?_,fun _ => holds⟩
  intro opened
  have unreported := holds.opened outside opened
  constructor
  · intro _
    refine ⟨⟨?_,fun inside => absurd List.mem_cons_self inside⟩,?_⟩
    · simp [system,invoked,unreported]
    · intro after _ inv
      exact close_reported memory ctx _ ⟨inv.once,fun _ reopened => by simp at reopened⟩
  · intro _
    exact close_reported memory ctx _ ⟨holds.once,fun _ reopened => by simp at reopened⟩

theorem callback_reported (c : Callback) (other : c ≠ .close) :
    Kept (system memory) quietClose closeContract ctx (Reported ctx) (Prog.invoke c)
      fun _ => True := by
  intro s holds
  refine ⟨(reported_cons other).mpr ?_,fun after _ inv => ⟨trivial,(reported_cons other).mp inv⟩⟩
  cases c with
  | close => contradiction
  | _ => exact holds

theorem run_reported (m : Method) (opens : closes m = true → Callback.close ∉ ctx) :
    Kept (system memory) quietClose closeContract ctx (Reported ctx) (Prog.run m)
      fun _ => True :=
  fun _ holds => ⟨⟨holds,opens⟩,fun _ done => ⟨trivial,done⟩⟩

theorem host_keeps :
    host.Keeps (system memory) quietClose closeContract ctx (Reported ctx)
      (fun _ => Callback.close ∉ ctx) where
  self := fun _ holds => ⟨trivial,holds⟩
  update := fun f plain s holds => ⟨trivial,holds.congr rfl (plain s.connection).2.1⟩
  messageCallback := callback_reported memory ctx .message (by decide)
  writeCompleteCallback := callback_reported memory ctx .writeComplete (by decide)
  write := fun _ _ _ s holds => ⟨trivial,fun _ _ => ⟨trivial,holds.congr rfl rfl⟩⟩
  writev := by
    intro fd vec s holds
    refine ⟨trivial,fun a admitted => ⟨⟨?_,?_⟩,holds.congr rfl rfl⟩⟩
    · have bound : anyUse.admits ctx s (.writev fd vec) a = true := (Bool.and_eq_true_iff.mp admitted).1
      simpa [anyUse] using bound
    · intro failed
      exact quiet_ends ctx s admitted (failed.ends fd vec)
  readFd := by
    intro fd s holds
    refine ⟨trivial,fun a admitted => ⟨fun ended => ?_,holds.congr rfl rfl⟩⟩
    exact quiet_ends ctx s admitted (ended.ends fd)
  enableWriting := fun on s holds => ⟨trivial,holds.congr (by simp) (by simp)⟩
  onClose := fun s holds => run_reported memory ctx .onClose (fun _ => holds.1) s holds.2
  readLoop := run_reported memory ctx .readLoop fun closing => by cases closing
  writeLoop := run_reported memory ctx .writeLoop fun closing => by cases closing

theorem began_reported (m : Method) (holds : Reported ctx s) : Reported ctx (began memory m s) := by
  cases m with
  | send buf size => simp only [began]; split <;> exact holds.congr rfl rfl
  | sendList list => simp only [began]; split <;> exact holds.congr rfl rfl
  | _ => exact holds

theorem body_reported (m : Method) (pre : closeContract.pre ctx m s) :
    wp (system memory) quietClose closeContract ctx (body host m)
      (fun _ after => Reported ctx after) (began memory m s) := by
  have holds := began_reported memory ctx s m pre.1
  by_cases itself : m = .onClose
  · subst itself
    exact onClose_reported memory ctx s holds (pre.2 rfl)
  · exact body_kept (host_keeps memory ctx) m itself _ holds pre.2

theorem close_sound : closeContract.Sound (system memory) quietClose where
  rely_refl := fun _ _ => trivial
  rely_trans := fun _ _ _ _ _ _ => trivial
  body := fun ctx m s => body_reported memory ctx s m
  enter := by
    intro ctx m s inv allowed
    constructor
    · exact inv
    intro closing inside
    simp [quietClose,closing,inside] at allowed
  leave := fun _ _ _ _ _ _ done => ⟨done,trivial⟩

end Contract

theorem close_straight : (TcpConnection.close host).Straight := by
  refine .bind (fun _ => trivial) fun this => ?_
  by_cases positive : this.fd_ > 0
  · rw [if_pos positive]
    exact fun _ _ => trivial
  · rw [if_neg positive]
    exact trivial

theorem onClose_straight : (body host .onClose).Straight := by
  refine .bind (fun _ => trivial) fun this => ?_
  by_cases opened : this.closed_ = false
  · rw [if_pos opened]
    by_cases reports : this.close_cb_ = true
    · rw [if_pos reports]
      exact .bind trivial fun _ => .bind (fun _ => trivial) fun _ => close_straight
    · rw [if_neg reports]
      exact .bind (fun _ => trivial) fun _ => close_straight
  · rw [if_neg opened]
    exact trivial

theorem quietClose_answers (ctx : List Callback) (s : World) (q : Query) :
    ∃ a, quietClose.admits ctx s q a = true := by
  refine ⟨⟨-1,EAGAIN,[]⟩,?_⟩
  have passes : ends q ⟨-1,EAGAIN,[]⟩ = false := by cases q <;> rfl
  have possible : anyUse.admits ctx s q ⟨-1,EAGAIN,[]⟩ = true := by
    cases q with
    | writev fd vec => simp only [anyUse,decide_eq_true_eq]; omega
    | _ => rfl
  simp only [quietClose,passes,possible,Bool.and_false,Bool.not_false,Bool.and_self]

/-- Where nothing closes the connection from inside its close callback, the callback is made
at most once in every run, and `OnClose` returns wherever it is called. -/
theorem close_callback_once (memory : Nat → UInt8) (s : World)
    (c : Config World Query Result Callback Method) (fresh : Fresh s)
    (reached : (system memory).Reachable quietClose s c) :
    (c.controlled → c.state.closeCalls ≤ 1) ∧
      ∀ rest, Returns (system memory) quietClose rest ⟨c.state,.code (body host .onClose) :: rest⟩ := by
  refine ⟨fun controlled => ?_,fun rest => onClose_straight.returns quietClose_answers c.state⟩
  have start : Reported [] s :=
    ⟨by rw [fresh.closeCalls]; exact Nat.zero_le 1,fun _ _ => fresh.closeCalls⟩
  have reported : Reported (active c.stack) c.state :=
    reachable_invariant (close_sound memory) s c start reached controlled
  exact reported.once

/-- A read that finds the end of the stream, then three more triggers. -/
theorem close_callback_once_eof :
    ∃ c : Config World Query Result Callback Method, c.state.closeCalls = 1 ∧ (c.controlled → c.state.closeCalls ≤ 1) ∧
      ∀ rest, Returns (system fun _ => 0) quietClose rest ⟨c.state,.code (body host .onClose) :: rest⟩ := by
  have reached := (system fun _ => 0).play_reachable quietClose 40
    [.enter .onRead,.answer ⟨0,0,[]⟩,.leave,.answer ⟨0,0,[]⟩,.enter .onError,.enter .onTimeout,
      .enter .forceClose] idle _ rfl
  exact ⟨_,by decide,close_callback_once _ idle _ idle_fresh reached⟩

/-- A close from inside the close callback makes the callback again, inside itself. -/
theorem nest_close (memory : Nat → UInt8) (s : World)
    (stack : List (Frame World Query Result Callback Method))
    (controlled : (⟨s,stack⟩ : Config World Query Result Callback Method).controlled)
    (opened : s.connection.closed_ = false) (reports : s.connection.close_cb_ = true) :
    ∃ k, (system memory).exec anyUse [.enter .forceClose,.advance,.advance,.advance] ⟨s,stack⟩ =
      some ⟨invoked .close s,.user .close :: .code k :: .code (.done ()) :: stack⟩ := by
  obtain ⟨⟨fd,event,closed,closing,message,complete,buffer,queue⟩,registered,interest,accepted,sent,calls⟩ := s
  cases opened
  cases reports
  match stack,controlled with
  | [],_ => exact ⟨_,rfl⟩
  | .user _ :: _,_ => exact ⟨_,rfl⟩

/-- The callback can be made any number of times, no `OnClose` having returned. -/
theorem close_callback_nested (depth : Nat) :
    ∃ c, (system fun _ => 0).Reachable anyUse idle c ∧ c.controlled ∧
      c.state.closeCalls = depth ∧ active c.stack = List.replicate depth .close ∧
      c.state.connection.closed_ = false ∧ c.state.connection.close_cb_ = true := by
  induction depth with
  | zero => exact ⟨⟨idle,[]⟩,⟨[],rfl⟩,trivial,rfl,rfl,rfl,rfl⟩
  | succ depth ih =>
    obtain ⟨⟨s,stack⟩,reached,controlled,calls,inside,opened,reports⟩ := ih
    obtain ⟨k,nested⟩ := nest_close (fun _ => 0) s stack controlled opened reports
    have deeper := reached.exec nested
    exact ⟨_,deeper,trivial,congrArg (· + 1) calls,congrArg (List.cons Callback.close) inside,opened,reports⟩

/-- The second report is made while the first is still running. -/
theorem close_callback_twice :
    ∃ c, (system fun _ => 0).Reachable anyUse idle c ∧ c.controlled ∧ c.state.closeCalls = 2 ∧
      active c.stack = [.close,.close] := by
  obtain ⟨c,reached,controlled,calls,inside,_⟩ := close_callback_nested 2
  exact ⟨c,reached,controlled,calls,inside⟩

end Tmms.Network.Connection
