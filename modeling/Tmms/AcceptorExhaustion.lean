import Tmms.EventLoop
import Tmms.Exhaustion

/-! The acceptor on its edge-triggered descriptor. It accepts until `accept4` fails; on any
error but two it closes the descriptor and opens another one. -/
namespace Tmms.Network.Acceptor

open Reentrant Exhaustion

structure World where
  acceptor : Event
  -- the descriptor that `socket_opt_` has its own copy of
  socket_opt_ : Option Int
  accept_cb_ : Bool
  loop : EventLoop
  tenure : Tenure

def acceptorPtr : EventPtr := .acceptor 0

inductive Query where
  | accept (sock : Int)
  -- `SocketOpt::CreateNonblockingTcpSocket`, for either family
  | socket
  | close (fd : Int)
  deriving DecidableEq

inductive Callback where
  | accept
  deriving DecidableEq

inductive Method where
  | start
  | stop
  | onRead
  | readLoop
  | onError
  | onClose
  deriving DecidableEq

abbrev Code := Prog World Query Result Callback Method

def World.setFd (fd : Int) (s : World) : World := { s with acceptor := { s.acceptor with fd_ := fd } }

def World.addEvent (s : World) : World :=
  let added := s.loop.addEvent acceptorPtr s.acceptor
  { s with acceptor := added.1, loop := added.2 }

def World.delEvent (s : World) : World := { s with loop := s.loop.delEvent s.acceptor }

/-- Without a socket the process ends. What `bind` and `listen` give back is not looked at. -/
def open_ : Code Unit := do
  let s ← Prog.read
  if s.acceptor.fd_ > 0 then do
    let _ ← Prog.query (.close s.acceptor.fd_)
    Prog.modify (·.setFd (-1))
  let socket ← Prog.query .socket
  Prog.modify (·.setFd socket.ret)
  if socket.ret < 0 then .fault
  else do
    Prog.modify (·.addEvent)
    Prog.modify fun s => { s with socket_opt_ := some s.acceptor.fd_ }

def onClose : Code Unit := do
  Prog.modify (·.delEvent)
  open_

/-- Calling an empty `accept_cb_` throws, and nothing catches it. -/
def readLoop : Code Unit := do
  let s ← Prog.read
  match s.socket_opt_ with
  | none => .fault
  | some sock_ => do
    let sock ← Prog.query (.accept sock_)
    if sock.ret ≥ 0 then
      if s.accept_cb_ then do
        Prog.invoke .accept
        Prog.run .readLoop
      else .fault
    else if sock.errno ≠ EINTR ∧ sock.errno ≠ EAGAIN then Prog.run .onClose
    else pure ()

def body : Method → Code Unit
  | .start => open_
  | .stop => Prog.modify (·.delEvent)
  | .onRead => Prog.run .readLoop
  | .readLoop => readLoop
  | .onError => Prog.run .onClose
  | .onClose => onClose

def Query.effect (q : Query) (a : Result) : Kernel → Kernel :=
  match q with
  | .close fd => .close fd
  | .accept _ | .socket => if 0 ≤ a.ret then .opens a.ret else id

def answered (q : Query) (a : Result) (s : World) : World where
  acceptor := s.acceptor
  socket_opt_ := s.socket_opt_
  accept_cb_ := s.accept_cb_
  loop := { s.loop with kernel := q.effect a s.loop.kernel }
  tenure :=
    match q with
    | .accept sock_ => s.tenure.returned sock_ a
    | .socket => s.tenure
    | .close fd => s.tenure.close fd

def system : System World Query Result Callback Method := ⟨body,answered,fun _ s => s,fun _ s => s⟩

/-- The handler runs by itself, with any answers of the system; inside the callback the
application starts and stops the acceptor. -/
def application : Environment World Query Result Callback Method where
  admits := fun _ _ _ _ => true
  enters := fun ctx _ m => !ctx.isEmpty && (m == .start || m == .stop)

structure Dispatched (s : World) : Prop where
  descriptor : s.acceptor.fd_ > 0
  socket_opt_ : s.socket_opt_ = some s.acceptor.fd_
  tenure : s.tenure = .start s.acceptor.fd_

def Returns (m : Method) (s after : World) : Prop :=
  ∃ moves, system.exec application moves (system.started ⟨s,[]⟩ m []) = some ⟨after,[]⟩

structure Held (s : World) : Prop where
  descriptor : s.acceptor.fd_ > 0
  socket_opt_ : s.socket_opt_ = some s.acceptor.fd_
  tenure : s.tenure.Holds s.acceptor.fd_

def Placed (s : World) : Prop := Held s ∨ s.tenure.Gone

def acceptContract : Contract World Query Callback Method where
  inv := fun _ => Placed
  rely := fun _ s after => Aside s.tenure.history after.tenure.history
  pre := fun _ m s =>
    match m with
    | .readLoop => Placed s ∧ ∀ a ∈ outcomes s.tenure.history, 0 ≤ a.ret
    | .onRead | .onError => False
    | _ => Placed s
  post := fun _ m s after =>
    match m with
    | .readLoop => Exhausted .acceptorOnRead after.tenure.history ↔ ¬Interrupted after.tenure.history
    | .start | .onClose => after.tenure.Gone ∧ Aside s.tenure.history after.tenure.history
    | _ => Placed after ∧ Aside s.tenure.history after.tenure.history
  asks := fun _ _ _ => True
  mayFault := True

section Handlers
variable (ctx : List Callback) (s : World)

theorem Held.delEvent {s : World} (held : Held s) : Held s.delEvent :=
  ⟨held.descriptor,held.socket_opt_,held.tenure⟩

theorem Placed.accepted {s : World} (placed : Placed s) {sock_ : Int} (opt : s.socket_opt_ = some sock_) (a : Result) :
    Placed (answered (.accept sock_) a s) := by
  rcases placed with held | gone
  · have mine : sock_ = s.acceptor.fd_ := Option.some.inj (opt.symm.trans held.socket_opt_)
    subst mine
    exact Or.inl ⟨held.descriptor,held.socket_opt_,held.tenure.returned⟩
  · refine Or.inr ?_
    change (s.tenure.returned sock_ a).Gone
    rw [gone.returned_eq]
    exact gone

/-- `Open` first closes the descriptor that is held. -/
theorem open_gone (placed : Placed s) :
    wp system application acceptContract ctx open_
      (fun _ after => after.tenure.Gone ∧ Aside s.tenure.history after.tenure.history) s := by
  simp only [open_,wp_bind,wp_read,wp_ite,wp_query,wp_modify,wp_fault]
  refine ⟨fun _ => ⟨trivial,fun b _ => ⟨trivial,fun a _ => ⟨fun _ => trivial,fun _ => ?_⟩⟩⟩,fun without =>
    ⟨trivial,fun a _ => ⟨fun _ => trivial,fun _ => ?_⟩⟩⟩
  · refine ⟨?_,Tenure.aside_close⟩
    change (s.tenure.close s.acceptor.fd_).Gone
    rcases placed with held | gone
    · exact held.tenure.close
    · rw [gone.close_eq]
      exact gone
  · rcases placed with held | gone
    · exact absurd held.descriptor without
    · exact ⟨gone,Aside.refl⟩

theorem readLoop_exhausts (placed : Placed s) (accepted : ∀ a ∈ outcomes s.tenure.history, 0 ≤ a.ret) :
    wp system application acceptContract ctx readLoop
      (fun _ after => Exhausted .acceptorOnRead after.tenure.history ↔ ¬Interrupted after.tenure.history) s := by
  have before := not_interrupted_of_nonneg accepted
  rw [readLoop,wp_bind,wp_read]
  cases opt : s.socket_opt_ with
  | none => trivial
  | some sock_ =>
    simp only [wp_bind,wp_query,wp_ite,wp_invoke,wp_run,wp_fault,wp_pure]
    refine ⟨trivial,fun a _ => ⟨fun nonneg => ⟨fun _ => ?_,fun _ => trivial⟩,fun negative => ⟨fun fails => ?_,fun passing => ?_⟩⟩⟩
    · refine ⟨placed.accepted opt a,fun after aside inv => ⟨⟨inv,fun b among => ?_⟩,fun _ done => done⟩⟩
      rw [aside.outcomes] at among
      rcases Tenure.mem_returned among with old | rfl
      · exact accepted b old
      · exact nonneg
    · refine ⟨placed.accepted opt a,fun after done => iff_of_true (exhausted_released done.1.released) ?_⟩
      rw [Interrupted,done.2.outcomes]
      rintro ⟨b,among,failing⟩
      rcases Tenure.mem_returned among with old | rfl
      · exact before ⟨b,old,failing⟩
      · exact fails.1 failing.2
    · change Exhausted .acceptorOnRead (s.tenure.returned sock_ a).history ↔
        ¬Interrupted (s.tenure.returned sock_ a).history
      rcases placed with held | gone
      · have mine : sock_ = s.acceptor.fd_ := Option.some.inj (opt.symm.trans held.socket_opt_)
        subst mine
        have passes : blocked a ↔ ¬interrupted a := by
          apply blocked_iff (by omega)
          simp only [fatal,Bool.and_eq_false_iff,bne_eq_false_iff_eq]
          exact Or.inl (by simpa [Classical.or_iff_not_imp_left] using passing)
        rw [held.tenure.returned_eq,exhausted_last (fun same => by cases same) held.tenure.released,interrupted_append]
        simp [before,← passes,EdgeHandler.stream]
      · rw [gone.returned_eq]
        exact iff_of_true (exhausted_released gone.released) before

theorem accept_sound : acceptContract.Sound system application where
  rely_refl := fun _ _ => Aside.refl
  rely_trans := fun _ _ _ _ => Aside.trans
  body := by
    intro ctx m s pre
    cases m with
    | start => exact open_gone ctx s pre
    | stop => exact ⟨pre.imp_left Held.delEvent,Aside.refl⟩
    | readLoop => exact readLoop_exhausts ctx s pre.1 pre.2
    | onClose => exact open_gone ctx s.delEvent (pre.imp_left Held.delEvent)
    | onRead | onError => exact pre.elim
  enter := by
    intro ctx m s placed allowed
    have entered := (Bool.and_eq_true_iff.mp allowed).2
    cases m <;> first | exact placed | cases entered
  leave := by
    intro ctx m s after placed allowed done
    have entered := (Bool.and_eq_true_iff.mp allowed).2
    cases m <;> first | exact done | exact ⟨Or.inr done.1,done.2⟩ | cases entered

end Handlers

/-- The acceptor that returns has left nothing behind exactly if nothing interrupted it. -/
theorem accept_returns_iff (s after : World) (dispatched : Dispatched s)
    (returns : Returns .onRead s after) :
    Exhausted .acceptorOnRead after.tenure.history ↔ ¬Interrupted after.tenure.history := by
  obtain ⟨moves,returned⟩ := returns
  have history : s.tenure.history = [] := by
    rw [dispatched.tenure]
    rfl
  have held : Held s := by
    refine ⟨dispatched.descriptor,dispatched.socket_opt_,?_⟩
    rw [dispatched.tenure]
    exact Tenure.start_holds
  have ends : wp system application acceptContract [] (body .onRead)
      (fun _ after => Exhausted .acceptorOnRead after.tenure.history ↔ ¬Interrupted after.tenure.history) s := by
    refine ⟨⟨Or.inl held,?_⟩,fun _ done => done⟩
    rw [history]
    exact fun _ among => by cases among
  exact exec_returned accept_sound (fun _ _ => rfl) ends returned

end Tmms.Network.Acceptor
