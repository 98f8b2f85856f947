import Tmms.EventLoop
import Tmms.Exhaustion
import Tmms.UdpClose

/-! A UDP socket on its edge-triggered descriptor, a server's or a client's. It receives until
`recvfrom` fails; an interrupted call ends the loop like any other, and on a fatal error
`OnClose` does nothing. -/
namespace Tmms.Network.UdpExhaustion

open Reentrant Exhaustion

abbrev Kind := UdpClose.Kind

structure World where
  socket : UdpSocket
  connected_ : Bool
  connected_cb_ : Bool
  loop : EventLoop
  tenure : Tenure

def socketPtr : EventPtr := .connection 0

namespace World
variable (s : World)

def event : Event := ⟨s.socket.fd_,s.socket.event_⟩

def update (f : UdpSocket → UdpSocket) : World := { s with socket := f s.socket }

def enableWriting (on : Bool) : World :=
  match s.loop.enableEvent kEventWrite s.event on with
  | none => s
  | some (e,loop) => { s.update fun c => { c with event_ := e.event_ } with loop := loop }

def addEvent : World :=
  let added := s.loop.addEvent socketPtr s.event
  { s.update fun c => { c with event_ := added.1.event_ } with loop := added.2 }

def delEvent : World := { s with loop := s.loop.delEvent s.event }

end World

inductive Query where
  | io (q : UdpSocket.Query)
  | socket
  deriving DecidableEq

inductive Callback where
  | io (t : UdpSocket.Callback)
  | connected
  deriving DecidableEq

inductive Method where
  | io (m : UdpSocket.Method)
  | start
  | stop
  | connect
  deriving DecidableEq

abbrev Code := Prog World Query Result Callback Method

def host : UdpHost World Query Result Callback Method where
  self := do return (← Prog.read).socket
  update := fun f => .modify (·.update f)
  closeCallback := .invoke (.io .close)
  messageCallback := .invoke (.io .message)
  writeCompleteCallback := .invoke (.io .writeComplete)
  sendto := fun fd buf size addr len => .query (.io (.sendto fd buf size addr len))
  recvfrom := fun fd size => .query (.io (.recvfrom fd size))
  closeFd := fun fd => do let _ ← Prog.query (.io (.close fd))
  enableWriting := fun on => .modify (·.enableWriting on)
  lockEntry := do return (← Prog.query (.io .lockEntry)).ret ≠ 0
  insertEntry := fun delay => do let _ ← Prog.query (.io (.insertEntry delay))
  onClose := .run (.io .onClose)
  readLoop := .run (.io .readLoop)
  writeLoop := .run (.io .writeLoop)

/-- `UdpServer::Open`. The descriptor in `fd_` is overwritten. -/
def open_ : Code Unit := do
  let socket ← Prog.query .socket
  Prog.modify (·.update fun c => { c with fd_ := socket.ret })
  if socket.ret < 0 then host.onClose else Prog.modify (·.addEvent)

def stop : Code Unit := do
  Prog.modify (·.delEvent)
  host.onClose

def connectInLoop : Code Unit := do
  let socket ← Prog.query .socket
  Prog.modify (·.update fun c => { c with fd_ := socket.ret })
  if socket.ret < 0 then host.onClose
  else do
    Prog.modify fun s => { s with connected_ := true }
    Prog.modify (·.addEvent)
    host.enableWriting true
    let s ← Prog.read
    if s.connected_cb_ then Prog.invoke .connected

def clientOnClose : Code Unit := do
  let s ← Prog.read
  if s.connected_ then do
    Prog.modify (·.delEvent)
    Prog.modify fun s => { s with connected_ := false }
    UdpSocket.onClose host

def body (kind : Kind) : Method → Code Unit
  | .io .onClose => if kind = .udpClient then clientOnClose else UdpSocket.onClose host
  | .io m => UdpSocket.body host m
  | .start => open_
  | .stop => stop
  | .connect => connectInLoop

def Query.effect (q : Query) (a : Result) : Kernel → Kernel :=
  match q with
  | .io (.close fd) => .close fd
  | .socket => if 0 ≤ a.ret then .opens a.ret else id
  | _ => id

def answered (q : Query) (a : Result) (s : World) : World where
  socket := s.socket
  connected_ := s.connected_
  connected_cb_ := s.connected_cb_
  loop := { s.loop with kernel := q.effect a s.loop.kernel }
  tenure :=
    match q with
    | .io (.recvfrom fd _) => s.tenure.returned fd a
    | .io (.close fd) => s.tenure.close fd
    | .socket => s.tenure.reopen
    | _ => s.tenure

def began (m : Method) (s : World) : World :=
  match m with
  | .io .forceClose => { s with tenure := s.tenure.note .forceClose }
  | _ => s

def system (kind : Kind) : System World Query Result Callback Method :=
  ⟨body kind,answered,began,fun _ s => s⟩

/-- The handler runs by itself, with any answers of the system; inside its callbacks the
application sends, closes the socket, stops and starts a server or connects a client. -/
def application (kind : Kind) : Environment World Query Result Callback Method where
  admits := fun _ _ _ _ => true
  enters := fun ctx _ m => !ctx.isEmpty &&
    match m with
    | .io (.send _ _ _ _) | .io (.sendList _) | .io .forceClose => true
    | .start | .stop => decide (kind = .udpServer)
    | .connect => decide (kind = .udpClient)
    | _ => false

structure Dispatched (s : World) : Prop where
  descriptor : s.socket.fd_ > 0
  tenure : s.tenure = .start s.socket.fd_

def Returns (kind : Kind) (m : Method) (s after : World) : Prop :=
  ∃ moves, (system kind).exec (application kind) moves ((system kind).started ⟨s,[]⟩ m []) = some ⟨after,[]⟩

def Received (history : List Happening) : Prop := ∀ a ∈ outcomes history, 0 ≤ a.ret ∨ blocked a

instance (history : List Happening) : Decidable (Received history) :=
  inferInstanceAs (Decidable (∀ a ∈ outcomes history, 0 ≤ a.ret ∨ blocked a))

structure Placed (s : World) : Prop where
  closed_ : s.socket.closed_ = false
  tenure : s.tenure.Holds s.socket.fd_ ∨ s.tenure.Gone

/-- The loop is entered with no failed call behind it, and `OnClose` does nothing. -/
def receiveContract : Contract World Query Callback Method where
  inv := fun _ => Placed
  rely := fun _ s after => Aside s.tenure.history after.tenure.history
  pre := fun _ m s =>
    match m with
    | .io .readLoop => Placed s ∧ ∀ a ∈ outcomes s.tenure.history, 0 ≤ a.ret
    | .io .onRead | .io .onWrite | .io .writeLoop | .io .onError | .io .onTimeout => False
    | _ => Placed s
  post := fun _ m s after =>
    match m with
    | .io .readLoop => Exhausted .udpOnRead after.tenure.history ↔ Received after.tenure.history
    | .io .onClose => Placed after ∧ after.tenure = s.tenure
    | _ => Placed after ∧ Aside s.tenure.history after.tenure.history
  asks := fun _ _ _ => True
  mayFault := True

section Placed
variable {s after : World}

theorem Placed.congr (placed : Placed s) (closed : after.socket.closed_ = s.socket.closed_)
    (fd : after.socket.fd_ = s.socket.fd_) (tenure : after.tenure = s.tenure) : Placed after :=
  ⟨by rw [closed]; exact placed.closed_,by rw [tenure,fd]; exact placed.tenure⟩

theorem enable_same (s : World) (on : Bool) : (s.enableWriting on).socket.closed_ = s.socket.closed_ ∧
    (s.enableWriting on).socket.fd_ = s.socket.fd_ ∧ (s.enableWriting on).tenure = s.tenure := by
  unfold World.enableWriting
  split <;> exact ⟨rfl,rfl,rfl⟩

theorem Placed.enable (placed : Placed s) (on : Bool) : Placed (s.enableWriting on) :=
  placed.congr (enable_same s on).1 (enable_same s on).2.1 (enable_same s on).2.2

theorem Placed.received (placed : Placed s) (size : Nat) (a : Result) :
    Placed (answered (.io (.recvfrom s.socket.fd_ size)) a s) := by
  refine ⟨placed.closed_,?_⟩
  change (s.tenure.returned s.socket.fd_ a).Holds s.socket.fd_ ∨ (s.tenure.returned s.socket.fd_ a).Gone
  rcases placed.tenure with holds | gone
  · exact Or.inl holds.returned
  · rw [gone.returned_eq]
    exact Or.inr gone

theorem Placed.reopened (placed : Placed s) (a : Result) (f : UdpSocket → UdpSocket)
    (closed : ∀ c, (f c).closed_ = c.closed_) : Placed ((answered .socket a s).update f) := by
  refine ⟨(closed _).trans placed.closed_,Or.inr ?_⟩
  change s.tenure.reopen.Gone
  rcases placed.tenure with holds | gone
  · exact holds.reopen
  · rw [gone.reopen_eq]
    exact gone

end Placed

section Handlers
variable (kind : Kind) (ctx : List Callback) (s : World)

@[simp] theorem wp_enableWriting (E : Environment World Query Result Callback Method)
    (K : Contract World Query Callback Method) (on : Bool) (goal : Unit → World → Prop) :
    wp (system kind) E K ctx (host.enableWriting on) goal s ↔ goal () (s.enableWriting on) := Iff.rfl

def Since (start after : World) : Prop := Placed after ∧ Aside start.tenure.history after.tenure.history

theorem Since.congr {start s after : World} (since : Since start s) (closed : after.socket.closed_ = s.socket.closed_)
    (fd : after.socket.fd_ = s.socket.fd_) (tenure : after.tenure = s.tenure) : Since start after :=
  ⟨since.1.congr closed fd tenure,by rw [tenure]; exact since.2⟩

theorem Since.enable {start s : World} (since : Since start s) (on : Bool) : Since start (s.enableWriting on) :=
  since.congr (enable_same s on).1 (enable_same s on).2.1 (enable_same s on).2.2

theorem since_onClose (start : World) :
    Kept (system kind) (application kind) receiveContract ctx (Since start) host.onClose fun _ => True :=
  fun _ since => ⟨since.1,fun _ done => ⟨trivial,done.1,by rw [done.2]; exact since.2⟩⟩

theorem since_sends (start : World) :
    host.Sends (system kind) (application kind) receiveContract ctx (Since start) where
  self := fun _ since => ⟨trivial,since⟩
  update := fun _ plain s since => ⟨trivial,since.congr (plain s.socket).2.1 (plain s.socket).1 rfl⟩
  sendto := fun _ _ _ _ _ _ since => ⟨trivial,fun _ _ => ⟨trivial,since⟩⟩
  enableWriting := fun on _ since => ⟨trivial,since.enable on⟩

/-- `if (closed_)` is not taken. -/
theorem onClose_nothing (placed : Placed s) :
    wp (system kind) (application kind) receiveContract ctx (UdpSocket.onClose host)
      (fun _ after => Placed after ∧ after.tenure = s.tenure) s := by
  simp only [UdpSocket.onClose,host,wp_bind,wp_read,wp_pure,wp_ite]
  exact ⟨fun closed => absurd closed (by simp [placed.closed_]),fun _ => ⟨placed,trivial⟩⟩

theorem clientOnClose_nothing (placed : Placed s) :
    wp (system kind) (application kind) receiveContract ctx clientOnClose
      (fun _ after => Placed after ∧ after.tenure = s.tenure) s := by
  simp only [clientOnClose,wp_bind,wp_read,wp_pure,wp_ite,wp_modify]
  refine ⟨fun _ => ?_,fun _ => ⟨placed,trivial⟩⟩
  exact onClose_nothing kind ctx { s.delEvent with connected_ := false } (placed.congr rfl rfl rfl)

theorem open_since (placed : Placed s) :
    wp (system kind) (application kind) receiveContract ctx open_ (fun _ after => Since s after) s := by
  rw [open_,wp_bind,wp_query]
  refine ⟨trivial,fun a _ => ?_⟩
  have since : Since s ((answered .socket a s).update fun c => { c with fd_ := a.ret }) :=
    ⟨placed.reopened a _ fun _ => rfl,Tenure.aside_reopen⟩
  rw [wp_bind,wp_modify,wp_ite]
  exact ⟨fun _ => (since_onClose kind ctx s).wp _ since,fun _ => since.congr rfl rfl rfl⟩

theorem connect_since (placed : Placed s) :
    wp (system kind) (application kind) receiveContract ctx connectInLoop (fun _ after => Since s after) s := by
  rw [connectInLoop,wp_bind,wp_query]
  refine ⟨trivial,fun a _ => ?_⟩
  have since : Since s ((answered .socket a s).update fun c => { c with fd_ := a.ret }) :=
    ⟨placed.reopened a _ fun _ => rfl,Tenure.aside_reopen⟩
  have ends (t : World) (since : Since s t) :
      wp (system kind) (application kind) receiveContract ctx
        (if t.connected_cb_ = true then Prog.invoke .connected else pure ()) (fun _ after => Since s after) t := by
    rw [wp_ite]
    exact ⟨fun _ => ⟨since.1,fun _ aside inv => ⟨inv,since.2.trans aside⟩⟩,fun _ => since⟩
  rw [wp_bind,wp_modify,wp_ite]
  refine ⟨fun _ => (since_onClose kind ctx s).wp _ since,fun _ => ?_⟩
  simp only [wp_bind,wp_modify,wp_enableWriting,wp_read]
  apply ends
  apply Since.enable
  exact since.congr rfl rfl rfl

theorem stop_since (placed : Placed s) :
    wp (system kind) (application kind) receiveContract ctx stop (fun _ after => Since s after) s := by
  rw [stop,wp_bind,wp_modify]
  exact (since_onClose kind ctx s).wp _ ⟨placed.congr rfl rfl rfl,Aside.refl⟩

theorem readLoop_exhausts (placed : Placed s) (received : ∀ a ∈ outcomes s.tenure.history, 0 ≤ a.ret) :
    wp (system kind) (application kind) receiveContract ctx (UdpSocket.readLoop host)
      (fun _ after => Exhausted .udpOnRead after.tenure.history ↔ Received after.tenure.history) s := by
  have fine (a : Result) (nonneg : 0 ≤ a.ret) (t : World) (placed : Placed t)
      (aside : Aside (s.tenure.returned s.socket.fd_ a).history t.tenure.history) :
      receiveContract.pre ctx (.io .readLoop) t := by
    refine ⟨placed,fun b among => ?_⟩
    rw [aside.outcomes] at among
    rcases Tenure.mem_returned among with old | rfl
    · exact received b old
    · exact nonneg
  -- The last call has failed: it is the one that counts, or nothing counts any more.
  have last (a : Result) (failed : a.ret < 0) :
      Exhausted .udpOnRead (s.tenure.returned s.socket.fd_ a).history ↔
        Received (s.tenure.returned s.socket.fd_ a).history := by
    rcases placed.tenure with holds | gone
    · rw [holds.returned_eq,exhausted_last (fun same => by cases same) holds.released]
      simp only [EdgeHandler.stream,Bool.false_eq_true,false_and,or_false,Received,outcomes_append,
        outcomes_outcome,List.mem_append,List.mem_singleton]
      constructor
      · rintro ready b (old | rfl)
        · exact Or.inl (received b old)
        · exact Or.inr ready
      · exact fun all => (all a (Or.inr rfl)).resolve_left (by omega)
    · rw [gone.returned_eq]
      exact iff_of_true (exhausted_released gone.released) fun b among => Or.inl (received b among)
  simp only [UdpSocket.readLoop,host,wp_bind,wp_read,wp_pure,wp_query,wp_ite,wp_run]
  refine ⟨trivial,fun a _ => ⟨fun positive => ?_,fun none => ⟨fun failed => ⟨fun fails => ?_,fun _ => ?_⟩,fun zero => ?_⟩⟩⟩
  · have placed' := placed.received message_buffer_size_ a
    cases UdpSocket.received a.data s.socket.message_buffer_ with
    | none => trivial
    | some filled =>
      simp only [wp_bind,wp_modify,wp_ite,wp_invoke,wp_run]
      refine ⟨fun _ => ⟨placed'.congr rfl rfl rfl,fun after aside inv => ?_⟩,fun _ => ?_⟩
      · exact ⟨fine a (by omega) _ (inv.congr rfl rfl rfl) aside,fun _ done => done⟩
      · exact ⟨fine a (by omega) _ (placed'.congr rfl rfl rfl) Aside.refl,fun _ done => done⟩
  · refine ⟨placed.received _ a,fun after done => ?_⟩
    rw [done.2]
    exact last a failed
  · exact last a failed
  · exact ⟨fine a (by omega) _ (placed.received _ a) Aside.refl,fun _ done => done⟩

theorem receive_sound : receiveContract.Sound (system kind) (application kind) where
  rely_refl := fun _ _ => Aside.refl
  rely_trans := fun _ _ _ _ => Aside.trans
  body := by
    intro ctx m s pre
    cases m with
    | start => exact open_since kind ctx s pre
    | stop => exact stop_since kind ctx s pre
    | connect => exact connect_since kind ctx s pre
    | io m =>
      cases m with
      | send buf size addr len =>
        exact (UdpSocket.sendInLoop_kept (since_sends kind ctx s).queues buf size addr len).wp s ⟨pre,Aside.refl⟩
      | sendList list => exact (UdpSocket.sendListInLoop_kept (since_sends kind ctx s).queues list).wp s ⟨pre,Aside.refl⟩
      | readLoop => exact readLoop_exhausts kind ctx s pre.1 pre.2
      | onClose =>
        change wp (system kind) (application kind) receiveContract ctx
          (if kind = .udpClient then clientOnClose else UdpSocket.onClose host) _ s
        rw [wp_ite]
        exact ⟨fun _ => clientOnClose_nothing kind ctx s pre,fun _ => onClose_nothing kind ctx s pre⟩
      | forceClose =>
        refine ⟨⟨pre.closed_,?_⟩,fun after done => ⟨done.1,?_⟩⟩
        · refine pre.tenure.imp (·.note (by decide) (by decide)) fun gone => ?_
          change (s.tenure.note .forceClose).Gone
          rw [gone.note_eq]
          exact gone
        · rw [done.2]
          exact Tenure.aside_note rfl
      | onRead | onWrite | writeLoop | onError | onTimeout => exact pre.elim
  enter := by
    intro ctx m s placed allowed
    have entered := (Bool.and_eq_true_iff.mp allowed).2
    cases m with
    | io m => cases m <;> first | exact placed | cases entered
    | _ => exact placed
  leave := by
    intro ctx m s after placed allowed done
    have entered := (Bool.and_eq_true_iff.mp allowed).2
    cases m with
    | io m => cases m <;> first | exact done | cases entered
    | _ => exact done

end Handlers

/-- The socket that returns has left nothing behind exactly if it was open and no call failed
for another reason than that nothing was there. -/
theorem receive_returns_iff (kind : Kind) (s after : World) (dispatched : Dispatched s)
    (returns : Returns kind (.io .onRead) s after) :
    Exhausted .udpOnRead after.tenure.history ↔
      s.socket.closed_ = false ∧ Received after.tenure.history := by
  obtain ⟨moves,returned⟩ := returns
  have history : s.tenure.history = [] := by
    rw [dispatched.tenure]
    rfl
  have ends : wp (system kind) (application kind) receiveContract [] (UdpSocket.onRead host)
      (fun _ after => Exhausted .udpOnRead after.tenure.history ↔
        s.socket.closed_ = false ∧ Received after.tenure.history) s := by
    simp only [UdpSocket.onRead,host,wp_bind,wp_read,wp_pure,wp_ite,wp_run]
    refine ⟨fun closed => ?_,fun opened => ?_⟩
    · rw [history]
      exact iff_of_false not_exhausted_nil fun opened => by simp [closed] at opened
    · have open_ : s.socket.closed_ = false := by simpa using opened
      have placed : Placed s := by
        refine ⟨open_,Or.inl ?_⟩
        rw [dispatched.tenure]
        exact Tenure.start_holds
      refine ⟨⟨placed,?_⟩,fun after done => done.trans (and_iff_right open_).symm⟩
      rw [history]
      exact fun _ among => by cases among
  exact exec_returned (receive_sound kind) (fun _ _ => rfl) ends returned

end Tmms.Network.UdpExhaustion
