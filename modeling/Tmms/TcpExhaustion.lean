import Tmms.Exhaustion
import Tmms.Reconnect

/-! The handlers of a TCP connection and of a TCP client on an edge-triggered descriptor. They
read or write until a call fails, so an interrupted call ends them too; and the first event of
a client that is connecting is spent on the connection. -/
namespace Tmms.Network.TcpExhaustion

open Reentrant TcpClient Exhaustion

inductive Kind where
  | connection
  | client
  deriving DecidableEq

structure World where
  -- of a connection, all but what only a client has
  tcp : Reconnect.World
  tenure : Tenure

namespace World
variable (s : World)

def update (f : TcpConnection → TcpConnection) : World := { s with tcp := s.tcp.update f }

/-- Only `OnWrite` turns writing off. -/
def enableWriting (on : Bool) : World where
  tcp := s.tcp.enableWriting on
  tenure := if on = false ∧ s.tcp.connection.io_vec_li_ = [] then s.tenure.note .drained else s.tenure

end World

abbrev Code := Prog World Query Result Callback Method

def host : ClientHost World Query Result Callback Method where
  connection := {
    self := do return (← Prog.read).tcp.connection
    update := fun f => .modify (·.update f)
    closeCallback := .invoke (.connection .close)
    messageCallback := .invoke (.connection .message)
    writeCompleteCallback := .invoke (.connection .writeComplete)
    write := fun fd buf size => .query (.connection (.write fd buf size))
    writev := fun fd vec => .query (.connection (.writev fd vec))
    readFd := fun fd => .query (.connection (.readFd fd))
    closeFd := fun fd => do let _ ← Prog.query (.connection (.close fd))
    enableWriting := fun on => .modify (·.enableWriting on)
    onClose := .run (.connection .onClose)
    readLoop := .run (.connection .readLoop)
    writeLoop := .run (.connection .writeLoop) }
  status_ := do return (← Prog.read).tcp.status_
  setStatus := fun status => .modify fun s => { s with tcp := { s.tcp with status_ := status } }
  connect_cb_ := do return (← Prog.read).tcp.connect_cb_
  connectCallback := .invoke .connect
  socket := .query .socket
  connect := fun fd => .query (.connect fd)
  getsockopt := fun fd => .query (.getsockopt fd)
  addEvent := .modify fun s => { s with tcp := s.tcp.addEvent }
  delEvent := .modify fun s => { s with tcp := s.tcp.delEvent }

def body : Kind → Method → Code Unit
  | .connection,.connection m => TcpConnection.body host.connection m
  | _,m => TcpClient.body host m

/-- `ConnectInLoop` puts into `fd_` whatever `socket` gives. -/
def answered (q : Query) (a : Result) (s : World) : World where
  tcp := Reconnect.answered q a s.tcp
  tenure :=
    match q with
    | .connection (.readFd fd) | .connection (.writev fd _) => s.tenure.returned fd a
    | .connection (.close fd) => s.tenure.close fd
    | .socket => s.tenure.reopen
    | _ => s.tenure

def began (m : Method) (s : World) : World :=
  match m with
  | .connection .forceClose => { s with tenure := s.tenure.note .forceClose }
  | _ => s

def system (kind : Kind) : System World Query Result Callback Method :=
  ⟨body kind,answered,began,fun _ s => s⟩

/-- A handler runs by itself, with any answers of the system; inside its callbacks the
application sends, takes bytes out of the buffer, closes the connection, or connects the
client anew. -/
def application (kind : Kind) : Environment World Query Result Callback Method where
  admits := fun _ _ _ _ => true
  enters := fun ctx _ m => !ctx.isEmpty &&
    match m with
    | .connection (.send _ _) | .connection (.sendList _) | .connection (.retrieve _) => true
    | .connection .forceClose => true
    | .connect | .baseSend _ _ | .baseSendList _ => decide (kind = .client)
    | _ => false

structure Dispatched (s : World) : Prop where
  descriptor : s.tcp.connection.fd_ > 0
  tenure : s.tenure = .start s.tcp.connection.fd_

def Returns (kind : Kind) (m : Method) (s after : World) : Prop :=
  ∃ moves, (system kind).exec (application kind) moves ((system kind).started ⟨s,[]⟩ m []) = some ⟨after,[]⟩

section Contract
variable (closed₀ : Bool) (ctx : List Callback) (s : World)

def Asked (history : List Happening) : Prop := .forceClose ∈ history ∨ outcomes history ≠ []

/-- The object holds its descriptor, and `closed_` is as it was when the handler was called. -/
structure Held : Prop where
  tenure : s.tenure.Holds s.tcp.connection.fd_
  descriptor : s.tcp.connection.fd_ > 0
  closed_ : s.tcp.connection.closed_ = closed₀

/-- The object has let go of its descriptor, by closing it only with a reason. -/
structure LetGo : Prop where
  tenure : s.tenure.Gone
  reason : .reopened ∈ s.tenure.history ∨ (closed₀ = false ∧ Asked s.tenure.history)

/-- Where the user is in control, a connection that was asked to close has closed, or it is
making its close callback. -/
def Placed : Prop :=
  (Held closed₀ s ∧ (closed₀ = false → .connection .close ∉ ctx → .forceClose ∉ s.tenure.history)) ∨
    LetGo closed₀ s

def edgeContract : Contract World Query Callback Method where
  inv := Placed closed₀
  rely := fun _ s after => Aside s.tenure.history after.tenure.history
  pre := fun ctx m s =>
    match m with
    | .connection .readLoop =>
      Placed closed₀ ctx s ∧ closed₀ = false ∧ ∀ a ∈ outcomes s.tenure.history, 0 < a.ret
    | .connection .writeLoop => (Held closed₀ s ∧ .forceClose ∉ s.tenure.history) ∧ closed₀ = false ∧
        .drained ∉ s.tenure.history ∧ ∀ a ∈ outcomes s.tenure.history, 0 ≤ a.ret
    | .connection .onClose => (Held closed₀ s ∧ Asked s.tenure.history) ∨ LetGo closed₀ s
    | .connection .onRead | .connection .onWrite | .connection .onError | .connection .onTimeout => False
    | _ => Placed closed₀ ctx s
  post := fun ctx m s after =>
    match m with
    | .connection .readLoop =>
      ∀ h, h.stream = true → (Exhausted h after.tenure.history ↔ ¬Interrupted after.tenure.history)
    | .connection .writeLoop =>
      Exhausted .tcpOnWrite after.tenure.history ↔ ¬Interrupted after.tenure.history
    | .connection .onClose | .connection .forceClose => (Placed closed₀ ctx after ∧
        Aside s.tenure.history after.tenure.history) ∧ (closed₀ = false → LetGo closed₀ after)
    | _ => Placed closed₀ ctx after ∧ Aside s.tenure.history after.tenure.history
  asks := fun _ _ _ => True
  mayFault := True

end Contract

section Placed
variable {closed₀ : Bool} {ctx : List Callback} {s after : World}

theorem Asked.aside {before later : List Happening} (asked : Asked before) (aside : Aside before later) :
    Asked later := by
  rcases asked with forced | called
  · exact Or.inl (aside.mem forced)
  · exact Or.inr (by rw [aside.outcomes]; exact called)

theorem Held.congr (held : Held closed₀ s) (tenure : after.tenure = s.tenure)
    (fd : after.tcp.connection.fd_ = s.tcp.connection.fd_)
    (closed : after.tcp.connection.closed_ = s.tcp.connection.closed_) : Held closed₀ after :=
  ⟨by rw [tenure,fd]; exact held.tenure,by rw [fd]; exact held.descriptor,by rw [closed]; exact held.closed_⟩

theorem LetGo.congr (gone : LetGo closed₀ s) (tenure : after.tenure = s.tenure) : LetGo closed₀ after :=
  ⟨by rw [tenure]; exact gone.tenure,by rw [tenure]; exact gone.reason⟩

/-- Nothing but `fd_`, `closed_` and the tenure matters. -/
theorem Placed.congr (placed : Placed closed₀ ctx s) (tenure : after.tenure = s.tenure)
    (fd : after.tcp.connection.fd_ = s.tcp.connection.fd_)
    (closed : after.tcp.connection.closed_ = s.tcp.connection.closed_) : Placed closed₀ ctx after := by
  rcases placed with ⟨held,unasked⟩ | gone
  · exact Or.inl ⟨held.congr tenure fd closed,by rw [tenure]; exact unasked⟩
  · exact Or.inr (gone.congr tenure)

theorem placed_cons {t : Callback} (other : t ≠ .connection .close) :
    Placed closed₀ (t :: ctx) s ↔ Placed closed₀ ctx s := by
  simp only [Placed,List.mem_cons,not_or,other.symm,not_false_eq_true,true_and]

theorem Placed.closing (held : Held closed₀ s) : Placed closed₀ (.connection .close :: ctx) s :=
  Or.inl ⟨held,fun _ outside => absurd List.mem_cons_self outside⟩

/-- What has been let go of is not held again. -/
theorem LetGo.later (gone : LetGo closed₀ s) (placed : Placed closed₀ ctx after)
    (aside : Aside s.tenure.history after.tenure.history) : LetGo closed₀ after := by
  rcases placed with ⟨held,_⟩ | gone'
  · exact absurd held.tenure (gone.tenure.aside aside)
  · exact gone'

@[simp] theorem enable_connection (s : World) (on : Bool) :
    (s.enableWriting on).tcp.connection.fd_ = s.tcp.connection.fd_ ∧
      (s.enableWriting on).tcp.connection.closed_ = s.tcp.connection.closed_ :=
  ⟨(Reconnect.enable_rest s.tcp on).2.2.1,(Reconnect.enable_rest s.tcp on).2.1⟩

theorem aside_enable (s : World) (on : Bool) :
    Aside s.tenure.history (s.enableWriting on).tenure.history := by
  unfold World.enableWriting
  split
  · exact Tenure.aside_note rfl
  · exact Aside.refl

theorem LetGo.enable (gone : LetGo closed₀ s) (on : Bool) : LetGo closed₀ (s.enableWriting on) := by
  apply gone.congr
  unfold World.enableWriting
  split
  · exact gone.tenure.note_eq
  · rfl

theorem Held.note (held : Held closed₀ s) {h : Happening} (closed : h ≠ .closed) (reopened : h ≠ .reopened) :
    Held closed₀ { s with tenure := s.tenure.note h } :=
  ⟨held.tenure.note closed reopened,held.descriptor,held.closed_⟩

theorem Held.enable (held : Held closed₀ s) (on : Bool) : Held closed₀ (s.enableWriting on) := by
  obtain ⟨fd,closed⟩ := enable_connection s on
  suffices noted : Held closed₀ { s with tenure := (s.enableWriting on).tenure } from noted.congr rfl fd closed
  unfold World.enableWriting
  split
  · exact held.note (by decide) (by decide)
  · exact held

theorem forced_enable (s : World) (on : Bool) :
    .forceClose ∈ (s.enableWriting on).tenure.history ↔ .forceClose ∈ s.tenure.history := by
  unfold World.enableWriting Tenure.note
  split
  · split <;> simp
  · rfl

theorem Placed.enable (placed : Placed closed₀ ctx s) (on : Bool) : Placed closed₀ ctx (s.enableWriting on) := by
  rcases placed with ⟨held,unasked⟩ | gone
  · exact Or.inl ⟨held.enable on,fun open_ outside => (forced_enable s on).not.mpr (unasked open_ outside)⟩
  · exact Or.inr (gone.enable on)

end Placed

section Steps
variable (kind : Kind) (E : Environment World Query Result Callback Method)
  (K : Contract World Query Callback Method) (ctx : List Callback) (s : World)

@[simp] theorem wp_status (goal : Int → World → Prop) :
    wp (system kind) E K ctx host.status_ goal s ↔ goal s.tcp.status_ s := Iff.rfl

@[simp] theorem wp_self (goal : TcpConnection → World → Prop) :
    wp (system kind) E K ctx host.connection.self goal s ↔ goal s.tcp.connection s := Iff.rfl

@[simp] theorem wp_update (f : TcpConnection → TcpConnection) (goal : Unit → World → Prop) :
    wp (system kind) E K ctx (host.connection.update f) goal s ↔ goal () (s.update f) := Iff.rfl

@[simp] theorem wp_enableWriting (on : Bool) (goal : Unit → World → Prop) :
    wp (system kind) E K ctx (host.connection.enableWriting on) goal s ↔ goal () (s.enableWriting on) := Iff.rfl

@[simp] theorem wp_writev (fd : Int) (vec : List IoVec) (goal : Result → World → Prop) :
    wp (system kind) E K ctx (host.connection.writev fd vec) goal s ↔
      K.asks ctx (.connection (.writev fd vec)) s ∧ ∀ a, E.admits ctx s (.connection (.writev fd vec)) a = true →
        goal a (answered (.connection (.writev fd vec)) a s) := Iff.rfl

end Steps

section Handlers
variable (kind : Kind) (closed₀ : Bool) (ctx : List Callback) (s : World)

def Since (start after : World) : Prop :=
  Placed closed₀ ctx after ∧ Aside start.tenure.history after.tenure.history

theorem since_invoke (start : World) (t : Callback) (other : t ≠ .connection .close) :
    Kept (system kind) (application kind) (edgeContract closed₀) ctx (Since closed₀ ctx start)
      (Prog.invoke t) fun _ => True := by
  intro s since
  refine ⟨(placed_cons other).mpr since.1,fun after aside inv => ⟨trivial,?_⟩⟩
  exact ⟨(placed_cons other).mp inv,since.2.trans aside⟩

theorem since_sends (start : World) :
    host.connection.Sends (system kind) (application kind) (edgeContract closed₀) ctx (Since closed₀ ctx start) where
  self := fun _ since => ⟨trivial,since⟩
  update := fun _ plain s since =>
    ⟨trivial,since.1.congr rfl (plain s.tcp.connection).1 (plain s.tcp.connection).2.1,since.2⟩
  writeCompleteCallback := since_invoke kind closed₀ ctx start _ (by decide)
  write := fun _ _ _ _ since => ⟨trivial,fun _ _ => ⟨trivial,since⟩⟩
  enableWriting := fun on s since => ⟨trivial,since.1.enable on,since.2.trans (aside_enable s on)⟩

/-- The descriptor is closed by an object that holds it and has a reason to, or it is gone. -/
theorem close_letGo (closing : (s.tenure.Holds s.tcp.connection.fd_ ∧ s.tcp.connection.fd_ > 0 ∧
      closed₀ = false ∧ Asked s.tenure.history) ∨ LetGo closed₀ s) :
    wp (system kind) (application kind) (edgeContract closed₀) ctx (TcpConnection.close host.connection)
      (fun _ after => LetGo closed₀ after ∧ Aside s.tenure.history after.tenure.history) s := by
  simp only [TcpConnection.close,host,wp_bind,wp_read,wp_pure,wp_ite,wp_query,wp_modify]
  constructor
  · refine fun _ => ⟨trivial,fun a _ => ⟨?_,Tenure.aside_close⟩⟩
    rcases closing with ⟨holds,_,open_,asked⟩ | gone
    · exact ⟨holds.close,Or.inr ⟨open_,asked.aside Tenure.aside_close⟩⟩
    · exact gone.congr gone.tenure.close_eq
  · intro without
    rcases closing with ⟨_,positive,_⟩ | gone
    · exact absurd positive without
    · exact ⟨gone,Aside.refl⟩

theorem baseClose_letGo (closing : (Held closed₀ s ∧ Asked s.tenure.history) ∨ LetGo closed₀ s) :
    wp (system kind) (application kind) (edgeContract closed₀) ctx (TcpConnection.onClose host.connection)
      (fun _ after => Since closed₀ ctx s after ∧ (closed₀ = false → LetGo closed₀ after)) s := by
  have finish (after : World) (aside : Aside s.tenure.history after.tenure.history)
      (closing : (Held false after ∧ closed₀ = false ∧ Asked after.tenure.history) ∨ LetGo closed₀ after) :
      wp (system kind) (application kind) (edgeContract closed₀) ctx (TcpConnection.close host.connection)
        (fun _ last => Since closed₀ ctx s last ∧ (closed₀ = false → LetGo closed₀ last))
        (after.update fun c => { c with closed_ := true }) := by
    apply wp_mono (close_letGo kind closed₀ ctx _ ?_)
    · exact fun _ last done => ⟨⟨Or.inr done.1,aside.trans done.2⟩,fun _ => done.1⟩
    · rcases closing with ⟨held,open_,asked⟩ | gone
      · exact Or.inl ⟨held.tenure,held.descriptor,open_,asked⟩
      · exact Or.inr (gone.congr rfl)
  simp only [TcpConnection.onClose,host,wp_bind,wp_read,wp_pure,wp_ite,wp_invoke,wp_modify]
  rcases closing with ⟨held,asked⟩ | gone
  · refine ⟨fun opened => ?_,fun closed => ?_⟩
    · have open_ : closed₀ = false := held.closed_.symm.trans opened
      subst open_
      refine ⟨fun _ => ⟨Placed.closing held,fun after aside inv => ?_⟩,fun _ => ?_⟩
      · apply finish after aside
        rcases inv with ⟨still,_⟩ | gone
        · exact Or.inl ⟨still,rfl,asked.aside aside⟩
        · exact Or.inr gone
      · exact finish s Aside.refl (Or.inl ⟨held,rfl,asked⟩)
    · -- `closed_` was set before: nothing is done.
      have shut : closed₀ = true := by
        rw [← held.closed_]
        simpa using closed
      subst shut
      exact ⟨⟨Or.inl ⟨held,fun same => by cases same⟩,Aside.refl⟩,fun same => by cases same⟩
  · refine ⟨fun _ => ⟨fun _ => ⟨Or.inr gone,fun after aside inv => ?_⟩,fun _ => ?_⟩,fun _ => ?_⟩
    · exact finish after aside (Or.inr (gone.later inv aside))
    · exact finish s Aside.refl (Or.inr gone)
    · exact ⟨⟨Or.inr gone,Aside.refl⟩,fun _ => gone⟩

theorem clientClose_letGo (closing : (Held closed₀ s ∧ Asked s.tenure.history) ∨ LetGo closed₀ s) :
    wp (system kind) (application kind) (edgeContract closed₀) ctx (TcpClient.onClose host)
      (fun _ after => Since closed₀ ctx s after ∧ (closed₀ = false → LetGo closed₀ after)) s := by
  have finish (tcp : Reconnect.World) (same : tcp.connection = s.tcp.connection) :
      wp (system kind) (application kind) (edgeContract closed₀) ctx (TcpConnection.onClose host.connection)
        (fun _ after => Since closed₀ ctx s after ∧ (closed₀ = false → LetGo closed₀ after)) ⟨tcp,s.tenure⟩ := by
    apply baseClose_letGo kind closed₀ ctx ⟨tcp,s.tenure⟩
    rcases closing with ⟨held,asked⟩ | gone
    · exact Or.inl ⟨held.congr rfl (congrArg _ same) (congrArg _ same),asked⟩
    · exact Or.inr (gone.congr rfl)
  simp only [TcpClient.onClose,host,wp_bind,wp_read,wp_pure,wp_modify,wp_ite]
  exact ⟨fun _ => finish _ rfl,fun _ => finish _ rfl⟩

def GoneSince (start after : World) : Prop :=
  LetGo closed₀ after ∧ Aside start.tenure.history after.tenure.history

theorem gone_invoke (start : World) (t : Callback) :
    Kept (system kind) (application kind) (edgeContract closed₀) ctx (GoneSince closed₀ start)
      (Prog.invoke t) fun _ => True := by
  rintro s ⟨gone,aside⟩
  exact ⟨Or.inr gone,fun after further inv => ⟨trivial,gone.later inv further,aside.trans further⟩⟩

theorem gone_onClose (start : World) :
    Kept (system kind) (application kind) (edgeContract closed₀) ctx (GoneSince closed₀ start)
      (Prog.run (.connection .onClose)) fun _ => True := by
  rintro s ⟨gone,aside⟩
  refine ⟨Or.inr gone,fun after done => ⟨trivial,?_⟩⟩
  obtain ⟨⟨placed,further⟩,_⟩ := done
  exact ⟨gone.later placed further,aside.trans further⟩

theorem gone_modify (start : World) (f : World → World) (tenure : ∀ s, (f s).tenure = s.tenure) :
    Kept (system kind) (application kind) (edgeContract closed₀) ctx (GoneSince closed₀ start)
      (Prog.modify f) fun _ => True := by
  rintro s ⟨gone,aside⟩
  exact ⟨trivial,gone.congr (tenure s),by rw [tenure]; exact aside⟩

theorem gone_enable (start : World) (on : Bool) :
    Kept (system kind) (application kind) (edgeContract closed₀) ctx (GoneSince closed₀ start)
      (host.connection.enableWriting on) fun _ => True :=
  fun s gone => ⟨trivial,gone.1.enable on,gone.2.trans (aside_enable s on)⟩

theorem gone_connected (start : World) :
    Kept (system kind) (application kind) (edgeContract closed₀) ctx (GoneSince closed₀ start)
      (updateConnectionStatus host) fun _ => True := by
  refine .bind (gone_modify kind closed₀ ctx start _ fun _ => rfl) fun _ _ => ?_
  have asks : Kept (system kind) (application kind) (edgeContract closed₀) ctx (GoneSince closed₀ start)
      host.connect_cb_ fun _ => True := fun _ gone => ⟨trivial,gone⟩
  refine .bind asks fun _ _ => .ite (fun _ => ?_) fun _ => .pure trivial
  exact gone_invoke kind closed₀ ctx start .connect

/-- `fd_` is overwritten, whatever the client held. -/
theorem connect_since (placed : Placed closed₀ ctx s) :
    wp (system kind) (application kind) (edgeContract closed₀) ctx (connectInLoop host)
      (fun _ after => Since closed₀ ctx s after) s := by
  have self : Kept (system kind) (application kind) (edgeContract closed₀) ctx (GoneSince closed₀ s)
      host.connection.self fun _ => True := fun _ gone => ⟨trivial,gone⟩
  have ended (result : Result) : Kept (system kind) (application kind) (edgeContract closed₀) ctx (GoneSince closed₀ s)
      (connectEnded host result) fun _ => True := by
    refine .ite (fun _ => gone_connected kind closed₀ ctx s) fun _ => .ite (fun _ => ?_) fun _ => .pure trivial
    exact .ite (fun _ => gone_onClose kind closed₀ ctx s) fun _ => .pure trivial
  have rest (result : Result) : Kept (system kind) (application kind) (edgeContract closed₀) ctx (GoneSince closed₀ s) (do
        host.connection.update fun c => { c with fd_ := result.ret }
        if result.ret < 0 then host.connection.onClose
        else do
          host.setStatus kTcpConStatusConnecting
          host.addEvent
          host.connection.enableWriting true
          let this ← host.connection.self
          let result ← host.connect this.fd_
          connectEnded host result) fun _ => True := by
    refine .bind (gone_modify kind closed₀ ctx s _ fun _ => rfl) fun _ _ => .ite (fun _ => ?_) fun _ => ?_
    · exact gone_onClose kind closed₀ ctx s
    · refine .bind (gone_modify kind closed₀ ctx s _ fun _ => rfl) fun _ _ => ?_
      refine .bind (gone_modify kind closed₀ ctx s _ fun _ => rfl) fun _ _ => ?_
      refine .bind (gone_enable kind closed₀ ctx s true) fun _ _ => ?_
      refine .bind self fun _ _ => ?_
      exact .bind (fun _ gone => ⟨trivial,fun _ _ => ⟨trivial,gone⟩⟩) fun result _ => ended result
  rw [connectInLoop,wp_bind]
  refine ⟨trivial,fun a _ => ?_⟩
  apply wp_mono (rest a (answered .socket a s) ?_)
  · exact fun _ after done => ⟨Or.inr done.2.1,done.2.2⟩
  · refine ⟨?_,Tenure.aside_reopen⟩
    rcases placed with ⟨held,_⟩ | gone
    · refine ⟨held.tenure.reopen,Or.inl ?_⟩
      change Happening.reopened ∈ s.tenure.reopen.history
      rw [held.tenure.reopen_eq]
      simp
    · exact gone.congr gone.tenure.reopen_eq

def World.returned (a : Result) (s : World) : World :=
  { s with tenure := s.tenure.returned s.tcp.connection.fd_ a }

theorem Held.returned {closed₀ : Bool} {s : World} (held : Held closed₀ s) (a : Result) :
    Held closed₀ (s.returned a) ∧ (s.returned a).tenure.history = s.tenure.history ++ [.outcome a] :=
  ⟨⟨held.tenure.returned,held.descriptor,held.closed_⟩,congrArg Tenure.history held.tenure.returned_eq⟩

theorem LetGo.returned {closed₀ : Bool} {s : World} (gone : LetGo closed₀ s) (a : Result) :
    (s.returned a).tenure = s.tenure :=
  gone.tenure.returned_eq

theorem Placed.returned {closed₀ : Bool} {ctx : List Callback} {s : World} (placed : Placed closed₀ ctx s)
    (a : Result) : Placed closed₀ ctx (s.returned a) := by
  rcases placed with ⟨held,unasked⟩ | gone
  · obtain ⟨still,history⟩ := held.returned a
    refine Or.inl ⟨still,fun open_ outside => ?_⟩
    simpa [history] using unasked open_ outside
  · exact Or.inr (gone.congr (gone.returned a))

theorem Placed.asked {closed₀ : Bool} {ctx : List Callback} {s : World} (placed : Placed closed₀ ctx s)
    (a : Result) :
    (Held closed₀ (s.returned a) ∧ Asked (s.returned a).tenure.history) ∨ LetGo closed₀ (s.returned a) := by
  rcases placed with ⟨held,_⟩ | gone
  · obtain ⟨still,history⟩ := held.returned a
    exact Or.inl ⟨still,Or.inr (by simp [history])⟩
  · exact Or.inr (gone.congr (gone.returned a))

/-- After `OnClose` there is nothing left to do, and `OnClose` makes no call of the handler's. -/
theorem ended_exhausts {s after : World} (gone : LetGo closed₀ after)
    (aside : Aside s.tenure.history after.tenure.history) (calm : ¬Interrupted s.tenure.history) (h : EdgeHandler) :
    Exhausted h after.tenure.history ↔ ¬Interrupted after.tenure.history := by
  refine iff_of_true (exhausted_released gone.tenure.released) ?_
  rw [Interrupted,aside.outcomes]
  exact calm

theorem readLoop_exhausts (placed : Placed closed₀ ctx s) (open_ : closed₀ = false)
    (delivered : ∀ a ∈ outcomes s.tenure.history, 0 < a.ret) :
    wp (system kind) (application kind) (edgeContract closed₀) ctx (TcpConnection.readLoop host.connection)
      (fun _ after => ∀ h, h.stream = true →
        (Exhausted h after.tenure.history ↔ ¬Interrupted after.tenure.history)) s := by
  have calm (a : Result) (other : ¬interrupted a) : ¬Interrupted (s.returned a).tenure.history := by
    rintro ⟨b,among,failed⟩
    rcases Tenure.mem_returned among with old | rfl
    · exact absurd failed.1 (by have := delivered b old; omega)
    · exact other failed
  have closes (a : Result) (other : ¬interrupted a) (t : World) (tenure : t.tenure = (s.returned a).tenure)
      (after : World) (done : Since closed₀ ctx t after ∧ (closed₀ = false → LetGo closed₀ after)) (h : EdgeHandler) :
      Exhausted h after.tenure.history ↔ ¬Interrupted after.tenure.history :=
    ended_exhausts closed₀ (done.2 open_) done.1.2 (by rw [tenure]; exact calm a other) h
  simp only [TcpConnection.readLoop,host,wp_bind,wp_read,wp_pure,wp_query,wp_ite,wp_modify,wp_invoke,wp_run]
  refine ⟨trivial,fun a _ => ⟨fun positive => ?_,fun nothing => ⟨fun eof => ?_,fun _ => ⟨fun fails => ?_,fun passing => ?_⟩⟩⟩⟩
  · have again (after : World) (placed : Placed closed₀ ctx after)
        (aside : Aside (s.returned a).tenure.history after.tenure.history) :
        (edgeContract closed₀).pre ctx (.connection .readLoop) after := by
      refine ⟨placed,open_,fun b among => ?_⟩
      rw [aside.outcomes] at among
      rcases Tenure.mem_returned among with old | rfl
      · exact delivered b old
      · exact positive
    have filled : Placed closed₀ ctx ((answered (.connection (.readFd s.tcp.connection.fd_)) a s).update
        fun c => { c with message_buffer_ := c.message_buffer_ ++ a.data }) :=
      (placed.returned a).congr rfl rfl rfl
    refine ⟨fun _ => ⟨(placed_cons (by decide)).mpr filled,fun after aside inv => ?_⟩,fun _ => ?_⟩
    · exact ⟨again after ((placed_cons (by decide)).mp inv) aside,fun _ done => done⟩
    · exact ⟨again _ filled Aside.refl,fun _ done => done⟩
  · have other : ¬interrupted a := fun failed => absurd failed.1 (by omega)
    exact ⟨placed.asked a,fun after done h _ => closes a other _ rfl after done h⟩
  · have other : ¬interrupted a := not_interrupted_of_fatal fails
    exact ⟨placed.asked a,fun after done h _ => closes a other _ rfl after done h⟩
  · intro h stream
    have failed : a.ret < 0 := by omega
    have reads : h ≠ .tcpOnWrite := by
      rintro rfl
      cases stream
    have before : ¬Interrupted s.tenure.history :=
      not_interrupted_of_nonneg fun b among => le_of_lt (delivered b among)
    change Exhausted h (s.returned a).tenure.history ↔ ¬Interrupted (s.returned a).tenure.history
    rcases placed with ⟨held,_⟩ | gone
    · rw [(held.returned a).2,exhausted_last (fun same => absurd same reads) held.tenure.released,interrupted_append]
      have passes := blocked_iff failed (by simpa using passing)
      simp only [before,false_or,← passes,or_iff_left_iff_imp]
      omega
    · rw [gone.returned a]
      exact iff_of_true (exhausted_released gone.tenure.released) before

/-- The queue is empty: what the callback does then is not the handler's. -/
theorem drained_exhausts (held : Held closed₀ s) (unasked : .forceClose ∉ s.tenure.history)
    (empty : s.tcp.connection.io_vec_li_ = []) (calm : ¬Interrupted s.tenure.history) :
    wp (system kind) (application kind) (edgeContract closed₀) ctx (do
        host.connection.enableWriting false
        TcpConnection.writeComplete host.connection)
      (fun _ after => Exhausted .tcpOnWrite after.tenure.history ↔ ¬Interrupted after.tenure.history) s := by
  have placed : Placed closed₀ ctx s := Or.inl ⟨held,fun _ _ => unasked⟩
  have noted : (s.enableWriting false).tenure = s.tenure.note .drained := if_pos ⟨rfl,empty⟩
  have sends := since_sends kind closed₀ ctx (s.enableWriting false)
  rw [wp_bind,wp_enableWriting]
  apply wp_mono (TcpConnection.writeComplete_kept sends (s.enableWriting false) ⟨placed.enable false,Aside.refl⟩)
  rintro _ after ⟨_,_,aside⟩
  refine iff_of_true (Or.inr (Or.inl ⟨rfl,aside.mem ?_⟩)) ?_
  · rw [noted,held.tenure.note_eq]
    simp
  · rw [Interrupted,aside.outcomes,noted,(Tenure.aside_note rfl).outcomes]
    exact calm

theorem writeLoop_exhausts (held : Held closed₀ s) (unasked : .forceClose ∉ s.tenure.history)
    (open_ : closed₀ = false) (undrained : .drained ∉ s.tenure.history)
    (written : ∀ a ∈ outcomes s.tenure.history, 0 ≤ a.ret) :
    wp (system kind) (application kind) (edgeContract closed₀) ctx (TcpConnection.writeLoop host.connection)
      (fun _ after => Exhausted .tcpOnWrite after.tenure.history ↔ ¬Interrupted after.tenure.history) s := by
  have placed : Placed closed₀ ctx s := Or.inl ⟨held,fun _ _ => unasked⟩
  have before := not_interrupted_of_nonneg written
  simp only [TcpConnection.writeLoop,wp_bind,wp_self,wp_writev]
  refine ⟨trivial,fun a _ => ?_⟩
  obtain ⟨holds,history⟩ := held.returned a
  have unforced : .forceClose ∉ (s.returned a).tenure.history := by
    rw [history]
    simpa using unasked
  have more : .drained ∉ (s.returned a).tenure.history := by
    rw [history]
    simpa using undrained
  rw [wp_ite]
  refine ⟨fun nonneg => ?_,fun negative => ?_⟩
  · have fine : ∀ b ∈ outcomes (s.returned a).tenure.history, 0 ≤ b.ret := by
      intro b among
      rcases Tenure.mem_returned among with old | rfl
      · exact written b old
      · exact nonneg
    cases consume s.tcp.connection.io_vec_li_ a.ret.toNat with
    | none => exact trivial
    | some queue =>
      simp only [wp_bind,wp_update,wp_ite]
      have shorter := (holds.congr rfl rfl rfl : Held closed₀ ((s.returned a).update fun c => { c with io_vec_li_ := queue }))
      refine ⟨fun empty => ?_,fun _ => ⟨⟨⟨shorter,unforced⟩,open_,more,fine⟩,fun _ done => done⟩⟩
      exact drained_exhausts kind closed₀ ctx _ shorter unforced empty (not_interrupted_of_nonneg fine)
  · have failed : a.ret < 0 := by omega
    rw [wp_ite]
    refine ⟨fun fails => ⟨placed.asked a,fun after done => ?_⟩,fun passing => ?_⟩
    · refine ended_exhausts closed₀ (done.2 open_) done.1.2 ?_ .tcpOnWrite
      change ¬Interrupted (s.returned a).tenure.history
      rw [history,interrupted_append]
      exact fun failing => failing.elim before (not_interrupted_of_fatal fails)
    · change Exhausted .tcpOnWrite (s.returned a).tenure.history ↔ ¬Interrupted (s.returned a).tenure.history
      rw [history,exhausted_last (fun _ => undrained) held.tenure.released,interrupted_append]
      have passes := blocked_iff failed (by simpa using passing)
      simp [before,← passes,EdgeHandler.stream]

theorem send_since (inLoop : Code Unit) (placed : Placed closed₀ ctx s)
    (kept : Kept (system kind) (application kind) (edgeContract closed₀) ctx (Since closed₀ ctx s) inLoop
      fun _ => True) :
    wp (system kind) (application kind) (edgeContract closed₀) ctx (send host inLoop)
      (fun _ after => Since closed₀ ctx s after) s := by
  simp only [send,wp_bind,wp_status,wp_ite]
  exact ⟨fun _ => kept.wp s ⟨placed,Aside.refl⟩,fun _ => ⟨placed,Aside.refl⟩⟩

/-- What the application calls, of a connection or of a client. -/
theorem sends_since (placed : Placed closed₀ ctx s) :
    (∀ buf size, wp (system kind) (application kind) (edgeContract closed₀) ctx
      (TcpConnection.sendInLoop host.connection buf size) (fun _ after => Since closed₀ ctx s after) s) ∧
    ∀ list, wp (system kind) (application kind) (edgeContract closed₀) ctx
      (TcpConnection.sendListInLoop host.connection list) (fun _ after => Since closed₀ ctx s after) s :=
  ⟨fun buf size => (TcpConnection.sendInLoop_kept (since_sends kind closed₀ ctx s) buf size).wp s ⟨placed,Aside.refl⟩,
    fun list => (TcpConnection.sendListInLoop_kept (since_sends kind closed₀ ctx s) list).wp s ⟨placed,Aside.refl⟩⟩

/-- Asked to, an object that holds its descriptor has a reason to close. -/
theorem forced_asked (placed : Placed closed₀ ctx s) :
    (edgeContract closed₀).pre ctx (.connection .onClose) (began (.connection .forceClose) s) := by
  rcases placed with ⟨held,_⟩ | gone
  · refine Or.inl ⟨held.note (by decide) (by decide),Or.inl ?_⟩
    change Happening.forceClose ∈ (s.tenure.note .forceClose).history
    rw [held.tenure.note_eq]
    simp
  · exact Or.inr (gone.congr gone.tenure.note_eq)

theorem connection_edge (m : TcpConnection.Method) (pre : (edgeContract closed₀).pre ctx (.connection m) s) :
    wp (system kind) (application kind) (edgeContract closed₀) ctx (TcpConnection.body host.connection m)
      (fun _ after => (edgeContract closed₀).post ctx (.connection m) s after) (began (.connection m) s) := by
  cases m with
  | send buf size => exact (sends_since kind closed₀ ctx s pre).1 buf size
  | sendList list => exact (sends_since kind closed₀ ctx s pre).2 list
  | retrieve count => exact ⟨pre.congr rfl rfl rfl,Aside.refl⟩
  | readLoop => exact readLoop_exhausts kind closed₀ ctx s pre.1 pre.2.1 pre.2.2
  | writeLoop => exact writeLoop_exhausts kind closed₀ ctx s pre.1.1 pre.1.2 pre.2.1 pre.2.2.1 pre.2.2.2
  | forceClose =>
    refine ⟨forced_asked closed₀ ctx s pre,fun after done => ?_⟩
    exact ⟨⟨done.1.1,Aside.trans (Tenure.aside_note rfl) done.1.2⟩,done.2⟩
  | onClose => exact baseClose_letGo kind closed₀ ctx s pre
  | onRead | onWrite | onError | onTimeout => exact pre.elim

/-- A client differs in the handlers, in `OnClose` and in `Send`. -/
theorem client_edge (m : Method) (pre : (edgeContract closed₀).pre ctx m s) :
    wp (system kind) (application kind) (edgeContract closed₀) ctx (TcpClient.body host m)
      (fun _ after => (edgeContract closed₀).post ctx m s after) (began m s) := by
  cases m with
  | connect => exact connect_since kind closed₀ ctx s pre
  | baseSend buf size => exact (sends_since kind closed₀ ctx s pre).1 buf size
  | baseSendList list => exact (sends_since kind closed₀ ctx s pre).2 list
  | connection m =>
    cases m with
    | onRead | onWrite => exact pre.elim
    | onClose => exact clientClose_letGo kind closed₀ ctx s pre
    | send buf size =>
      exact send_since kind closed₀ ctx s _ pre (TcpConnection.sendInLoop_kept (since_sends kind closed₀ ctx s) buf size)
    | sendList list =>
      exact send_since kind closed₀ ctx s _ pre (TcpConnection.sendListInLoop_kept (since_sends kind closed₀ ctx s) list)
    | retrieve count => exact connection_edge kind closed₀ ctx s (.retrieve count) pre
    | readLoop => exact connection_edge kind closed₀ ctx s .readLoop pre
    | writeLoop => exact connection_edge kind closed₀ ctx s .writeLoop pre
    | forceClose => exact connection_edge kind closed₀ ctx s .forceClose pre
    | onError | onTimeout => exact pre.elim

theorem edge_sound : (edgeContract closed₀).Sound (system kind) (application kind) where
  rely_refl := fun _ _ => Aside.refl
  rely_trans := fun _ _ _ _ => Aside.trans
  body := by
    intro ctx m s pre
    cases kind with
    | client => exact client_edge .client closed₀ ctx s m pre
    | connection =>
      cases m with
      | connection m => exact connection_edge .connection closed₀ ctx s m pre
      | _ => exact client_edge .connection closed₀ ctx s _ pre
  enter := by
    intro ctx m s placed allowed
    have entered := (Bool.and_eq_true_iff.mp allowed).2
    cases m with
    | connection m => cases m <;> first | exact placed | cases entered
    | _ => exact placed
  leave := by
    intro ctx m s after placed allowed done
    have entered := (Bool.and_eq_true_iff.mp allowed).2
    cases m with
    | connection m => cases m <;> first | exact done | exact done.1 | cases entered
    | _ => exact done

end Handlers

/-- When the handler does leave nothing behind: nothing interrupts it, it finds `closed_` unset,
and a client is connected; a client still connecting loses its descriptor in the callback. -/
def HoldsWhen (h : EdgeHandler) (s : World) (history : List Happening) : Prop :=
  match h with
  | .clientOnRead =>
    (s.tcp.status_ = kTcpConStatusConnected ∧ s.tcp.connection.closed_ = false ∧ ¬Interrupted history) ∨
      (s.tcp.status_ = kTcpConStatusConnecting ∧ (.reopened ∈ history ∨
        (s.tcp.connection.closed_ = false ∧ .forceClose ∈ history)))
  | _ => s.tcp.connection.closed_ = false ∧ ¬Interrupted history

def handler? : EdgeHandler → Option (Kind × Method)
  | .tcpOnRead => some (.connection,.connection .onRead)
  | .tcpOnWrite => some (.connection,.connection .onWrite)
  | .clientOnRead => some (.client,.connection .onRead)
  | _ => none

section Dispatched
variable {kind : Kind} {s : World}

theorem Dispatched.held (dispatched : Dispatched s) : Held s.tcp.connection.closed_ s := by
  refine ⟨?_,dispatched.descriptor,rfl⟩
  rw [dispatched.tenure]
  exact Tenure.start_holds

theorem Dispatched.history (dispatched : Dispatched s) : s.tenure.history = [] := by
  rw [dispatched.tenure]
  rfl

theorem Dispatched.placed (dispatched : Dispatched s) : Placed s.tcp.connection.closed_ [] s :=
  Or.inl ⟨dispatched.held,fun _ _ => by rw [dispatched.history]; exact List.not_mem_nil⟩

theorem onRead_returns (dispatched : Dispatched s) (h : EdgeHandler) (stream : h.stream = true) :
    wp (system kind) (application kind) (edgeContract s.tcp.connection.closed_) []
      (TcpConnection.onRead host.connection) (fun _ after => Exhausted h after.tenure.history ↔
        s.tcp.connection.closed_ = false ∧ ¬Interrupted after.tenure.history) s := by
  simp only [TcpConnection.onRead,wp_bind,wp_self,wp_ite,wp_pure]
  refine ⟨fun closed => ?_,fun opened => ?_⟩
  · rw [dispatched.history]
    exact iff_of_false not_exhausted_nil fun opened => by simp [closed] at opened
  · have open_ : s.tcp.connection.closed_ = false := by simpa using opened
    refine ⟨⟨dispatched.placed,open_,?_⟩,fun after done => ?_⟩
    · rw [dispatched.history]
      exact fun _ among => by cases among
    · exact (done h stream).trans (and_iff_right open_).symm

theorem onWrite_returns (dispatched : Dispatched s) :
    wp (system kind) (application kind) (edgeContract s.tcp.connection.closed_) []
      (TcpConnection.onWrite host.connection) (fun _ after => Exhausted .tcpOnWrite after.tenure.history ↔
        s.tcp.connection.closed_ = false ∧ ¬Interrupted after.tenure.history) s := by
  have fresh : (∀ event, event ∉ s.tenure.history) ∧ outcomes s.tenure.history = [] := by
    rw [dispatched.history]
    exact ⟨fun _ => List.not_mem_nil,rfl⟩
  simp only [TcpConnection.onWrite,wp_bind,wp_self,wp_ite,wp_pure]
  refine ⟨fun closed => ?_,fun opened => ?_⟩
  · rw [dispatched.history]
    exact iff_of_false not_exhausted_nil fun opened => by simp [closed] at opened
  · have open_ : s.tcp.connection.closed_ = false := by simpa using opened
    simp only [and_iff_right open_]
    refine ⟨fun _ => ⟨⟨⟨dispatched.held,fresh.1 _⟩,open_,fresh.1 _,?_⟩,fun _ done => done⟩,fun empty => ?_⟩
    · rw [fresh.2]
      exact fun _ among => by cases among
    · have calm : ¬Interrupted s.tenure.history := by
        rintro ⟨a,among,_⟩
        rw [fresh.2] at among
        cases among
      have ends := drained_exhausts kind _ [] s dispatched.held (fresh.1 _) (by simpa using empty) calm
      rw [wp_bind] at ends
      exact ends

/-- In the callback of a client just connected, a descriptor is lost in two ways. -/
theorem connecting_returns (after : World) (placed : Placed s.tcp.connection.closed_ [] after)
    (uncalled : outcomes after.tenure.history = []) :
    Exhausted .clientOnRead after.tenure.history ↔ .reopened ∈ after.tenure.history ∨
      (s.tcp.connection.closed_ = false ∧ .forceClose ∈ after.tenure.history) := by
  rw [exhausted_uncalled (by decide) uncalled]
  rcases placed with ⟨held,unasked⟩ | gone
  · refine iff_of_false held.tenure.released ?_
    rintro (reopened | ⟨open_,forced⟩)
    · exact held.tenure.released (Or.inr reopened)
    · exact unasked open_ List.not_mem_nil forced
  · refine iff_of_true gone.tenure.released (gone.reason.imp_right fun reason => ⟨reason.1,?_⟩)
    exact reason.2.resolve_right fun called => called uncalled

theorem holdsWhen_connecting (history : List Happening) (connecting : s.tcp.status_ = kTcpConStatusConnecting) :
    HoldsWhen .clientOnRead s history ↔
      .reopened ∈ history ∨ (s.tcp.connection.closed_ = false ∧ .forceClose ∈ history) := by
  have different : kTcpConStatusConnecting ≠ kTcpConStatusConnected := by decide
  simp [HoldsWhen,connecting,different]

theorem holdsWhen_connected (history : List Happening) (connected : s.tcp.status_ = kTcpConStatusConnected) :
    HoldsWhen .clientOnRead s history ↔ s.tcp.connection.closed_ = false ∧ ¬Interrupted history := by
  have different : kTcpConStatusConnected ≠ kTcpConStatusConnecting := by decide
  simp [HoldsWhen,connected,different]

theorem clientOnRead_returns (dispatched : Dispatched s) :
    wp (system kind) (application kind) (edgeContract s.tcp.connection.closed_) [] (TcpClient.onRead host)
      (fun _ after => Exhausted .clientOnRead after.tenure.history ↔
        HoldsWhen .clientOnRead s after.tenure.history) s := by
  simp only [TcpClient.onRead,onEvent,wp_bind,wp_status,wp_ite,wp_pure]
  refine ⟨fun connecting => ?_,fun other => ⟨fun connected => ?_,fun idle => ?_⟩⟩
  · have ends (after : World) (placed : Placed s.tcp.connection.closed_ [] after)
        (uncalled : outcomes after.tenure.history = []) :
        Exhausted .clientOnRead after.tenure.history ↔ HoldsWhen .clientOnRead s after.tenure.history :=
      (connecting_returns after placed uncalled).trans (holdsWhen_connecting _ connecting).symm
    have started : outcomes s.tenure.history = [] := by rw [dispatched.history]; rfl
    have connected : Placed s.tcp.connection.closed_ []
        { s with tcp := { s.tcp with status_ := kTcpConStatusConnected } } :=
      dispatched.placed.congr rfl rfl rfl
    -- The variable that `CheckError` tests is never assigned.
    refine ⟨trivial,fun a _ => ?_⟩
    change wp (system kind) (application kind) (edgeContract s.tcp.connection.closed_) []
      (if s.tcp.connect_cb_ = true then Prog.invoke .connect else pure ()) _ _
    rw [wp_ite]
    refine ⟨fun _ => ⟨(placed_cons (by decide)).mpr connected,fun after aside inv => ?_⟩,fun _ => ?_⟩
    · refine ends after ((placed_cons (by decide)).mp inv) ?_
      rw [aside.outcomes]
      exact started
    · exact ends _ connected started
  · apply wp_mono (onRead_returns dispatched .clientOnRead rfl)
    exact fun _ after done => done.trans (holdsWhen_connected _ connected).symm
  · rw [dispatched.history]
    exact iff_of_false not_exhausted_nil fun holds => by simp [HoldsWhen,other,idle] at holds

end Dispatched

/-- However its calls turn out and whatever the application does in its callbacks, a handler
that returns has left nothing behind exactly under this condition. -/
theorem returns_iff (h : EdgeHandler) (kind : Kind) (m : Method) (found : handler? h = some (kind,m))
    (s after : World) (dispatched : Dispatched s) (returns : Returns kind m s after) :
    Exhausted h after.tenure.history ↔ HoldsWhen h s after.tenure.history := by
  obtain ⟨moves,returned⟩ := returns
  have alone : ∀ s m, (application kind).enters [] s m = false := fun _ _ => rfl
  have sound := edge_sound kind s.tcp.connection.closed_
  cases h with
  | tcpOnRead =>
    cases found
    exact exec_returned sound alone (onRead_returns dispatched .tcpOnRead rfl) returned
  | tcpOnWrite =>
    cases found
    exact exec_returned sound alone (onWrite_returns dispatched) returned
  | clientOnRead =>
    cases found
    exact exec_returned sound alone (clientOnRead_returns dispatched) returned
  | acceptorOnRead | udpOnRead => cases found

end Tmms.Network.TcpExhaustion
