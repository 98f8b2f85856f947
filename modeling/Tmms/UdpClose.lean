import Tmms.UdpSocketRules

/-! The end of a UDP socket, of a server's and of a client's. `UdpSocket::OnClose` asks for
`closed_` before it sets it, so no trigger ever closes anything: the callback is not made and
the descriptor stays open. -/
namespace Tmms.Network.UdpClose

open Reentrant UdpSocket

/-- The three classes whose `OnClose` a trigger may end in. -/
inductive Kind where
  | udpSocket
  | udpServer
  | udpClient
  deriving DecidableEq

inductive Trigger where
  | onError
  | onTimeout
  | forceClose
  | stop
  -- `recvfrom` or `sendto` failed for good
  | fatal
  deriving DecidableEq

inductive Happening where
  | trigger (t : Trigger)
  | callback
  | closed (fd : Int)
  -- a datagram is asked for or offered
  | io (fd : Int)
  deriving DecidableEq

/-- A socket of any of the three classes, how epoll has it, and what has happened; `connected_` is
`UdpClient`'s. -/
structure World where
  socket : UdpSocket
  connected_ : Bool
  registered : Bool
  interest : Mask
  history : List Happening

def World.record (s : World) (happenings : List Happening) : World :=
  { s with history := s.history ++ happenings }

inductive Method where
  | socket (m : UdpSocket.Method)
  | stop
  deriving DecidableEq

abbrev Code := Prog World Query Result Callback Method

def enableEventWriting (on : Bool) (s : World) : World :=
  if s.registered then
    let mask := s.socket.event_.enable kEventWrite on
    { s with socket := { s.socket with event_ := mask }, interest := mask }
  else s

/-- `EventLoop::DelEvent` for this socket. -/
def delEvent (s : World) : World := { s with registered := false }

def host : UdpHost World Query Result Callback Method where
  self := do return (← Prog.read).socket
  update := fun f => .modify fun s => { s with socket := f s.socket }
  closeCallback := .invoke .close
  messageCallback := .invoke .message
  writeCompleteCallback := .invoke .writeComplete
  sendto := fun fd buf size addr len => .query (.sendto fd buf size addr len)
  recvfrom := fun fd size => .query (.recvfrom fd size)
  closeFd := fun fd => do let _ ← Prog.query (.close fd)
  enableWriting := fun on => .modify (enableEventWriting on)
  lockEntry := do return (← Prog.query .lockEntry).ret ≠ 0
  insertEntry := fun delay => do let _ ← Prog.query (.insertEntry delay)
  onClose := .run (.socket .onClose)
  readLoop := .run (.socket .readLoop)
  writeLoop := .run (.socket .writeLoop)

def clientOnClose : Code Unit := do
  let s ← Prog.read
  if s.connected_ then do
    Prog.modify delEvent
    Prog.modify fun s => { s with connected_ := false }
    UdpSocket.onClose host

def stop : Code Unit := do
  Prog.modify delEvent
  Prog.run (.socket .onClose)

def body (kind : Kind) : Method → Code Unit
  | .socket .onClose => if kind = .udpClient then clientOnClose else UdpSocket.onClose host
  | .socket m => UdpSocket.body host m
  | .stop => stop

def answered (q : Query) (a : Result) (s : World) : World :=
  match q with
  | .sendto fd _ _ _ _ | .recvfrom fd _ =>
    s.record (.io fd :: if a.ret < 0 ∧ fatal a.errno then [.trigger .fatal] else [])
  | .close fd => s.record [.closed fd]
  | _ => s

def began (m : Method) (s : World) : World :=
  match m with
  | .socket .onError => s.record [.trigger .onError]
  | .socket .onTimeout => s.record [.trigger .onTimeout]
  | .socket .forceClose => s.record [.trigger .forceClose]
  | .stop => s.record [.trigger .stop]
  | _ => s

def invoked (t : Callback) (s : World) : World :=
  match t with
  | .close => s.record [.callback]
  | _ => s

def system (kind : Kind) : System World Query Result Callback Method :=
  ⟨body kind,answered,began,invoked⟩

/-- Events, sends, timeouts and closes in any order and from inside any callback, with any
answers of the system; `recvfrom` delivers at most what fits the size it is given. -/
def anyUse (kind : Kind) : Environment World Query Result Callback Method where
  admits := fun _ _ q a =>
    match q with
    | .recvfrom _ size => decide (a.ret ≤ size) && decide (0 < a.ret → a.data.length = a.ret)
    | _ => true
  enters := fun _ _ m =>
    match m with
    | .socket .readLoop | .socket .writeLoop => false
    | .stop => decide (kind = .udpServer)
    | _ => true

structure Opened (kind : Kind) (s : World) : Prop where
  closed_ : s.socket.closed_ = false
  descriptor : s.socket.fd_ > 0
  registered : s.registered = true
  connected_ : kind = .udpClient → s.connected_ = true
  history : s.history = []

/-- The first trigger makes the close callback, if one is set, and closes `fd`. Neither comes
twice, and nothing is received or sent on `fd` once it is closed. -/
structure ClosesOnce (fd : Int) (close_cb_ : Bool) (history : List Happening) : Prop where
  first : ∀ before t after, history = before ++ .trigger t :: after → (∀ u, .trigger u ∉ before) →
    (close_cb_ = true → .callback ∈ after) ∧ .closed fd ∈ after
  callback : history.count .callback ≤ 1
  closed : history.countP (fun h => h matches .closed _) ≤ 1
  last : ∀ before after, history = before ++ .closed fd :: after → .io fd ∉ after

structure Quiet (s : World) : Prop where
  closed_ : s.socket.closed_ = false
  callback : .callback ∉ s.history
  closed : ∀ fd, .closed fd ∉ s.history

def quietContract : Contract World Query Callback Method where
  inv := fun _ => Quiet
  rely := fun _ _ _ => True
  pre := fun _ _ => Quiet
  post := fun _ _ _ => Quiet
  asks := fun _ q _ => ∀ fd, q ≠ .close fd
  mayFault := True

section Contract
variable (kind : Kind) (ctx : List Callback) (s : World)

theorem Quiet.congr {s after : World} (quiet : Quiet s) (closed : after.socket.closed_ = s.socket.closed_)
    (history : after.history = s.history) : Quiet after :=
  ⟨by rw [closed]; exact quiet.closed_,by rw [history]; exact quiet.callback,
    by rw [history]; exact quiet.closed⟩

theorem Quiet.record {s : World} (quiet : Quiet s) (happenings : List Happening)
    (callback : .callback ∉ happenings) (closed : ∀ fd, .closed fd ∉ happenings) :
    Quiet (s.record happenings) := by
  refine ⟨quiet.closed_,?_,fun fd => ?_⟩
  · simpa [World.record,quiet.callback] using callback
  · simpa [World.record,quiet.closed fd] using closed fd

theorem quiet_answered {q : Query} (a : Result) (other : ∀ fd, q ≠ .close fd) (quiet : Quiet s) :
    Quiet (answered q a s) := by
  have passing (fd : Int) :
      Quiet (s.record (.io fd :: if a.ret < 0 ∧ fatal a.errno then [.trigger .fatal] else [])) := by
    apply quiet.record <;> grind
  cases q with
  | sendto fd buf size addr len => exact passing fd
  | recvfrom fd size => exact passing fd
  | close fd => exact absurd rfl (other fd)
  | _ => exact quiet

theorem quiet_began (m : Method) (quiet : Quiet s) : Quiet (began m s) := by
  unfold began
  split
  · apply quiet.record <;> simp
  · apply quiet.record <;> simp
  · apply quiet.record <;> simp
  · apply quiet.record <;> simp
  · exact quiet

theorem quiet_query (q : Query) (other : ∀ fd, q ≠ .close fd) :
    Kept (system kind) (anyUse kind) quietContract ctx Quiet (Prog.query q) fun _ => True :=
  fun s quiet => ⟨other,fun a _ => ⟨trivial,quiet_answered s a other quiet⟩⟩

theorem quiet_run (m : Method) :
    Kept (system kind) (anyUse kind) quietContract ctx Quiet (Prog.run m) fun _ => True :=
  fun _ quiet => ⟨quiet,fun _ done => ⟨trivial,done⟩⟩

theorem quiet_invoke (t : Callback) (other : t ≠ .close) :
    Kept (system kind) (anyUse kind) quietContract ctx Quiet (Prog.invoke t) fun _ => True := by
  intro s quiet
  have same : invoked t s = s := by cases t <;> first | rfl | contradiction
  exact ⟨show Quiet (invoked t s) by rw [same]; exact quiet,fun _ _ inv => ⟨trivial,inv⟩⟩

theorem quiet_modify (f : World → World) (closed : ∀ s, (f s).socket.closed_ = s.socket.closed_)
    (history : ∀ s, (f s).history = s.history) :
    Kept (system kind) (anyUse kind) quietContract ctx Quiet (Prog.modify f) fun _ => True :=
  fun s quiet => ⟨trivial,quiet.congr (closed s) (history s)⟩

theorem host_keeps : host.Keeps (system kind) (anyUse kind) quietContract ctx Quiet where
  self := .bind .read fun _ _ => .pure trivial
  update := fun _ plain => quiet_modify kind ctx _ (fun s => (plain s.socket).2.1) fun _ => rfl
  messageCallback := quiet_invoke kind ctx .message (by decide)
  writeCompleteCallback := quiet_invoke kind ctx .writeComplete (by decide)
  sendto := fun _ _ _ _ _ => quiet_query kind ctx _ fun _ same => by cases same
  recvfrom := fun _ _ => quiet_query kind ctx _ fun _ same => by cases same
  enableWriting := fun on => quiet_modify kind ctx _ (fun s => by unfold enableEventWriting; split <;> rfl)
    fun s => by unfold enableEventWriting; split <;> rfl
  lockEntry := .bind (quiet_query kind ctx _ fun _ same => by cases same) fun _ _ => .pure trivial
  insertEntry := fun _ => .bind (quiet_query kind ctx _ fun _ same => by cases same) fun _ _ => .pure trivial
  onClose := quiet_run kind ctx (.socket .onClose)
  readLoop := quiet_run kind ctx (.socket .readLoop)
  writeLoop := quiet_run kind ctx (.socket .writeLoop)
  fault := trivial

/-- `if (closed_)` is not taken. -/
theorem onClose_quiet : Kept (system kind) (anyUse kind) quietContract ctx Quiet (UdpSocket.onClose host)
    fun _ => True := by
  intro s quiet
  simp only [UdpSocket.onClose,host,wp_bind,wp_read,wp_pure,wp_ite]
  exact ⟨fun closed => absurd closed (by simp [quiet.closed_]),fun _ => ⟨trivial,quiet⟩⟩

theorem delEvent_quiet : Kept (system kind) (anyUse kind) quietContract ctx Quiet (Prog.modify delEvent)
    fun _ => True :=
  quiet_modify kind ctx delEvent (fun _ => rfl) fun _ => rfl

theorem clientOnClose_quiet : Kept (system kind) (anyUse kind) quietContract ctx Quiet clientOnClose
    fun _ => True := by
  refine .bind .read fun _ _ => .ite (fun _ => ?_) fun _ => .pure trivial
  refine .bind (delEvent_quiet kind ctx) fun _ _ => ?_
  exact .bind (quiet_modify kind ctx _ (fun _ => rfl) fun _ => rfl) fun _ _ => onClose_quiet kind ctx

theorem stop_quiet : Kept (system kind) (anyUse kind) quietContract ctx Quiet stop fun _ => True :=
  .bind (delEvent_quiet kind ctx) fun _ _ => quiet_run kind ctx (.socket .onClose)

theorem body_quiet (m : Method) : Kept (system kind) (anyUse kind) quietContract ctx Quiet (body kind m)
    fun _ => True := by
  cases m with
  | stop => exact stop_quiet kind ctx
  | socket m =>
    by_cases itself : m = .onClose
    · subst itself
      exact .ite (fun _ => clientOnClose_quiet kind ctx) fun _ => onClose_quiet kind ctx
    · have same : body kind (.socket m) = UdpSocket.body host m := by
        cases m <;> first | rfl | contradiction
      rw [same]
      exact body_kept (host_keeps kind ctx) m itself

theorem quiet_sound : quietContract.Sound (system kind) (anyUse kind) where
  rely_refl := fun _ _ => trivial
  rely_trans := fun _ _ _ _ _ _ => trivial
  body := fun ctx m s quiet => (body_quiet kind ctx m).wp _ (quiet_began s m quiet)
  enter := fun _ _ _ quiet _ => quiet
  leave := fun _ _ _ _ _ _ done => ⟨done,trivial⟩

end Contract

/-- A history without an end is one of a socket that closes once, unless it was asked to. -/
theorem Quiet.closesOnce_iff {s : World} (quiet : Quiet s) (fd : Int) (close_cb_ : Bool) :
    ClosesOnce fd close_cb_ s.history ↔ ∀ t, .trigger t ∉ s.history := by
  constructor
  · intro closes t asked
    obtain ⟨found,chosen⟩ := Option.isSome_iff_exists.mp
      (List.find?_isSome.mpr ⟨_,asked,rfl⟩ : (s.history.find? fun h => h matches .trigger _).isSome)
    obtain ⟨isTrigger,before,after,split,none⟩ := List.find?_eq_some_iff_append.mp chosen
    cases found with
    | trigger u =>
      have ended := (closes.first before u after split fun v among => by simpa using none _ among).2
      apply quiet.closed fd
      rw [split]
      exact List.mem_append_right _ (List.mem_cons_of_mem _ ended)
    | _ => cases isTrigger
  · intro unasked
    refine ⟨?_,?_,?_,?_⟩
    · intro before t after split _
      exact absurd (by rw [split]; simp) (unasked t)
    · rw [List.count_eq_zero_of_not_mem quiet.callback]
      exact Nat.zero_le 1
    · have none : s.history.countP (fun h => h matches .closed _) = 0 := by
        rw [List.countP_eq_zero]
        intro h among isClosed
        cases h with
        | closed fd => exact quiet.closed fd among
        | _ => cases isClosed
      omega
    · intro before after split
      exact absurd (by rw [split]; simp) (quiet.closed fd)

/-- Between operations, in every run of a socket, a server's or a client's: it closes once and
for good exactly if nothing has asked for its end yet. -/
theorem closes_iff_untriggered (kind : Kind) (s : World) (c : Config World Query Result Callback Method)
    (opened : Opened kind s) (reached : (system kind).Reachable (anyUse kind) s c) (between : c.stack = []) :
    ClosesOnce s.socket.fd_ s.socket.close_cb_ c.state.history ↔ ∀ t, .trigger t ∉ c.state.history := by
  have start : Quiet s := ⟨opened.closed_,by simp [opened.history],by simp [opened.history]⟩
  have controlled : c.controlled := Config.controlled_of_nil between
  have quiet : Quiet c.state := reachable_invariant (quiet_sound kind) s c start reached controlled
  exact quiet.closesOnce_iff s.socket.fd_ s.socket.close_cb_

def idle : World where
  socket := ⟨7,kEventRead,false,[],30,.initial message_buffer_size_,true,true,true⟩
  connected_ := true
  registered := true
  interest := kEventRead
  history := []

theorem idle_opened (kind : Kind) : Opened kind idle := ⟨rfl,by decide,rfl,fun _ => rfl,rfl⟩

/-- A client that fails to receive. -/
theorem closes_iff_untriggered_client :
    ∃ c : Config World Query Result Callback Method, c.state.history = [.io 7,.trigger .fatal] ∧
      (ClosesOnce 7 true c.state.history ↔ ∀ t, .trigger t ∉ c.state.history) := by
  have reached := (system .udpClient).play_reachable (anyUse .udpClient) 40
    [.enter (.socket .onRead),.answer ⟨-1,111,[]⟩] idle _ rfl
  exact ⟨_,rfl,closes_iff_untriggered .udpClient idle _ (idle_opened _) reached rfl⟩

/-- A server that is stopped keeps its descriptor and tells nobody. -/
theorem stop_closes_nothing :
    ∃ c, (system .udpServer).Reachable (anyUse .udpServer) idle c ∧ c.stack = [] ∧
      c.state.history = [.trigger .stop] ∧ c.state.socket.fd_ = 7 ∧ c.state.registered = false ∧
      ¬ClosesOnce 7 true c.state.history := by
  have reached := (system .udpServer).play_reachable (anyUse .udpServer) 40 [.enter .stop] idle _ rfl
  refine ⟨_,reached,rfl,rfl,rfl,rfl,?_⟩
  intro closes
  have ended := (closes.first [] .stop [] rfl fun _ => List.not_mem_nil).2
  cases ended

end Tmms.Network.UdpClose
