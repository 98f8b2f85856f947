import Tmms.TcpConnectionRules

/-! A TCP connection after its end. A callback may close the connection in the middle of any
handler; what the handler still does then touches descriptor -1 only. -/
namespace Tmms.Network.AfterClose

open Reentrant TcpConnection

structure World where
  connection : TcpConnection
  registered : Bool
  interest : Mask
  -- callbacks made with `closed_` set already
  late : Nat

abbrev Code := Prog World Query Result Callback Method

def update (f : TcpConnection → TcpConnection) : Code Unit :=
  .modify fun s => { s with connection := f s.connection }

def enableEventWriting (on : Bool) (s : World) : World :=
  if s.registered then
    let mask := s.connection.event_.enable kEventWrite on
    { s with connection := { s.connection with event_ := mask }, interest := mask }
  else s

def host : Host World Query Result Callback Method where
  self := do return (← Prog.read).connection
  update := update
  closeCallback := .invoke .close
  messageCallback := .invoke .message
  writeCompleteCallback := .invoke .writeComplete
  write := fun fd buf size => .query (.write fd buf size)
  writev := fun fd vec => .query (.writev fd vec)
  readFd := fun fd => .query (.readFd fd)
  closeFd := fun fd => do let _ ← Prog.query (.close fd)
  enableWriting := fun on => .modify (enableEventWriting on)
  onClose := .run .onClose
  readLoop := .run .readLoop
  writeLoop := .run .writeLoop

def invoked (_ : Callback) (s : World) : World :=
  if s.connection.closed_ then { s with late := s.late + 1 } else s

def system : System World Query Result Callback Method where
  body := body host
  answered := fun _ _ s => s
  began := fun _ s => s
  invoked := invoked

/-- Handlers, sends and closes in any order and from inside any callback, with any answers
of the system; `writev` reports at most the bytes it was shown, and `readv` fails on -1. -/
def anyUse : Environment World Query Result Callback Method where
  admits := fun _ _ q a =>
    match q with
    | .writev _ vec => decide (a.ret ≤ total vec)
    | .readFd fd => decide (fd ≠ -1 ∨ a = ⟨-1,EBADF,[]⟩)
    | _ => true
  enters := fun _ _ m =>
    match m with
    | .readLoop | .writeLoop => false
    | _ => true

structure Fresh (s : World) : Prop where
  opened : s.connection.closed_ = false
  descriptor : s.connection.fd_ > 0
  late : s.late = 0

@[simp] theorem enable_closed (on : Bool) (s : World) :
    (enableEventWriting on s).connection.closed_ = s.connection.closed_ := by
  unfold enableEventWriting; split <;> rfl

@[simp] theorem enable_fd (on : Bool) (s : World) :
    (enableEventWriting on s).connection.fd_ = s.connection.fd_ := by
  unfold enableEventWriting; split <;> rfl

@[simp] theorem enable_late (on : Bool) (s : World) : (enableEventWriting on s).late = s.late := by
  unfold enableEventWriting; split <;> rfl

def accepted : World := ⟨⟨5,kEventRead,false,true,true,true,[],[]⟩,true,kEventRead,0⟩

theorem accepted_fresh : Fresh accepted := ⟨rfl,by decide,rfl⟩

/-- What is closed stays closed, and -1 stays -1. -/
def Shuts (s after : World) : Prop :=
  (s.connection.closed_ = true → after.connection.closed_ = true) ∧
    (s.connection.fd_ = -1 → after.connection.fd_ = -1)

theorem shuts_query (q : Query) : (Prog.query q : Code Result).Steady Shuts :=
  fun _ _ _ => trivial

theorem host_steady : host.Steady Shuts where
  self := fun _ => trivial
  update := fun _ plain => .modify fun s =>
    ⟨fun closed => (plain s.connection).2.1.trans closed,fun gone => (plain s.connection).1.trans gone⟩
  mark := .modify fun _ => ⟨fun _ => rfl,id⟩
  forget := .modify fun _ => ⟨id,fun _ => rfl⟩
  closeCallback := fun _ _ => trivial
  messageCallback := fun _ _ => trivial
  writeCompleteCallback := fun _ _ => trivial
  write := fun _ _ _ => shuts_query _
  writev := fun _ _ => shuts_query _
  readFd := fun _ => shuts_query _
  closeFd := fun _ => .bind (shuts_query _) fun _ _ => trivial
  enableWriting := fun on => .modify fun s =>
    ⟨fun closed => (enable_closed on s).trans closed,fun gone => (enable_fd on s).trans gone⟩
  onClose := fun _ _ => trivial
  readLoop := fun _ _ => trivial
  writeLoop := fun _ _ => trivial

theorem system_steady : system.Steady Shuts where
  refl := fun _ => ⟨id,id⟩
  trans := fun _ _ _ first second => ⟨second.1 ∘ first.1,second.2 ∘ first.2⟩
  body := body_steady host_steady
  answered := fun _ _ _ => ⟨id,id⟩
  began := fun _ _ => ⟨id,id⟩
  invoked := fun t s => by
    change Shuts s (invoked t s)
    unfold invoked
    split <;> exact ⟨id,id⟩

structure Sane (s : World) : Prop where
  descriptor : s.connection.fd_ > 0 ∨ s.connection.fd_ = -1
  closed : s.connection.closed_ = true → s.connection.fd_ = -1
  late : s.late = 0

def calm (q : Query) (s : World) : Prop :=
  s.connection.closed_ = true →
    q = .readFd (-1) ∨ (q = .close s.connection.fd_ ∧ s.connection.fd_ > 0)

def closeContract : Contract World Query Callback Method where
  inv := fun _ => Sane
  rely := fun _ _ _ => True
  pre := fun _ m s => Sane s ∧ (m = .writeLoop → s.connection.closed_ = false)
  post := fun _ m _ after => Sane after ∧ (m = .onClose → after.connection.closed_ = true)
  asks := fun _ => calm
  mayFault := False

section Contract
variable (ctx : List Callback) (s : World)

theorem Sane.congr {s after : World} (sane : Sane s) (fd : after.connection.fd_ = s.connection.fd_)
    (closed : after.connection.closed_ = s.connection.closed_) (late : after.late = s.late) : Sane after :=
  ⟨by rw [fd]; exact sane.descriptor,by rw [fd,closed]; exact sane.closed,by rw [late]; exact sane.late⟩

theorem Sane.update {s : World} (sane : Sane s) (f : TcpConnection → TcpConnection) (plain : Plain f) :
    Sane { s with connection := f s.connection } :=
  sane.congr (plain s.connection).1 (plain s.connection).2.1 rfl

theorem Sane.enable {s : World} (sane : Sane s) (on : Bool) : Sane (enableEventWriting on s) :=
  sane.congr (by simp) (by simp) (by simp)

theorem calm_open {q : Query} {s : World} (opened : s.connection.closed_ = false) : calm q s :=
  fun closed => absurd closed (by simp [opened])

theorem sane_invoked {s : World} (sane : Sane s) (opened : s.connection.closed_ = false) (t : Callback) :
    Sane (invoked t s) := by
  rw [invoked,if_neg (by simp [opened])]
  exact sane

theorem close_sane (fd : s.connection.fd_ > 0 ∨ s.connection.fd_ = -1)
    (closed : s.connection.closed_ = true) (late : s.late = 0) :
    wp system anyUse closeContract ctx (TcpConnection.close host)
      (fun _ after => Sane after ∧ after.connection.closed_ = true) s := by
  simp only [TcpConnection.close,host,update,wp_bind,wp_read,wp_pure,wp_ite,wp_query,wp_modify]
  constructor
  · intro positive
    exact ⟨fun _ => Or.inr ⟨rfl,positive⟩,fun _ _ => ⟨⟨Or.inr rfl,fun _ => rfl,late⟩,closed⟩⟩
  · intro gone
    exact ⟨⟨fd,fun _ => fd.resolve_left gone,late⟩,closed⟩

theorem onClose_sane (sane : Sane s) :
    wp system anyUse closeContract ctx (TcpConnection.onClose host)
      (fun _ after => Sane after ∧ after.connection.closed_ = true) s := by
  simp only [TcpConnection.onClose,host,update,wp_bind,wp_read,wp_pure,wp_ite,wp_invoke,wp_modify]
  constructor
  · intro opened
    constructor
    · intro _
      refine ⟨sane_invoked sane opened .close,fun after _ inv => ?_⟩
      exact close_sane ctx { after with connection := { after.connection with closed_ := true } }
        inv.descriptor rfl inv.late
    · intro _
      exact close_sane ctx { s with connection := { s.connection with closed_ := true } }
        sane.descriptor rfl sane.late
  · intro closed
    exact ⟨sane,by simpa using closed⟩

theorem run_sane (m : Method) (other : m ≠ .writeLoop) (sane : Sane s) :
    wp system anyUse closeContract ctx (Prog.run m) (fun _ after => Sane after) s :=
  ⟨⟨sane,fun same => absurd same other⟩,fun _ done => done.1⟩

/-- `readv` on -1 delivers nothing, so the message callback is made on an open connection. -/
theorem readLoop_sane (sane : Sane s) :
    wp system anyUse closeContract ctx (TcpConnection.readLoop host) (fun _ after => Sane after) s := by
  simp only [TcpConnection.readLoop,host,update,wp_bind,wp_read,wp_pure,wp_ite,wp_query,wp_modify,wp_invoke]
  refine ⟨fun closed => Or.inl (by rw [sane.closed closed]),?_⟩
  intro a admitted
  refine ⟨?_,fun _ => ⟨fun _ => ?_,fun _ => ⟨fun _ => ?_,fun _ => sane⟩⟩⟩
  · intro delivered
    have opened : s.connection.closed_ = false := by
      by_contra closed
      have gone := sane.closed (by simpa using closed)
      have failed : s.connection.fd_ ≠ -1 ∨ a = ⟨-1,EBADF,[]⟩ := by simpa [anyUse] using admitted
      rw [failed.resolve_left fun other => other gone] at delivered
      exact absurd delivered (by decide)
    have filled := sane.update (fun c => { c with message_buffer_ := c.message_buffer_ ++ a.data })
      fun _ => ⟨rfl,rfl,rfl,rfl⟩
    constructor
    · intro _
      refine ⟨sane_invoked filled opened .message,fun after _ inv => ?_⟩
      exact run_sane ctx after .readLoop (by decide) inv
    · intro _
      exact run_sane ctx _ .readLoop (by decide) filled
  · exact run_sane ctx s .onClose (by decide) sane
  · exact run_sane ctx s .onClose (by decide) sane

theorem writeComplete_sane (sane : Sane s) (opened : s.connection.closed_ = false) :
    wp system anyUse closeContract ctx (TcpConnection.writeComplete host) (fun _ after => Sane after) s := by
  simp only [TcpConnection.writeComplete,host,wp_bind,wp_read,wp_pure,wp_ite,wp_invoke]
  exact ⟨fun _ => ⟨sane_invoked sane opened .writeComplete,fun _ _ inv => inv⟩,fun _ => sane⟩

/-- Interest in writing goes off, and the callback comes last. -/
theorem drained_sane (sane : Sane s) (opened : s.connection.closed_ = false) :
    wp system anyUse closeContract ctx (TcpConnection.writeComplete host) (fun _ after => Sane after)
      (enableEventWriting false s) :=
  writeComplete_sane ctx _ (sane.enable false) (by simpa using opened)

theorem writeLoop_sane (sane : Sane s) (opened : s.connection.closed_ = false) :
    wp system anyUse closeContract ctx (TcpConnection.writeLoop host) (fun _ after => Sane after) s := by
  simp only [TcpConnection.writeLoop,host,wp_bind,wp_read,wp_pure,wp_query,wp_ite]
  refine ⟨calm_open opened,?_⟩
  intro a admitted
  constructor
  · intro written
    have bound : a.ret ≤ total s.connection.io_vec_li_ := by simpa [anyUse] using admitted
    obtain ⟨queue,consumed⟩ := consume_total s.connection.io_vec_li_ a.ret.toNat (by omega)
    have shorter := sane.update (fun c => { c with io_vec_li_ := queue }) fun _ => ⟨rfl,rfl,rfl,rfl⟩
    simp only [consumed,update,wp_bind,wp_modify,wp_ite,wp_run]
    exact ⟨fun _ => drained_sane ctx _ shorter opened,fun _ => ⟨⟨shorter,fun _ => opened⟩,fun _ done => done.1⟩⟩
  · intro _
    exact ⟨fun _ => run_sane ctx s .onClose (by decide) sane,fun _ => sane⟩

theorem sendRest_sane (buf send_len size : Nat) (sane : Sane s) (opened : s.connection.closed_ = false) :
    wp system anyUse closeContract ctx (TcpConnection.sendRest host buf send_len size)
      (fun _ after => Sane after) s := by
  simp only [TcpConnection.sendRest,host,update,wp_bind,wp_ite,wp_modify]
  refine ⟨fun _ => writeComplete_sane ctx s sane opened,fun _ => Sane.enable ?_ true⟩
  exact sane.update (fun c => { c with io_vec_li_ := c.io_vec_li_ ++ [⟨addPtr buf send_len,size⟩] })
    fun _ => ⟨rfl,rfl,rfl,rfl⟩

theorem sendInLoop_sane (buf size : Nat) (sane : Sane s) :
    wp system anyUse closeContract ctx (TcpConnection.sendInLoop host buf size)
      (fun _ after => Sane after) s := by
  simp only [TcpConnection.sendInLoop,host,wp_bind,wp_read,wp_pure,wp_ite,wp_query]
  refine ⟨fun _ => sane,fun notClosed => ?_⟩
  have opened : s.connection.closed_ = false := by simpa using notClosed
  refine ⟨fun _ => ⟨calm_open opened,fun a _ => ⟨fun negative => absurd negative (Nat.not_lt_zero _),fun _ => ?_⟩⟩,fun _ => ?_⟩
  · exact sendRest_sane ctx s buf _ _ sane opened
  · exact sendRest_sane ctx s buf _ _ sane opened

theorem sendListInLoop_sane (list : List BufferNode) (sane : Sane s) :
    wp system anyUse closeContract ctx (TcpConnection.sendListInLoop host list)
      (fun _ after => Sane after) s := by
  simp only [TcpConnection.sendListInLoop,host,update,wp_bind,wp_read,wp_pure,wp_ite,wp_modify]
  have longer := sane.update (fun c => { c with
    io_vec_li_ := c.io_vec_li_ ++ list.map fun l => ⟨l.addr,l.size⟩ }) fun _ => ⟨rfl,rfl,rfl,rfl⟩
  exact ⟨fun _ => sane,fun _ => ⟨fun _ => longer.enable true,fun _ => longer⟩⟩

theorem onRead_sane (sane : Sane s) :
    wp system anyUse closeContract ctx (TcpConnection.onRead host) (fun _ after => Sane after) s := by
  simp only [TcpConnection.onRead,host,wp_bind,wp_read,wp_pure,wp_ite]
  exact ⟨fun _ => sane,fun _ => run_sane ctx s .readLoop (by decide) sane⟩

theorem onWrite_sane (sane : Sane s) :
    wp system anyUse closeContract ctx (TcpConnection.onWrite host) (fun _ after => Sane after) s := by
  simp only [TcpConnection.onWrite,host,wp_bind,wp_read,wp_pure,wp_ite,wp_run,wp_modify]
  refine ⟨fun _ => sane,fun notClosed => ?_⟩
  have opened : s.connection.closed_ = false := by simpa using notClosed
  exact ⟨fun _ => ⟨⟨sane,fun _ => opened⟩,fun _ done => done.1⟩,fun _ => drained_sane ctx s sane opened⟩

theorem body_sane (m : Method) (pre : closeContract.pre ctx m s) :
    wp system anyUse closeContract ctx (body host m) (fun _ after => closeContract.post ctx m s after) s := by
  obtain ⟨sane,opened⟩ := pre
  by_cases itself : m = .onClose
  · subst itself
    exact wp_mono (onClose_sane ctx s sane) fun _ _ done => ⟨done.1,fun _ => done.2⟩
  suffices kept : wp system anyUse closeContract ctx (body host m) (fun _ after => Sane after) s from
    wp_mono kept fun _ _ done => ⟨done,fun same => absurd same itself⟩
  cases m with
  | send buf size => exact sendInLoop_sane ctx s buf size sane
  | sendList list => exact sendListInLoop_sane ctx s list sane
  | retrieve count => exact sane.congr rfl rfl rfl
  | onRead => exact onRead_sane ctx s sane
  | readLoop => exact readLoop_sane ctx s sane
  | onWrite => exact onWrite_sane ctx s sane
  | writeLoop => exact writeLoop_sane ctx s sane (opened rfl)
  | onError | onTimeout | forceClose => exact run_sane ctx s .onClose (by decide) sane
  | onClose => contradiction

theorem close_sound : closeContract.Sound system anyUse where
  rely_refl := fun _ _ => trivial
  rely_trans := fun _ _ _ _ _ _ => trivial
  body := fun ctx m s => body_sane ctx s m
  enter := by
    intro ctx m s inv allowed
    refine ⟨inv,fun same => ?_⟩
    subst same
    cases allowed
  leave := fun _ _ _ _ _ _ done => ⟨done.1,trivial⟩

end Contract

/-- Once a call of `OnClose` has come back, in every run and whatever was running around it:
`fd_` stays -1, no system call is made but reads of -1, and no callback is made. -/
theorem no_io_after_close (s after : World) (c later : Config World Query Result Callback Method)
    (rest : List (Frame World Query Result Callback Method)) (moves more : List (Move World Query Result Callback Method))
    (fresh : Fresh s) (reached : system.Reachable anyUse s c) (calls : System.Calls anyUse c .onClose rest)
    (returned : system.exec anyUse moves (system.started c .onClose rest) = some ⟨after,rest⟩)
    (further : system.exec anyUse more ⟨after,rest⟩ = some later) :
    later.state.connection.closed_ = true ∧ later.state.connection.fd_ = -1 ∧
      (∀ q next below, later.stack = .code (.ask q next) :: below → q = .readFd (-1)) ∧
      ∀ t next below, later.stack ≠ .code (.callback t next) :: below := by
  have start : Sane s := ⟨Or.inl fresh.descriptor,fun closed => absurd closed (by simp [fresh.opened]),fresh.late⟩
  obtain ⟨first,second,mid,split,ran,sane,closed⟩ :=
    reachable_returns close_sound s c start reached calls moves after returned
  obtain ⟨move,begins⟩ := calls.step (T := system)
  have back : system.Reachable anyUse s ⟨mid,rest⟩ :=
    reached.exec (show system.exec anyUse (move :: first) c = _ by rw [System.exec,begins]; exact ran)
  have rejoined : system.exec anyUse (second ++ more) ⟨mid,rest⟩ = some later := by
    rw [split,System.exec_append,ran] at returned
    rw [System.exec_append,show system.exec anyUse second ⟨mid,rest⟩ = some ⟨after,rest⟩ from returned]
    exact further
  have shuts : Shuts mid later.state := reachable_steady system_steady s _ later _ back rejoined
  have finished := back.exec rejoined
  have isClosed := shuts.1 (closed rfl)
  have gone := shuts.2 (sane.closed (closed rfl))
  refine ⟨isClosed,gone,?_,?_⟩
  · intro q next below top
    rcases reachable_asks close_sound s later start finished top isClosed with read | ⟨_,positive⟩
    · exact read
    · rw [gone] at positive
      exact absurd positive (by decide)
  · intro t next below top
    -- one step later the user has the late callback
    have called : system.step anyUse later .advance = some ⟨invoked t later.state,.user t :: .code next :: below⟩ := by
      obtain ⟨state,stack⟩ := later
      cases top
      rfl
    have inside : system.Reachable anyUse s ⟨invoked t later.state,.user t :: .code next :: below⟩ :=
      finished.exec (show system.exec anyUse [.advance] later = _ by simp [System.exec,called])
    have none : (invoked t later.state).late = 0 :=
      (reachable_invariant close_sound s _ start inside trivial).late
    rw [invoked,if_pos isClosed] at none
    exact absurd none (Nat.succ_ne_zero _)

/-- Closed from its message callback, the connection goes on to read descriptor -1. -/
theorem no_io_after_close_message :
    ∃ later : Config World Query Result Callback Method,
      (∃ next below, later.stack = .code (.ask (.readFd (-1)) next) :: below) ∧
        later.state.connection.closed_ = true ∧ later.state.connection.fd_ = -1 ∧
        (∀ q next below, later.stack = .code (.ask q next) :: below → q = .readFd (-1)) ∧
        ∀ t next below, later.stack ≠ .code (.callback t next) :: below := by
  have reached := system.play_reachable anyUse 40 [.enter .onRead,.answer ⟨1,0,[7]⟩] accepted _ rfl
  have closing := reached.exec (show system.exec anyUse [.enter .forceClose] _ = _ from rfl)
  refine ⟨_,?_,no_io_after_close accepted _ _ _ _
    [.advance,.advance,.leave,.advance,.advance,.advance,.answer ⟨0,0,[]⟩,.advance,.advance,.advance]
    [.advance,.leave,.advance,.advance] accepted_fresh closing (Or.inr ⟨_,_,rfl,rfl⟩) rfl rfl⟩
  exact ⟨_,_,rfl⟩

end Tmms.Network.AfterClose
