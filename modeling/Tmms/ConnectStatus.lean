import Tmms.Reconnect

/-! Whether a client that says it is connected is. An event that finds the client connecting asks
for the pending error of its socket; each such error is recorded, with what has come of it. -/
namespace Tmms.Network.ConnectStatus

open Reentrant TcpClient

/-- A pending error that `getsockopt` has stored; what `status_` is set to next, and whether `OnClose`
was called before; and whether `connect_cb_` is called, up to the next `connect` or check. -/
structure Check where
  error : Nat
  status : Option Int
  closing : Bool
  reported : Bool

namespace Check

def set (status : Int) (check : Check) : Check :=
  if check.status = none then { check with status := some status } else check

def close (check : Check) : Check :=
  if check.status = none then { check with closing := true } else check

def report (check : Check) : Check := { check with reported := true }

/-- Success is reported for no error, and each other error ends in `OnClose`. -/
structure Right (check : Check) : Prop where
  success : check.status = some kTcpConStatusConnected ∨ check.reported = true → check.error = 0
  failure : check.error ≠ 0 → check.status = some kTcpConStatusDisConnected ∧ check.closing = true

end Check

/-- The client, the check of its current attempt, and the checks before, oldest first. -/
structure World where
  client : Reconnect.World
  latest : Option Check
  earlier : List Check

namespace World
variable (s : World)

def checks : List Check := s.earlier ++ s.latest.toList

def map (f : Reconnect.World → Reconnect.World) : World := { s with client := f s.client }

def mark (f : Check → Check) : World := { s with latest := s.latest.map f }

def next (check : Option Check) : World := { s with latest := check, earlier := s.checks }

end World

abbrev Code := Prog World Query Result Callback Method

def host : ClientHost World Query Result Callback Method where
  connection := {
    self := do return (← Prog.read).client.connection
    update := fun f => .modify (·.map (·.update f))
    closeCallback := .invoke (.connection .close)
    messageCallback := .invoke (.connection .message)
    writeCompleteCallback := .invoke (.connection .writeComplete)
    write := fun fd buf size => .query (.connection (.write fd buf size))
    writev := fun fd vec => .query (.connection (.writev fd vec))
    readFd := fun fd => .query (.connection (.readFd fd))
    closeFd := fun fd => do let _ ← Prog.query (.connection (.close fd))
    enableWriting := fun on => .modify (·.map (·.enableWriting on))
    onClose := .run (.connection .onClose)
    readLoop := .run (.connection .readLoop)
    writeLoop := .run (.connection .writeLoop) }
  status_ := do return (← Prog.read).client.status_
  setStatus := fun status => .modify fun s =>
    (s.map fun client => { client with status_ := status }).mark (.set status)
  connect_cb_ := do return (← Prog.read).client.connect_cb_
  connectCallback := .invoke .connect
  socket := .query .socket
  connect := fun fd => .query (.connect fd)
  getsockopt := fun fd => .query (.getsockopt fd)
  addEvent := .modify (·.map (·.addEvent))
  delEvent := .modify (·.map (·.delEvent))

/-- `getsockopt` stores the pending error where its pointer says, which is into `errno`. -/
def answered (q : Query) (a : Result) (s : World) : World :=
  let after := s.map (Reconnect.answered q a)
  match q with
  | .getsockopt _ => after.next (if a.ret = 0 then some ⟨a.errno,none,false,false⟩ else none)
  | .connect _ => after.next none
  | _ => after

def began (m : Method) (s : World) : World :=
  match m with
  | .connection .onClose => s.mark .close
  | _ => s

def invoked (t : Callback) (s : World) : World :=
  match t with
  | .connect => s.mark .report
  | _ => s

def system : System World Query Result Callback Method := ⟨body host,answered,began,invoked⟩

def environment : Environment World Query Result Callback Method where
  admits := fun ctx s q a => Reconnect.anyUse.admits ctx s.client q a
  enters := fun ctx s m => Reconnect.anyUse.enters ctx s.client m

/-- Whatever the error was, the client has been said to be connected. -/
def Decided (s : World) : Prop := ∀ check ∈ s.checks, check.status = some kTcpConStatusConnected

def decidedContract : Contract World Query Callback Method where
  inv := fun _ s => Decided s
  rely := fun _ _ _ => True
  pre := fun _ _ s => Decided s
  post := fun _ _ _ after => Decided after
  asks := fun _ _ _ => True
  mayFault := False

section Decided
variable {s : World}

theorem Decided.congr (decided : Decided s) (after : World) (latest : after.latest = s.latest)
    (earlier : after.earlier = s.earlier) : Decided after := by
  unfold Decided World.checks at *
  rw [latest,earlier]
  exact decided

theorem Decided.mark (decided : Decided s) {f : Check → Check}
    (same : ∀ check, check.status = some kTcpConStatusConnected → (f check).status = check.status) :
    Decided (s.mark f) := by
  intro check among
  rcases List.mem_append.mp among with before | now
  · exact decided check (List.mem_append_left _ before)
  · obtain ⟨old,was,rfl⟩ := Option.map_eq_some_iff.mp (Option.mem_toList.mp now)
    have connected := decided old (List.mem_append_right _ (Option.mem_toList.mpr was))
    rw [same old connected]
    exact connected

theorem set_decided {status : Int} (check : Check) (connected : check.status = some kTcpConStatusConnected) :
    (check.set status).status = check.status := by
  simp [Check.set,connected]

theorem close_decided (check : Check) (connected : check.status = some kTcpConStatusConnected) :
    check.close.status = check.status := by
  simp [Check.close,connected]

theorem next_decided (decided : Decided s) : Decided (s.next none) := by
  intro check among
  apply decided
  simpa [World.next,World.checks] using among

/-- The next status of a client with a new check is that it is connected. -/
theorem checked_decided (decided : Decided s) (error : Nat) :
    Decided ((s.next (some ⟨error,none,false,false⟩)).mark (.set kTcpConStatusConnected)) := by
  intro check among
  rcases List.mem_append.mp among with before | now
  · exact decided check before
  · simp only [World.mark,World.next,Option.map_some,Option.toList_some,List.mem_singleton] at now
    subst now
    rfl

end Decided

section Handlers
variable (ctx : List Callback)

theorem decided_run (m : Method) :
    Kept system environment decidedContract ctx Decided (Prog.run m) fun _ => True :=
  fun _ decided => ⟨decided,fun _ done => ⟨trivial,done⟩⟩

theorem decided_invoke (t : Callback) (other : t ≠ .connect) :
    Kept system environment decidedContract ctx Decided (Prog.invoke t) fun _ => True := by
  intro s decided
  refine ⟨?_,fun _ _ inv => ⟨trivial,inv⟩⟩
  cases t with
  | connection t => exact decided
  | connect => exact absurd rfl other

theorem decided_modify (f : Reconnect.World → Reconnect.World) :
    Kept system environment decidedContract ctx Decided (Prog.modify (·.map f)) fun _ => True :=
  fun _ decided => ⟨trivial,decided.congr _ rfl rfl⟩

/-- A system call other than the check and `connect`. -/
theorem decided_query (q : Query) (same : ∀ a s, answered q a s = s.map (Reconnect.answered q a)) :
    Kept system environment decidedContract ctx Decided (Prog.query q) fun _ => True := by
  intro s decided
  refine ⟨trivial,fun a _ => ⟨trivial,?_⟩⟩
  change Decided (answered q a s)
  rw [same]
  exact decided.congr _ rfl rfl

theorem connection_keeps :
    host.connection.Keeps system environment decidedContract ctx Decided fun _ => True where
  self := fun _ decided => ⟨trivial,decided⟩
  update := fun _ _ => decided_modify ctx _
  messageCallback := decided_invoke ctx _ (by decide)
  writeCompleteCallback := decided_invoke ctx _ (by decide)
  write := fun _ _ _ => decided_query ctx _ fun _ _ => rfl
  writev := by
    intro fd vec s decided
    refine ⟨trivial,fun a admitted => ⟨⟨?_,fun _ => trivial⟩,decided.congr _ rfl rfl⟩⟩
    simpa [environment,Reconnect.anyUse] using admitted
  readFd := fun _ _ decided => ⟨trivial,fun _ _ => ⟨fun _ => trivial,decided.congr _ rfl rfl⟩⟩
  enableWriting := fun _ => decided_modify ctx _
  onClose := fun s holds => decided_run ctx _ s holds.2
  readLoop := decided_run ctx _
  writeLoop := decided_run ctx _

theorem decided_closeFd (fd : Int) :
    Kept system environment decidedContract ctx Decided (host.connection.closeFd fd) fun _ => True :=
  Kept.bind (decided_query ctx _ fun _ _ => rfl) fun _ _ => Kept.pure trivial

theorem decided_setStatus (status : Int) :
    Kept system environment decidedContract ctx Decided (host.setStatus status) fun _ => True :=
  fun _ decided => ⟨trivial,(decided.congr _ rfl rfl).mark set_decided⟩

theorem decided_connectCallback :
    Kept system environment decidedContract ctx Decided host.connectCallback fun _ => True :=
  fun _ decided => ⟨decided.mark fun _ _ => rfl,fun _ _ inv => ⟨trivial,inv⟩⟩

@[simp] theorem wp_status (s : World) (goal : Int → World → Prop) :
    wp system environment decidedContract ctx host.status_ goal s ↔ goal s.client.status_ s := Iff.rfl

@[simp] theorem wp_connect_cb (s : World) (goal : Bool → World → Prop) :
    wp system environment decidedContract ctx host.connect_cb_ goal s ↔ goal s.client.connect_cb_ s := Iff.rfl

/-- From the moment that the status is set, also where a check was made just before. -/
theorem update_decided {s : World} (decided : Decided (s.mark (.set kTcpConStatusConnected))) :
    wp system environment decidedContract ctx (updateConnectionStatus host) (fun _ after => Decided after) s := by
  have callback : Kept system environment decidedContract ctx Decided
      (do if (← host.connect_cb_) then host.connectCallback) fun _ => True := by
    intro s decided
    rw [wp_bind,wp_connect_cb,wp_ite]
    exact ⟨fun _ => decided_connectCallback ctx s decided,fun _ => ⟨trivial,decided⟩⟩
  rw [updateConnectionStatus,wp_bind]
  exact callback.wp _ (decided.congr _ rfl rfl)

/-- `CheckError` returns false, whatever the error is. -/
theorem checkError_decided {s : World} (decided : Decided s) (goal : Bool → World → Prop)
    (passes : ∀ after, Decided (after.mark (.set kTcpConStatusConnected)) → goal false after) :
    wp system environment decidedContract ctx (checkError host) goal s := by
  refine ⟨trivial,fun a _ => passes _ ?_⟩
  have answer : answered (.getsockopt s.client.connection.fd_) a s =
      s.next (if a.ret = 0 then some ⟨a.errno,none,false,false⟩ else none) := rfl
  change Decided ((answered (.getsockopt s.client.connection.fd_) a s).mark _)
  rw [answer]
  split
  · exact checked_decided decided a.errno
  · exact (next_decided decided).mark set_decided

theorem onEvent_decided (connected : Code Unit)
    (kept : Kept system environment decidedContract ctx Decided connected fun _ => True) :
    Kept system environment decidedContract ctx Decided (onEvent host connected) fun _ => True := by
  intro s decided
  rw [onEvent,wp_bind,wp_status,wp_ite,wp_ite]
  refine ⟨fun _ => ?_,fun _ => ⟨fun _ => kept s decided,fun _ => ⟨trivial,decided⟩⟩⟩
  rw [wp_bind]
  apply checkError_decided ctx decided
  intro after checked
  exact wp_mono (update_decided ctx checked) fun _ _ done => ⟨trivial,done⟩

theorem onClose_decided :
    Kept system environment decidedContract ctx Decided (TcpClient.onClose host) fun _ => True := by
  have keeps := connection_keeps ctx
  have close := TcpConnection.close_kept keeps.self (decided_closeFd ctx) (decided_modify ctx _)
  have base := TcpConnection.onClose_kept keeps.self (decided_invoke ctx _ (by decide)) (decided_modify ctx _) close
  have ends := Kept.bind (decided_setStatus ctx kTcpConStatusDisConnected) fun _ _ => base
  have status : Kept system environment decidedContract ctx Decided host.status_ fun _ => True :=
    fun _ decided => ⟨trivial,decided⟩
  refine Kept.bind status fun _ _ => Kept.ite (fun _ => ?_) fun _ => ends
  exact Kept.bind (decided_modify ctx _) fun _ _ => ends

/-- A call of `connect` ends the check before it. -/
theorem decided_connect (fd : Int) :
    Kept system environment decidedContract ctx Decided (host.connect fd) fun _ => True :=
  fun _ decided => ⟨trivial,fun _ _ => ⟨trivial,next_decided (decided.congr _ rfl rfl)⟩⟩

theorem connectEnded_decided (result : Result) :
    Kept system environment decidedContract ctx Decided (connectEnded host result) fun _ => True := by
  have closes := decided_run ctx (.connection .onClose)
  apply Kept.ite
  · intro _ s decided
    exact wp_mono (update_decided ctx (decided.mark set_decided)) fun _ _ done => ⟨trivial,done⟩
  · intro _
    apply Kept.ite
    · exact fun _ => Kept.ite (fun _ => closes) fun _ => Kept.pure trivial
    · exact fun _ => Kept.pure trivial

theorem connectInLoop_decided :
    Kept system environment decidedContract ctx Decided (connectInLoop host) fun _ => True := by
  have keeps := connection_keeps ctx
  refine Kept.bind (decided_query ctx .socket fun _ _ => rfl) fun result _ => ?_
  refine Kept.bind (decided_modify ctx _) fun _ _ => Kept.ite (fun _ => decided_run ctx _) fun _ => ?_
  refine Kept.bind (decided_setStatus ctx _) fun _ _ => Kept.bind (decided_modify ctx _) fun _ _ => ?_
  refine Kept.bind (keeps.enableWriting true) fun _ _ => Kept.bind keeps.self fun this _ => ?_
  exact Kept.bind (decided_connect ctx this.fd_) fun result _ => connectEnded_decided ctx result

theorem send_decided (inLoop : Code Unit)
    (kept : Kept system environment decidedContract ctx Decided inLoop fun _ => True) :
    Kept system environment decidedContract ctx Decided (send host inLoop) fun _ => True := by
  intro s decided
  rw [send,wp_bind,wp_status,wp_ite]
  exact ⟨fun _ => kept s decided,fun _ => ⟨trivial,decided⟩⟩

theorem body_decided (m : Method) (s : World) (decided : Decided s) :
    wp system environment decidedContract ctx (body host m) (fun _ after => Decided after) s := by
  have keeps := connection_keeps ctx
  have base (m : TcpConnection.Method) (other : m ≠ .onClose) :
      wp system environment decidedContract ctx (TcpConnection.body host.connection m)
        (fun _ after => Decided after) s :=
    TcpConnection.body_kept keeps m other s decided fun _ => trivial
  cases m with
  | connect => exact (connectInLoop_decided ctx).wp s decided
  | baseSend buf size => exact (TcpConnection.sendInLoop_kept keeps.toSends buf size).wp s decided
  | baseSendList list => exact (TcpConnection.sendListInLoop_kept keeps.toSends list).wp s decided
  | connection m =>
    cases m with
    | onRead => exact (onEvent_decided ctx _ (TcpConnection.onRead_kept keeps)).wp s decided
    | onWrite => exact (onEvent_decided ctx _ (TcpConnection.onWrite_kept keeps)).wp s decided
    | onClose => exact (onClose_decided ctx).wp s decided
    | send buf size =>
      exact (send_decided ctx _ (TcpConnection.sendInLoop_kept keeps.toSends buf size)).wp s decided
    | sendList list =>
      exact (send_decided ctx _ (TcpConnection.sendListInLoop_kept keeps.toSends list)).wp s decided
    | retrieve count => exact base (.retrieve count) fun same => by cases same
    | readLoop => exact base .readLoop (by decide)
    | writeLoop => exact base .writeLoop (by decide)
    | onError => exact base .onError (by decide)
    | onTimeout => exact base .onTimeout (by decide)
    | forceClose => exact base .forceClose (by decide)

theorem began_decided (m : Method) {s : World} (decided : Decided s) : Decided (began m s) := by
  unfold began
  split
  · exact decided.mark close_decided
  · exact decided

theorem decided_sound : decidedContract.Sound system environment where
  rely_refl := fun _ _ => trivial
  rely_trans := fun _ _ _ _ _ _ => trivial
  body := fun ctx m s decided => body_decided ctx m (began m s) (began_decided m decided)
  enter := fun _ _ _ decided _ => decided
  leave := fun _ _ _ _ _ _ done => ⟨done,trivial⟩

end Handlers

/-- In every run of a client, each pending error that an event has found while the client was
connecting is met as it should be if and only if there was none. -/
theorem success_real_iff (client : Reconnect.World) (c : Config World Query Result Callback Method)
    (reached : system.Reachable environment ⟨client,none,[]⟩ c) (controlled : c.controlled) :
    ∀ check ∈ c.state.checks, check.Right ↔ check.error = 0 := by
  have start : Decided ⟨client,none,[]⟩ := fun _ none => by cases none
  have decided : Decided c.state := reachable_invariant decided_sound _ c start reached controlled
  intro check among
  have connected := decided check among
  constructor
  · exact fun right => right.success (Or.inl connected)
  · exact fun fine => ⟨fun _ => fine,fun error => absurd fine error⟩

/-- What `Loop` calls for an entry that it finds the client under. -/
def handled (ev : EpollEvent) : Option Method :=
  ev.handler.map fun
    | .onError => .connection .onError
    | .onClose => .connection .onClose
    | .onRead => .connection .onRead
    | .onWrite => .connection .onWrite

/-- A client that connects, and whose descriptor 5 is reported writable alone; the check then finds this
error. -/
def connecting (error : Nat) : List (Move World Query Result Callback Method) :=
  [.enter .connect,.answer ⟨5,0,[]⟩,.answer ⟨-1,EINPROGRESS,[]⟩] ++
    (handled ⟨5,EPOLLOUT⟩).toList.map .enter ++ [.answer ⟨0,error,[]⟩,.leave]

theorem success_real_connected :
    ∃ c : Config World Query Result Callback Method, c.state.client.status_ = kTcpConStatusConnected ∧
      ∃ check ∈ c.state.checks, check.reported = true ∧ (check.Right ↔ check.error = 0) := by
  obtain ⟨c,reached,controlled,status,checks⟩ :
      ∃ c, system.Reachable environment ⟨Reconnect.unconnected,none,[]⟩ c ∧ c.controlled ∧
        c.state.client.status_ = kTcpConStatusConnected ∧
        c.state.checks = [⟨0,some kTcpConStatusConnected,false,true⟩] :=
    ⟨_,system.play_reachable environment 40 (connecting 0) ⟨Reconnect.unconnected,none,[]⟩ _ rfl,trivial,rfl,rfl⟩
  have among : ⟨0,some kTcpConStatusConnected,false,true⟩ ∈ c.state.checks := by
    rw [checks]
    exact List.mem_singleton_self _
  exact ⟨c,status,_,among,rfl,success_real_iff Reconnect.unconnected c reached controlled _ among⟩

/-- The handshake is over and `Loop` has taken the report of it; a reset (`ECONNRESET`) arrives before
the check, and the client says it is connected. -/
theorem reset_reported :
    ∃ c, system.Reachable environment ⟨Reconnect.unconnected,none,[]⟩ c ∧ c.stack = [] ∧
      c.state.client.status_ = kTcpConStatusConnected ∧
      c.state.checks = [⟨104,some kTcpConStatusConnected,false,true⟩] ∧ ¬∀ check ∈ c.state.checks, check.Right := by
  have reached := system.play_reachable environment 40 (connecting 104) ⟨Reconnect.unconnected,none,[]⟩ _ rfl
  refine ⟨_,reached,rfl,rfl,rfl,fun right => ?_⟩
  have none := (right _ (List.mem_singleton_self _)).success (Or.inl rfl)
  cases none

end Tmms.Network.ConnectStatus
