import Tmms.ConnectionStream
import Tmms.OutputReadiness
import Tmms.TcpConnectionSeen

/-! A connection that sends on a loop that polls: the readiness of its socket and the bytes it is
given, in one. It is seen as the one and as the other, so what is known of each holds here. -/
namespace Tmms.Network.PolledSender

open Reentrant
open OutputReadiness (Query Answer Method)

structure World where
  polled : OutputReadiness.World
  accepted : List UInt8
  sent : List UInt8
  closeCalls : Nat

abbrev Code := Prog World Query Answer TcpConnection.Callback Method

def World.stream (s : World) : Connection.World :=
  ⟨s.polled.connection,true,s.polled.connection.event_,s.accepted,s.sent,s.closeCalls⟩

def place : Place OutputReadiness.World World Query Query Answer Answer Method Method :=
  ⟨World.polled,fun polled s => { s with polled := polled },id,id,id⟩

def body : Method → Code Unit
  | .handler m => TcpConnection.body (OutputReadiness.host.within place) m
  | m => (OutputReadiness.body m).within place

def answered (memory : Nat → UInt8) (q : Query) (a : Answer) (s : World) : World :=
  { s with
    polled := OutputReadiness.system.answered q a s.polled
    accepted :=
      match q with
      | .io q => (Connection.answered memory q a.result s.stream).accepted
      | .epollMod _ => s.accepted }

def began (memory : Nat → UInt8) : Method → World → World
  | .handler m,s => { s with sent := (Connection.began memory m s.stream).sent }
  | _,s => s

def system (memory : Nat → UInt8) : System World Query Answer TcpConnection.Callback Method where
  body := body
  answered := answered memory
  began := began memory
  invoked := fun c s => { s with closeCalls := (Connection.invoked c s.stream).closeCalls }

def environment : Environment World Query Answer TcpConnection.Callback Method where
  admits := fun ctx s q a =>
    OutputReadiness.attentive.admits ctx s.polled q a &&
      match q with
      | .io q => Connection.carrying.admits ctx s.stream q a.result
      | .epollMod _ => true
  enters := fun ctx s m =>
    OutputReadiness.attentive.enters ctx s.polled m &&
      match m with
      | .handler m => Connection.carrying.enters ctx s.stream m
      | _ => true

section Readiness

def readiness : View World OutputReadiness.World Query Query Answer Answer TcpConnection.Callback
    TcpConnection.Callback Method Method :=
  ⟨World.polled,some,fun _ _ a => a,id,some⟩

theorem place_readiness : place.SeenIn readiness :=
  ⟨fun _ _ => rfl,rfl,fun _ => rfl,fun _ _ _ => rfl,fun _ => rfl,fun _ => rfl⟩

theorem readiness_simulation (memory : Nat → UInt8) :
    Simulation readiness (system memory) environment OutputReadiness.system OutputReadiness.attentive where
  admits := by
    rintro ctx s q a r ⟨⟩ admitted
    rw [show List.map readiness.callback ctx = ctx from List.map_id ctx]
    exact (Bool.and_eq_true _ _ ▸ admitted).1
  answered := by
    rintro q a s r ⟨⟩
    rfl
  enters := by
    rintro ctx s m n ⟨⟩ allowed
    rw [show List.map readiness.callback ctx = ctx from List.map_id ctx]
    exact (Bool.and_eq_true _ _ ▸ allowed).1
  began := by
    rintro m n s ⟨⟩
    cases m <;> rfl
  invoked := fun _ _ => rfl
  body := by
    rintro m n ⟨⟩
    cases m with
    | handler m => exact TcpConnection.body_seen (Host.within_seen place_readiness OutputReadiness.host) m
    | _ => exact within_seen place_readiness _
  hidden := by
    rintro ctx m s ⟨⟩

end Readiness

section History

def history : View World Connection.World Query TcpConnection.Query Answer Result TcpConnection.Callback
    TcpConnection.Callback Method TcpConnection.Method where
  state := World.stream
  query := fun q =>
    match q with
    | .io q => some q
    | .epollMod _ => none
  answer := fun _ _ a => a.result
  callback := id
  method := fun m =>
    match m with
    | .handler m => some m
    | _ => none

variable {memory : Nat → UInt8}

theorem io_history (q : TcpConnection.Query) :
    Prog.SeenAs history (system memory) ((OutputReadiness.io q).within place) (Prog.query q) := by
  refine fun s => ⟨fun unseen => ?_,fun r asked => ?_⟩
  · cases unseen
  · cases asked
    exact ⟨_,rfl,fun _ => rfl⟩

theorem host_history : (OutputReadiness.host.within place).SeenAs history (system memory) Connection.host where
  self := fun _ => rfl
  update := by
    intro f same s
    refine .inr ⟨.done (),?_,rfl⟩
    simp only [history,World.stream,place,same]
    rfl
  closeCallback := fun _ => ⟨_,rfl,fun _ => rfl⟩
  messageCallback := fun _ => ⟨_,rfl,fun _ => rfl⟩
  writeCompleteCallback := fun _ => ⟨_,rfl,fun _ => rfl⟩
  write := fun _ _ _ => io_history _
  writev := fun _ _ => io_history _
  readFd := fun _ => io_history _
  closeFd := fun fd => (io_history (.close fd)).bind fun _ => .pure _
  enableWriting := by
    intro on s
    refine .inr ⟨.done (),rfl,fun _ a => ⟨rfl,rfl⟩,fun _ asked => ?_⟩
    cases asked
  onClose := fun _ => ⟨_,_,rfl,rfl,fun _ => rfl⟩
  readLoop := fun _ => ⟨_,_,rfl,rfl,fun _ => rfl⟩
  writeLoop := fun _ => ⟨_,_,rfl,rfl,fun _ => rfl⟩

theorem history_simulation (memory : Nat → UInt8) :
    Simulation history (system memory) environment (Connection.system memory) Connection.carrying where
  admits := by
    intro ctx s q a r asked admitted
    cases q with
    | io q =>
      cases asked
      rw [show List.map history.callback ctx = ctx from List.map_id ctx]
      exact (Bool.and_eq_true _ _ ▸ admitted).2
    | epollMod events => cases asked
  answered := by
    intro q a s r asked
    cases q with
    | io q =>
      cases asked
      cases r <;> rfl
    | epollMod events => cases asked
  enters := by
    intro ctx s m n known allowed
    cases m with
    | handler m =>
      cases known
      rw [show List.map history.callback ctx = ctx from List.map_id ctx]
      exact (Bool.and_eq_true _ _ ▸ allowed).2
    | _ => cases known
  began := by
    intro m n s known
    cases m with
    | handler m =>
      cases known
      cases n with
      | send | sendList =>
        cases closed : s.polled.connection.closed_ <;>
          simp [history,system,began,World.stream,Connection.system,Connection.began,closed]
      | _ => rfl
    | _ => cases known
  invoked := by
    intro c s
    cases c <;> rfl
  body := by
    intro m n known
    cases m with
    | handler m =>
      cases known
      exact TcpConnection.body_seen host_history n
    | _ => cases known
  hidden := by
    intro ctx m s unseen allowed
    cases m with
    | handler m => cases unseen
    | rise bits => exact ⟨rfl,rfl,trivial⟩
    | poll => exact ⟨rfl,rfl,trivial⟩
    | dispatch =>
      refine ⟨rfl,?_⟩
      change Hidden history (system memory) Connection.carrying _ (OutputReadiness.dispatch.within place) s
      simp only [OutputReadiness.dispatch,Prog.read,bind,Prog.bind,Prog.within,Hidden]
      cases (place.get s).report with
      | none => trivial
      | some events =>
        refine ⟨rfl,?_⟩
        cases (EpollEvent.mk (place.get s).connection.fd_ events).handler with
        | none => trivial
        | some which => cases which <;> exact ⟨⟨_,rfl,rfl⟩,fun _ => trivial⟩

end History

theorem accepted_steady (memory : Nat → UInt8) :
    (system memory).Steady fun s after => s.accepted <+: after.accepted where
  refl := fun _ => List.prefix_rfl
  trans := fun _ _ _ => List.IsPrefix.trans
  body := by
    intro m
    cases m with
    | handler m =>
      exact TcpConnection.body_steady (Host.within_apart (fun _ _ => rfl) (fun _ _ => List.prefix_rfl) _) m
    | _ => exact within_apart (fun _ _ => rfl) (fun _ _ => List.prefix_rfl) _
  answered := by
    intro q a s
    cases q with
    | io q => exact (Connection.accepted_steady memory).answered q a.result s.stream
    | epollMod events => exact List.prefix_rfl
  began := by
    intro m s
    cases m <;> exact List.prefix_rfl
  invoked := fun _ _ => List.prefix_rfl

def Fresh (s : World) : Prop := Connection.Fresh s.stream

/-- On an open connection the loop is about to block, and there is room in the socket. -/
structure Blocked (c : Config World Query Answer TcpConnection.Callback Method) : Prop where
  stack : c.stack = []
  report : c.state.polled.report = none
  pending : c.state.polled.watch.pending = 0
  opened : c.state.polled.connection.closed_ = false
  room : c.state.polled.watch.ready.has EPOLLOUT = true

section Blocked
variable {memory : Nat → UInt8} {s : World} {c : Config World Query Answer TcpConnection.Callback Method}

theorem blocked_queue (fresh : Fresh s) (reached : (system memory).Reachable environment s c) (blocked : Blocked c) :
    c.state.polled.connection.io_vec_li_ = [] := by
  obtain ⟨d,reached,same,shown⟩ := simulated_reachable (readiness_simulation memory) s c reached
  rw [blocked.stack] at shown
  have stack : d.stack = [] := shown
  have state : d.state = c.state.polled := same
  have start : OutputReadiness.contract.inv [] s.polled := fun _ => OutputReadiness.served_empty fresh.queue
  have controlled : d.controlled := Config.controlled_of_nil stack
  have inv := reachable_invariant OutputReadiness.output_served s.polled d start reached controlled
  rw [stack,state] at inv
  by_contra waiting
  rcases inv List.not_mem_nil blocked.opened waiting with hears | ⟨_,events,reported,_⟩
  · have room := blocked.room
    rw [Mask.has_output] at room
    have bit := hears.pending room
    rw [blocked.pending] at bit
    simp at bit
  · rw [blocked.report] at reported
    cases reported

/-- Every byte sent has been accepted, in order and once. -/
theorem blocked_accepted (fresh : Fresh s) (reached : (system memory).Reachable environment s c)
    (blocked : Blocked c) : c.state.accepted = c.state.sent := by
  have queue := blocked_queue fresh reached blocked
  obtain ⟨d,reached,same,shown⟩ := simulated_reachable (history_simulation memory) s c reached
  rw [blocked.stack] at shown
  have whole := Connection.accepted_queued memory s.stream fresh d reached (Config.controlled_of_nil shown)
  rw [same] at whole
  have whole := whole blocked.opened
  rw [show (history.state c.state).connection.io_vec_li_ = [] from queue,Connection.described_nil,
    List.append_nil] at whole
  exact whole

end Blocked

def idle : World := ⟨OutputReadiness.connected,[],[],0⟩

theorem idle_fresh : Fresh idle := ⟨rfl,rfl,rfl,rfl,rfl⟩

end Tmms.Network.PolledSender
