import Tmms.MessageReceiver
import Tmms.OutputReadiness
import Tmms.TcpConnectionSeen

/-! A connection that parses what it receives, on a loop that polls. What comes to its socket waits
there until it is read; the loop hears of it by edges, and reads until there is no more. -/
namespace Tmms.Network.PolledReceiver

open Reentrant
open OutputReadiness (Query)

/-- A receiver, what has come to its socket and has not been read, whether the peer has finished,
and all that has come, oldest first. -/
structure World where
  receiver : MessageReceiver.World
  input : List UInt8
  ended : Bool
  watch : Watch
  report : Option Mask
  arrived : List UInt8

inductive Happening where
  | data (bytes : List UInt8)
  | finish
  -- room for output, an error or a hang-up; also what is reported again where the mask is
  -- level-triggered
  | rise (bits : Mask)

/-- After its end nothing more comes. -/
def happen (s : World) : Happening → World
  | .data bytes =>
    if s.ended then s
    else { s with input := s.input ++ bytes, arrived := s.arrived ++ bytes, watch := s.watch.rise EPOLLIN }
  | .finish => { s with ended := true, watch := s.watch.rise EPOLLIN }
  | .rise bits => { s with watch := s.watch.rise bits }

/-- What a system call gives back, what has happened since the last one, and whether it has left
the socket without room. -/
structure Answer where
  result : Result
  before : List Happening
  spent : Bool

inductive Method where
  | inner (m : MessageReceiver.Method)
  | happen (what : Happening)
  | poll
  | dispatch

abbrev Code := Prog World Query Answer MessageReceiver.Callback Method

def place : Place MessageReceiver.World World TcpConnection.Query Query Result Answer MessageReceiver.Method Method :=
  ⟨World.receiver,fun receiver s => { s with receiver := receiver },.io,Answer.result,.inner⟩

def enableWriting (on : Bool) : Code Unit := do
  (MessageReceiver.host.enableWriting on).within place
  let s ← Prog.read
  let _ ← Prog.query (.epollMod s.receiver.connection.event_)

def host : Host World Query Answer MessageReceiver.Callback Method :=
  { MessageReceiver.host.within place with enableWriting := enableWriting }

def handler (m : TcpConnection.Method) : Code Unit := .run (.inner (.handler m))

def dispatch : Code Unit := do
  let s ← Prog.read
  match s.report with
  | none => pure ()
  | some events => do
    Prog.modify fun s => { s with report := none }
    match (EpollEvent.mk s.receiver.connection.fd_ events).handler with
    | some .onError => handler .onError
    | some .onClose => handler .onClose
    | some .onRead => handler .onRead
    | some .onWrite => handler .onWrite
    | none => pure ()

def body : Method → Code Unit
  | .inner (.handler m) => TcpConnection.body host m
  | .inner .parse => MessageReceiver.parse.within place
  | .happen _ => pure ()
  | .poll => .modify fun s => { s with report := s.watch.poll.1, watch := s.watch.poll.2 }
  | .dispatch => dispatch

/-- A read that leaves nothing leaves the socket unready. -/
def take (data : List UInt8) (s : World) : World :=
  let rest := s.input.drop data.length
  { s with input := rest, watch := if rest.isEmpty && !s.ended then s.watch.fall EPOLLIN else s.watch }

def effect (a : Answer) (s : World) : Query → World
  | .io (.readFd _) => if a.result.ret > 0 then take a.result.data s else s
  | .io (.write _ _ _) | .io (.writev _ _) => if a.spent then { s with watch := s.watch.fall EPOLLOUT } else s
  | .io (.close _) => s
  | .epollMod events => { s with watch := s.watch.modify events }

def happens (before : List Happening) (s : World) : World := before.foldl happen s

def answered (q : Query) (a : Answer) (s : World) : World :=
  { effect a (happens a.before s) q with
    receiver :=
      match q with
      | .io q => MessageReceiver.answered q a.result s.receiver
      | .epollMod _ => s.receiver }

def system : System World Query Answer MessageReceiver.Callback Method where
  body := body
  answered := answered
  began := fun m s =>
    match m with
    | .happen what => happen s what
    | _ => s
  invoked := fun c s => { s with receiver := MessageReceiver.invoked c s.receiver }

/-- A read takes what is there, ends where the peer has finished, and fails for want of bytes only
where there are none; no signal interrupts it while there are any. -/
def readable (a : Result) (s : World) : Bool :=
  if a.ret > 0 then a.data.isPrefixOf s.input
  else if a.ret = 0 then s.input.isEmpty && s.ended
  else fatal a.errno || (s.input.isEmpty && !s.ended)

/-- Sends and closes at any time and inside callbacks, timeouts between events; the loop polls and
then comes to its report. -/
def environment : Environment World Query Answer MessageReceiver.Callback Method where
  admits := fun ctx s q a =>
    match q with
    | .io q => MessageReceiver.environment.admits ctx s.receiver q a.result &&
        match q with
        | .readFd _ => readable a.result (happens a.before s)
        | _ => true
    | .epollMod _ => true
  enters := fun ctx s m =>
    match m with
    | .inner (.handler (.send _ _)) | .inner (.handler (.sendList _)) | .inner (.handler .forceClose)
    | .happen _ => true
    | .inner (.handler .onTimeout) => ctx.isEmpty
    | .inner _ => false
    | .poll => ctx.isEmpty && s.report.isNone
    | .dispatch => ctx.isEmpty && s.report.isSome

section Seen

def parsing : View World MessageReceiver.World Query TcpConnection.Query Answer Result MessageReceiver.Callback
    MessageReceiver.Callback Method MessageReceiver.Method where
  state := World.receiver
  query := fun q =>
    match q with
    | .io q => some q
    | .epollMod _ => none
  answer := fun _ _ a => a.result
  callback := id
  method := fun m =>
    match m with
    | .inner m => some m
    | _ => none

theorem place_parsing : place.SeenIn parsing :=
  ⟨fun _ _ => rfl,rfl,fun _ => rfl,fun _ _ _ => rfl,fun _ => rfl,fun _ => rfl⟩

@[simp] theorem happen_receiver (s : World) (what : Happening) : (happen s what).receiver = s.receiver := by
  cases what with
  | data bytes =>
    simp only [happen]
    split <;> rfl
  | _ => rfl

theorem host_parsing : host.SeenAs parsing system MessageReceiver.host :=
  { Host.within_seen place_parsing MessageReceiver.host with
    enableWriting := by
      intro on
      have told : Prog.SeenAs parsing system (do
          let s ← Prog.read
          let _ ← Prog.query (.epollMod s.receiver.connection.event_)) (pure ()) := by
        refine fun s => ⟨fun _ a => ⟨rfl,rfl⟩,fun r asked => ?_⟩
        cases asked
      have whole := (within_seen place_parsing (MessageReceiver.host.enableWriting on)).bind fun _ => told
      rw [show (MessageReceiver.host.enableWriting on >>= fun _ => pure ()) = _ from Prog.bind_done _] at whole
      exact whole }

theorem parsing_simulation :
    Simulation parsing system environment MessageReceiver.system MessageReceiver.environment where
  admits := by
    intro ctx s q a r asked admitted
    cases q with
    | io q =>
      cases asked
      rw [show List.map parsing.callback ctx = ctx from List.map_id ctx]
      exact (Bool.and_eq_true _ _ ▸ admitted).1
    | epollMod events => cases asked
  answered := by
    intro q a s r asked
    cases q with
    | io q =>
      cases asked
      rfl
    | epollMod events => cases asked
  enters := by
    intro ctx s m n known allowed
    rw [show List.map parsing.callback ctx = ctx from List.map_id ctx]
    cases m with
    | inner m =>
      cases known
      cases n with
      | handler m =>
        cases m with
        | send | sendList | forceClose => simp [MessageReceiver.environment]
        | onTimeout =>
          cases ctx with
          | nil => rfl
          | cons c ctx => cases allowed
        | _ => cases allowed
      | parse => cases allowed
    | _ => cases known
  began := by
    intro m n s known
    cases m with
    | inner m => rfl
    | _ => cases known
  invoked := fun _ _ => rfl
  body := by
    intro m n known
    cases m with
    | inner m =>
      cases known
      cases n with
      | handler m => exact TcpConnection.body_seen host_parsing m
      | parse => exact within_seen place_parsing _
    | _ => cases known
  hidden := by
    intro ctx m s unseen allowed
    cases m with
    | inner m => cases unseen
    | happen what => exact ⟨happen_receiver s what,trivial⟩
    | poll => exact ⟨rfl,rfl,trivial⟩
    | dispatch =>
      have outside : ctx = [] := List.isEmpty_iff.mp (Bool.and_eq_true _ _ ▸ allowed).1
      subst outside
      refine ⟨rfl,?_⟩
      change Hidden parsing system MessageReceiver.environment _ dispatch s
      simp only [dispatch,Prog.read,bind,Prog.bind,Hidden]
      cases s.report with
      | none => trivial
      | some events =>
        refine ⟨rfl,?_⟩
        cases (EpollEvent.mk s.receiver.connection.fd_ events).handler with
        | none => trivial
        | some which => cases which <;> exact ⟨⟨_,rfl,rfl⟩,fun _ => trivial⟩

end Seen

end Tmms.Network.PolledReceiver
