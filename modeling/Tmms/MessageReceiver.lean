import Tmms.ParseMessage
import Tmms.ReentrantRecords
import Tmms.TcpConnectionRules

/-! A connection whose message callback hands its buffer to `ParseMessage`. The parser runs inside
`OnRead`, and calls back with each body; there the user may send and close, but the loop does not
come back to `OnRead` before it returns. -/
namespace Tmms.Network.MessageReceiver

open Reentrant TcpConnection

/-- A connection with its buffer and its parser; what `readv` has delivered and what the parser's
callback has been given, oldest first. -/
structure World where
  -- the other fields; the message callback is set
  connection : TcpConnection
  message_buffer_ : MsgBuffer
  context : TestContext
  received : List UInt8
  delivered : List (List UInt8)

inductive Callback where
  | connection (callback : TcpConnection.Callback)
  -- `cb_(connection_, message_body_)`
  | handed (body : List UInt8)
  deriving DecidableEq

inductive Method where
  | handler (method : TcpConnection.Method)
  | parse
  deriving DecidableEq

abbrev Code := Prog World Query Result Callback Method

def World.view (s : World) : TcpConnection :=
  { s.connection with message_buffer_ := s.message_buffer_.readable, message_cb_ := true }

def World.parser (running : Bool) (s : World) : TestContext.World :=
  ⟨s.context,s.message_buffer_,running,s.received,s.delivered⟩

/-- `message_buffer_.readFd`; a result of zero moves no index. -/
def readFd (fd : Int) : Code Result := do
  let result ← Prog.query (.readFd fd)
  if result.ret > 0 then do
    let s ← Prog.read
    match s.message_buffer_.readFd result.data with
    | none => .fault
    | some after => do
      Prog.modify fun s => { s with message_buffer_ := after }
      pure result
  else pure result

/-- What a handler does to the readable bytes, `readFd` has done to the buffer. -/
def update (f : TcpConnection → TcpConnection) : Code Unit :=
  .modify fun s => { s with connection := f s.view }

def host : Host World Query Result Callback Method where
  self := do return (← Prog.read).view
  update := update
  closeCallback := .invoke (.connection .close)
  messageCallback := .run .parse
  writeCompleteCallback := .invoke (.connection .writeComplete)
  write := fun fd buf size => .query (.write fd buf size)
  writev := fun fd vec => .query (.writev fd vec)
  readFd := readFd
  closeFd := fun fd => do let _ ← Prog.query (.close fd)
  enableWriting := fun on => update fun c => { c with event_ := c.event_.enable kEventWrite on }
  onClose := .run (.handler .onClose)
  readLoop := .run (.handler .readLoop)
  writeLoop := .run (.handler .writeLoop)

/-- A turn of `ParseMessage` gives its callback one body at most. The body is cleared and the
state goes back to the header when the callback has returned. -/
def parse : Code Unit := do
  let s ← Prog.read
  match TestContext.turn s.context s.message_buffer_ with
  | .failed => .fault
  | .returned _ => pure ()
  | .again context buf [] => do
    Prog.modify fun s => { s with context := context, message_buffer_ := buf }
    Prog.run .parse
  | .again context buf (body :: _) => do
    Prog.modify fun s => { s with
      context := { s.context with message_length_ := 0, message_body_ := body }, message_buffer_ := buf }
    Prog.invoke (.handed body)
    Prog.modify fun s => { s with context := context }
    Prog.run .parse

def body : Method → Code Unit
  | .handler m => TcpConnection.body host m
  | .parse => parse

def answered : Query → Result → World → World
  | .readFd _,a,s => if a.ret > 0 then { s with received := s.received ++ a.data } else s
  | _,_,s => s

def invoked : Callback → World → World
  | .handed body,s => { s with delivered := s.delivered ++ [body] }
  | _,s => s

def system : System World Query Result Callback Method where
  body := body
  answered := answered
  began := fun _ s => s
  invoked := invoked

/-- The loop calls the handlers one after another, and the user sends and closes at any time,
inside callbacks too. `readv` delivers at most what it was given room for, as long as the buffer
does not exceed the largest vector. -/
def environment : Environment World Query Result Callback Method where
  admits := fun _ s q a =>
    match q with
    | .readFd _ => decide (a.ret ≤ s.message_buffer_.room) &&
        (decide (a.ret ≤ 0) || decide ((a.data.length : Int) = a.ret)) &&
        (s.message_buffer_.readFd a.data).all fun after => decide (after.buffer_.length ≤ kMaxSize)
    | .writev _ vec => decide (a.ret ≤ total vec)
    | _ => true
  enters := fun ctx _ m =>
    match ctx,m with
    | _,.handler (.send _ _) | _,.handler (.sendList _) | _,.handler .forceClose => true
    | [],.handler .onRead | [],.handler .onWrite | [],.handler .onError | [],.handler .onTimeout
    | [],.handler .onClose => true
    | _,_ => false

structure Fresh (s : World) : Prop where
  buffer : ∃ size, kCheapPrepend + size ≤ kMaxSize ∧ s.message_buffer_ = .initial size
  context : s.context = .initial true
  received : s.received = []
  delivered : s.delivered = []

/-- However the stream goes on, what the callback has been given is the beginning of what the
stream decodes to. -/
def Decoded (received : List UInt8) (delivered : List (List UInt8)) : Prop :=
  ∀ rest, delivered <+: TestContext.frames.decode (received ++ rest)

theorem Decoded.extend {received : List UInt8} {delivered : List (List UInt8)} (decoded : Decoded received delivered)
    (data : List UInt8) : Decoded (received ++ data) delivered := by
  intro rest
  rw [List.append_assoc]
  exact decoded (data ++ rest)

theorem parses_decoded {w : TestContext.World} (parses : TestContext.Parses w) : Decoded w.stream w.delivered := by
  intro rest
  obtain ⟨front,held,received⟩ := parses.received
  rw [received.stream,List.append_assoc,received.framed.decode]
  exact List.prefix_append _ _

/-- What comes in is there for the next call of the parser. -/
theorem parses_received {w : TestContext.World} {after : MsgBuffer} {data : List UInt8}
    (parses : TestContext.Parses w) (ordered : after.Ordered) (fits : after.buffer_.length ≤ kMaxSize)
    (readable : after.readable = w.buf.readable ++ data) :
    TestContext.Parses { w with buf := after, running := true, stream := w.stream ++ data } := by
  obtain ⟨front,held,received⟩ := parses.received
  refine ⟨⟨ordered,fits,parses.proper.length⟩,parses.cb_,parses.message_body_,⟨front,held,?_,received.framed,
    received.header,received.body⟩,?_,fun stopped => by cases stopped⟩
  · rw [received.stream,readable]
    simp only [List.append_assoc]
  · intro state last
    rw [readable]
    exact List.append_ne_nil_of_left_ne_nil (parses.behind state last) _

def Same (s after : World) : Prop := after.parser false = s.parser false

def sends : TcpConnection.Method → Bool
  | .send _ _ | .sendList _ | .forceClose | .onClose => true
  | _ => false

def contract : Contract World Query Callback Method where
  inv := fun ctx s =>
    match ctx with
    | [] => TestContext.Parses (s.parser false)
    | _ :: _ => Decoded s.received s.delivered
  rely := fun ctx s after =>
    match ctx with
    | [] => True
    | _ :: _ => Same s after
  pre := fun ctx m s =>
    match ctx,m with
    | [],.handler m => TestContext.Parses (s.parser false) ∧ ∀ count, m ≠ .retrieve count
    | [],.parse => TestContext.Parses (s.parser true)
    | _ :: _,.handler m => Decoded s.received s.delivered ∧ sends m = true
    | _ :: _,.parse => False
  post := fun ctx _ s after =>
    match ctx with
    | [] => TestContext.Parses (after.parser false)
    | _ :: _ => Same s after
  asks := fun _ _ _ => True
  mayFault := False

section Handlers
variable {ctx : List Callback} {P : TestContext.World → Prop} {s : World}

theorem update_parsing (f : TcpConnection → TcpConnection) :
    Kept system environment contract ctx (fun s => P (s.parser false)) (update f) fun _ => True :=
  fun _ holds => ⟨trivial,holds⟩

theorem invoke_parsing (decoded : ∀ w, P w → Decoded w.stream w.delivered) (c : TcpConnection.Callback) :
    Kept system environment contract ctx (fun s => P (s.parser false)) (Prog.invoke (.connection c)) fun _ => True := by
  refine fun s holds => ⟨decoded _ holds,fun after same _ => ⟨trivial,?_⟩⟩
  have same : after.parser false = s.parser false := same
  change P (after.parser false)
  rw [same]
  exact holds

theorem query_parsing (q : Query) (other : ∀ fd, q ≠ .readFd fd) (values : Result → Prop)
    (among : ∀ s a, environment.admits ctx s q a = true → values a) :
    Kept system environment contract ctx (fun s => P (s.parser false)) (Prog.query q) values := by
  intro s holds
  refine ⟨trivial,fun a admitted => ⟨among s a admitted,?_⟩⟩
  have same : system.answered q a s = s := by
    cases q with
    | readFd fd => exact absurd rfl (other fd)
    | _ => rfl
  rw [same]
  exact holds

theorem host_sends (decoded : ∀ w, P w → Decoded w.stream w.delivered) :
    host.Sends system environment contract ctx fun s => P (s.parser false) where
  self := fun _ holds => ⟨trivial,holds⟩
  update := fun f _ => update_parsing f
  writeCompleteCallback := invoke_parsing decoded _
  write := fun _ _ _ => query_parsing _ (fun _ same => by cases same) _ fun _ _ _ => trivial
  enableWriting := fun on => update_parsing fun c => { c with event_ := c.event_.enable kEventWrite on }

theorem onClose_parsing (decoded : ∀ w, P w → Decoded w.stream w.delivered) :
    Kept system environment contract ctx (fun s => P (s.parser false)) (TcpConnection.onClose host) fun _ => True := by
  have sends : host.Sends system environment contract ctx fun s => P (s.parser false) := host_sends decoded
  apply onClose_kept sends.self (invoke_parsing decoded _) (update_parsing fun c => { c with closed_ := true })
  apply close_kept sends.self _ (update_parsing fun c => { c with fd_ := -1 })
  intro fd
  apply Kept.bind (query_parsing (.close fd) (fun _ same => by cases same) (fun _ => True) fun _ _ _ => trivial)
  exact fun _ _ => Kept.pure trivial

theorem sends_parsing (decoded : ∀ w, P w → Decoded w.stream w.delivered) (m : TcpConnection.Method)
    (anywhere : sends m = true)
    (onClose : Kept system environment contract ctx (fun s => P (s.parser false)) host.onClose fun _ => True) :
    Kept system environment contract ctx (fun s => P (s.parser false)) (TcpConnection.body host m) fun _ => True := by
  have hosted : host.Sends system environment contract ctx fun s => P (s.parser false) := host_sends decoded
  cases m with
  | send buf size => exact sendInLoop_kept hosted buf size
  | sendList list => exact sendListInLoop_kept hosted list
  | forceClose => exact onClose
  | onClose => exact onClose_parsing decoded
  | _ => cases anywhere

theorem idle_onClose :
    Kept system environment contract [] (fun s => TestContext.Parses (s.parser false)) host.onClose fun _ => True :=
  fun _ holds => ⟨⟨holds,fun _ other => by cases other⟩,fun _ done => ⟨trivial,done⟩⟩

theorem idle_writes : host.Writes system environment contract [] (fun s => TestContext.Parses (s.parser false))
    fun _ => True where
  toSends := host_sends fun _ => parses_decoded
  writev := fun _ _ => query_parsing _ (fun _ same => by cases same) _ fun _ _ admitted =>
    ⟨of_decide_eq_true admitted,fun _ => trivial⟩
  onClose := fun s holds => idle_onClose s holds.2
  writeLoop := fun _ holds => ⟨⟨holds,fun _ other => by cases other⟩,fun _ done => ⟨trivial,done⟩⟩

/-- One turn of the loop in `OnRead`: what `readFd` has put into the buffer is parsed. -/
theorem readLoop_parsing (parses : TestContext.Parses (s.parser false)) :
    wp system environment contract [] (TcpConnection.readLoop host)
      (fun _ after => TestContext.Parses (after.parser false)) s := by
  have ends : ∀ s, TestContext.Parses (s.parser false) →
      wp system environment contract [] host.onClose (fun _ after => TestContext.Parses (after.parser false)) s :=
    fun s => idle_onClose.wp s
  simp only [TcpConnection.readLoop,host,readFd,wp_bind,wp_read,wp_pure,wp_query]
  refine ⟨trivial,fun a admitted => ?_⟩
  by_cases some_ : a.ret > 0
  · have offered : a.data.length ≤ s.message_buffer_.room := by
      simp only [environment,Bool.and_eq_true,Bool.or_eq_true,decide_eq_true_eq] at admitted
      omega
    obtain ⟨after,read⟩ := parses.proper.ordered.readFd_offered a.data offered
    obtain ⟨ordered,readable⟩ := parses.proper.ordered.readFd read
    have received : system.answered (.readFd s.view.fd_) a s = { s with received := s.received ++ a.data } :=
      if_pos some_
    have read' : s.message_buffer_.readFd a.data = some after := read
    have fits : after.buffer_.length ≤ kMaxSize := by
      simp only [environment,Bool.and_eq_true,read',Option.all_some,decide_eq_true_eq] at admitted
      exact admitted.2
    simp only [received,some_,read',if_true,wp_bind,wp_read,wp_modify,wp_pure,update,wp_run,wp_ite]
    have fed := parses_received parses ordered fits readable
    refine ⟨fun _ => ⟨fed,fun parsed done => ?_⟩,fun unset => absurd rfl unset⟩
    exact ⟨⟨done,fun _ other => by cases other⟩,fun _ done => done⟩
  · have same : system.answered (.readFd s.view.fd_) a s = s := if_neg some_
    rw [same]
    simp only [some_,if_false,wp_pure,wp_ite]
    refine ⟨fun _ => ends s parses,fun _ => ⟨fun _ => ends s parses,fun _ => parses⟩⟩

theorem handed_cases {this context : TestContext} {buf after : MsgBuffer} {handed : List (List UInt8)}
    (turned : TestContext.Turns this buf (.again context after handed)) (set : this.cb_ = true)
    (empty : this.message_body_ = []) : handed = [] ∨ ∃ body, handed = [body] := by
  cases turned with
  | header => exact .inl rfl
  | spins => exact .inl rfl
  | body _ _ _ _ _ _ _ _ _ _ _ _ delivers => exact .inr ⟨_,(delivers set empty).2.2⟩

theorem parse_parsing (parses : TestContext.Parses (s.parser true)) :
    wp system environment contract [] parse (fun _ after => TestContext.Parses (after.parser false)) s := by
  simp only [parse,wp_bind,wp_read]
  rcases TestContext.turn_step parses.proper rfl with ⟨value,_,took⟩ | ⟨context,buf,handed,turned,_,took⟩
  · have kept := TestContext.parses_turn parses took
    cases came : TestContext.turn s.context s.message_buffer_ with
    | returned value => exact kept
    | again context buf handed => simp [TestContext.step,World.parser,came] at took
    | failed => simp [TestContext.step,World.parser,came] at took
  · have kept := TestContext.parses_turn parses took
    have came : TestContext.turn s.context s.message_buffer_ = .again context buf handed := by
      cases came : TestContext.turn s.context s.message_buffer_ with
      | returned value => simp [TestContext.step,World.parser,came,TestContext.goneOn] at took
      | again context' buf' handed' =>
        simp [TestContext.step,World.parser,came,TestContext.goneOn] at took
        rw [took.1,took.2.1,took.2.2]
      | failed => simp [TestContext.step,World.parser,came] at took
    rw [came]
    rcases handed_cases turned parses.cb_ parses.message_body_ with none | ⟨body,one⟩
    · subst none
      simp only [wp_bind,wp_modify,wp_run]
      refine ⟨?_,fun _ done => done⟩
      have same := kept
      rw [TestContext.goneOn,List.append_nil] at same
      exact same
    · subst one
      simp only [wp_bind,wp_modify,wp_run,wp_invoke]
      have decoded := parses_decoded kept
      refine ⟨decoded,fun after same _ => ⟨?_,fun _ done => done⟩⟩
      obtain ⟨_,buffer,_,received,delivered⟩ := TestContext.World.mk.inj same
      change TestContext.Parses ⟨context,after.message_buffer_,true,after.received,after.delivered⟩
      rw [buffer,received,delivered]
      exact kept

end Handlers

theorem decoded_same {s after : World} (same : Same s after) (decoded : Decoded s.received s.delivered) :
    Decoded after.received after.delivered := by
  obtain ⟨_,_,_,received,delivered⟩ := TestContext.World.mk.inj same
  have received : after.received = s.received := received
  have delivered : after.delivered = s.delivered := delivered
  rw [received,delivered]
  exact decoded

theorem idle_body (m : TcpConnection.Method) (s : World) (parses : TestContext.Parses (s.parser false))
    (other : ∀ count, m ≠ .retrieve count) :
    wp system environment contract [] (TcpConnection.body host m)
      (fun _ after => TestContext.Parses (after.parser false)) s := by
  have anywhere : sends m = true → wp system environment contract [] (TcpConnection.body host m)
      (fun _ after => TestContext.Parses (after.parser false)) s := fun may =>
    (sends_parsing (fun _ => parses_decoded) m may idle_onClose).wp s parses
  have readLoop : Kept system environment contract [] (fun s => TestContext.Parses (s.parser false)) host.readLoop
      fun _ => True := fun _ holds => ⟨⟨holds,fun _ same => by cases same⟩,fun _ done => ⟨trivial,done⟩⟩
  cases m with
  | send | sendList | forceClose | onClose => exact anywhere rfl
  | retrieve count => exact absurd rfl (other count)
  | onRead => exact (onRead_of_readLoop idle_writes.self readLoop).wp s parses
  | readLoop => exact readLoop_parsing parses
  | onWrite => exact (onWrite_of_writes idle_writes).wp s parses
  | writeLoop => exact (writeLoop_of_writes idle_writes).wp s parses
  | onError | onTimeout => exact idle_onClose.wp s parses

theorem receiver_sound : contract.Sound system environment where
  rely_refl := by
    intro ctx s
    cases ctx with
    | nil => trivial
    | cons c ctx => exact rfl
  rely_trans := by
    intro ctx a b c first second
    cases ctx with
    | nil => trivial
    | cons t ctx => exact Eq.trans second first
  body := by
    intro ctx m s pre
    cases ctx with
    | nil =>
      cases m with
      | handler m => exact idle_body m s pre.1 pre.2
      | parse => exact parse_parsing pre
    | cons c ctx =>
      cases m with
      | handler m =>
        -- the parser is the one it was when the callback was made
        have kept : Kept system environment contract (c :: ctx) (fun t => t.parser false = s.parser false)
            (TcpConnection.body host m) fun _ => True := sends_parsing (P := fun w => w = s.parser false)
          (fun w same => by subst same; exact pre.1) m pre.2
          (fun t same => ⟨⟨by
            obtain ⟨_,_,_,received,delivered⟩ := TestContext.World.mk.inj same
            have received : t.received = s.received := received
            have delivered : t.delivered = s.delivered := delivered
            rw [received,delivered]
            exact pre.1,rfl⟩,fun _ done => ⟨trivial,Eq.trans done same⟩⟩)
        exact kept.wp s rfl
      | parse => exact pre.elim
  enter := by
    intro ctx m s inv allowed
    cases ctx with
    | nil =>
      cases m with
      | handler m =>
        refine ⟨inv,?_⟩
        rintro count rfl
        cases allowed
      | parse => cases allowed
    | cons c ctx =>
      cases m with
      | handler m =>
        refine ⟨inv,?_⟩
        cases m with
        | send | sendList | forceClose => rfl
        | _ => cases allowed
      | parse => cases allowed
  leave := by
    intro ctx m s after inv _ done
    cases ctx with
    | nil => exact ⟨done,trivial⟩
    | cons c ctx => exact ⟨decoded_same done inv,done⟩

section Records

def Quiet (s after : World) : Prop := (after.received,after.delivered) = (s.received,s.delivered)

theorem query_quiet (q : Query) : (Prog.query q : Code Result).Steady Quiet :=
  fun _ _ _ => trivial

theorem readFd_quiet (fd : Int) : (readFd fd).Steady Quiet := by
  refine .bind (query_quiet _) fun a => .ite (.bind (fun _ => trivial) fun s => ?_) fun _ => trivial
  cases s.message_buffer_.readFd a.data with
  | none => exact fun _ => trivial
  | some after => exact .bind (.modify fun _ => rfl) fun _ _ => trivial

theorem host_quiet : host.Steady Quiet where
  self := fun _ => trivial
  update := fun _ _ => .modify fun _ => rfl
  mark := .modify fun _ => rfl
  forget := .modify fun _ => rfl
  closeCallback := fun _ _ => trivial
  messageCallback := fun _ _ => trivial
  writeCompleteCallback := fun _ _ => trivial
  write := fun _ _ _ => query_quiet _
  writev := fun _ _ => query_quiet _
  readFd := readFd_quiet
  closeFd := fun _ => .bind (query_quiet _) fun _ _ => trivial
  enableWriting := fun _ => .modify fun _ => rfl
  onClose := fun _ _ => trivial
  readLoop := fun _ _ => trivial
  writeLoop := fun _ _ => trivial

theorem parse_quiet : parse.Steady Quiet := by
  refine .bind (fun _ => trivial) fun s => ?_
  split
  · exact fun _ => trivial
  · exact fun _ => trivial
  · exact .bind (.modify fun _ => rfl) fun _ _ _ => trivial
  · refine .bind (.modify fun _ => rfl) fun _ => .bind (fun _ _ => trivial) fun _ => ?_
    exact .bind (.modify fun _ => rfl) fun _ _ _ => trivial

theorem receiver_records : contract.Records system environment (fun s => (s.received,s.delivered))
    fun record => Decoded record.1 record.2 where
  quiet := by
    intro m
    cases m with
    | handler m => exact body_steady host_quiet m
    | parse => exact parse_quiet
  answered := by
    intro ctx q a s _ _ decoded
    cases q with
    | readFd fd =>
      by_cases some_ : a.ret > 0
      · rw [show system.answered (.readFd fd) a s = { s with received := s.received ++ a.data } from if_pos some_]
        exact Decoded.extend decoded a.data
      · rw [show system.answered (.readFd fd) a s = s from if_neg some_]
        exact decoded
    | _ => exact decoded
  began := fun _ _ _ _ decoded => decoded
  invoked := fun _ _ _ decoded _ => decoded

end Records

def idle : World where
  connection := ⟨5,kEventRead,false,false,true,false,[],[]⟩
  message_buffer_ := .initial 8
  context := .initial true
  received := []
  delivered := []

theorem idle_fresh : Fresh idle := ⟨⟨8,by decide,rfl⟩,rfl,rfl,rfl⟩

theorem fresh_parses {s : World} (fresh : Fresh s) : TestContext.Parses (s.parser false) := by
  obtain ⟨size,fits,buffer⟩ := fresh.buffer
  have start := TestContext.parses_start size fits
  rw [World.parser,buffer,fresh.context,fresh.received,fresh.delivered]
  exact start

/-- At every step of every run, what the callback has been given is the beginning of what the
bytes received decode to, however they go on. -/
theorem delivered_decoded (s : World) (fresh : Fresh s) (c : Config World Query Result Callback Method)
    (reached : system.Reachable environment s c) : Decoded c.state.received c.state.delivered := by
  refine reachable_recorded receiver_sound receiver_records s c (fresh_parses fresh) ?_ reached
  exact parses_decoded (fresh_parses fresh)

theorem idle_parses (s : World) (fresh : Fresh s) (c : Config World Query Result Callback Method)
    (reached : system.Reachable environment s c) (idle : c.stack = []) :
    TestContext.Parses (c.state.parser false) := by
  have inv := reachable_invariant receiver_sound s c (fresh_parses fresh) reached (Config.controlled_of_nil idle)
  rw [idle] at inv
  exact inv

/-- Between two events every message that has come whole has been handed over, if the last of them is not empty. -/
theorem idle_delivered (s : World) (fresh : Fresh s) (c : Config World Query Result Callback Method)
    (reached : system.Reachable environment s c) (idle : c.stack = []) (bodies : List (List UInt8))
    (framed : TestContext.frames.Framed bodies c.state.received) (last : bodies.getLast? ≠ some []) :
    c.state.delivered = bodies ∧ c.state.message_buffer_.readable = [] := by
  have parses := idle_parses s fresh c reached idle
  have stream : TestContext.frames.Framed bodies (c.state.parser false).stream := framed
  have proper : ¬TestContext.EndsEmpty (c.state.parser false).stream := by
    rintro ⟨before,ends⟩
    have same := ends.decode_all.symm.trans stream.decode_all
    rw [← same,List.getLast?_append_of_ne_nil _ (List.cons_ne_nil _ _)] at last
    exact last rfl
  have complete : TestContext.Complete (c.state.parser false) := by
    cases state : (c.state.parser false).context.state_ with
    | kTestContextHeader =>
      rcases parses.returned rfl with none | ⟨_,part⟩
      · exact (TestContext.header_complete parses state (by rw [none]; decide)).1
      · exact (TestContext.header_complete parses state part).1
    | kTestContextBody =>
      rcases parses.returned rfl with none | ⟨header,_⟩
      · exact (TestContext.body_complete_iff parses state none).mpr proper
      · rw [state] at header
        cases header
  obtain ⟨delivered,front,tail,split,whole,held⟩ := complete
  rw [stream.decode_all] at delivered whole
  refine ⟨delivered,?_⟩
  have lengths := stream.length.trans whole.length.symm
  rw [split,List.length_append] at lengths
  have none : tail = [] := List.eq_nil_of_length_eq_zero (by omega)
  rw [none] at held
  exact List.suffix_nil.mp held

section Stalled

/-- The parser waits for the rest of a body, of which a part is there. -/
structure Stalled (s : World) : Prop where
  state_ : s.context.state_ = .kTestContextBody
  filled : s.message_buffer_.readable ≠ []
  part : s.context.message_length_ < 0 ∨ s.message_buffer_.readable.length < s.context.message_length_.toNat

theorem stalled_turn {s : World} (parses : TestContext.Parses (s.parser true)) (stalled : Stalled s) :
    TestContext.turn s.context s.message_buffer_ = .again s.context s.message_buffer_ [] := by
  have proper := parses.proper
  have turned : TestContext.Turns s.context s.message_buffer_ _ := TestContext.turn_spec proper
  cases came : TestContext.turn s.context s.message_buffer_ with
  | returned value =>
    rw [came] at turned
    cases turned with
    | drained none => exact absurd none stalled.filled
    | short state => exact nomatch state.symm.trans stalled.state_
  | again context buf handed =>
    rw [came] at turned
    cases turned with
    | header state => exact nomatch state.symm.trans stalled.state_
    | body state _ _ _ filled nonneg whole =>
      have part := stalled.part
      omega
    | spins => rfl
  | failed =>
    rw [came] at turned
    cases turned

/-- What the code on top of a stalled parser can be: it goes round in four steps. -/
inductive Round (s : World) : Code Unit → Prop where
  | turn : Round s parse
  | write : Round s (.get fun t =>
      .set { t with context := s.context, message_buffer_ := s.message_buffer_ } (.run .parse))
  | written : Round s (.set s (.run .parse))
  | again (next : Code Unit) : Round s (.call .parse next)

/-- The parser is in its loop and the world stands still. -/
def Wedged (s : World) (c : Config World Query Result Callback Method) : Prop :=
  c.state = s ∧ ∃ p rest, Round s p ∧ c.stack = .code p :: rest

theorem wedged_step {s : World}
    (turned : TestContext.turn s.context s.message_buffer_ = .again s.context s.message_buffer_ [])
    (c next : Config World Query Result Callback Method) (move : Move World Query Result Callback Method)
    (wedged : Wedged s c) (stepped : system.step environment c move = some next) : Wedged s next := by
  obtain ⟨t,stack⟩ := c
  obtain ⟨same,p,rest,round,top⟩ := wedged
  have same : s = t := same.symm
  subst same
  cases top
  have goes : ∀ q, system.step environment ⟨s,.code p :: rest⟩ .advance = some q → q = next := by
    intro q forced
    cases system.step_forced environment forced stepped
    rw [forced] at stepped
    exact Option.some.inj stepped
  cases round with
  | turn =>
    have looks : system.step environment ⟨s,.code parse :: rest⟩ .advance = some ⟨s,.code (.get fun t =>
        .set { t with context := s.context, message_buffer_ := s.message_buffer_ } (.run .parse)) :: rest⟩ := by
      change some (⟨s,.code (match TestContext.turn s.context s.message_buffer_ with
        | .failed => _
        | .returned _ => _
        | .again context buf [] => _
        | .again context buf (body :: _) => _) :: rest⟩ : Config World Query Result Callback Method) = _
      rw [turned]
      rfl
    rw [← goes _ looks]
    exact ⟨rfl,_,rest,.write,rfl⟩
  | write =>
    rw [← goes ⟨s,.code (.set s (.run .parse)) :: rest⟩ rfl]
    exact ⟨rfl,_,rest,.written,rfl⟩
  | written =>
    rw [← goes ⟨s,.code (.run .parse) :: rest⟩ rfl]
    exact ⟨rfl,_,rest,.again _,rfl⟩
  | again after =>
    rw [← goes ⟨s,.code parse :: .code after :: rest⟩ rfl]
    exact ⟨rfl,_,_,.turn,rfl⟩

/-- Once the parser finds a body of which only a part has come, or one of negative length, nothing
happens on its connection any more: in no continuation is a byte read, a message given or the
loop's thread free again. -/
theorem stalled_forever (s : World) (fresh : Fresh s) (c later : Config World Query Result Callback Method)
    (next : Code Unit) (rest : List (Frame World Query Result Callback Method))
    (reached : system.Reachable environment s c) (top : c.stack = .code (.call .parse next) :: rest)
    (stalled : Stalled c.state) (moves : List (Move World Query Result Callback Method))
    (run : system.exec environment moves c = some later) : later.state = c.state ∧ ¬later.controlled := by
  have pre := reachable_calls receiver_sound s c (fresh_parses fresh) reached top
  have parses : TestContext.Parses (c.state.parser true) := by
    cases inside : active rest with
    | nil =>
      rw [inside] at pre
      exact pre
    | cons t ctx =>
      rw [inside] at pre
      exact pre.elim
  have turned := stalled_turn parses stalled
  have wedged : Wedged c.state c := ⟨rfl,_,rest,.again next,top⟩
  obtain ⟨same,p,below,_,stack⟩ := system.exec_invariant environment (Wedged c.state)
    (fun c' move next => wedged_step turned c' next move) moves c later wedged run
  refine ⟨same,?_⟩
  rw [Config.controlled,stack]
  exact not_false

def partRead : List (Move World Query Result Callback Method) :=
  [.enter (.handler .onRead)] ++ List.replicate 3 .advance ++ [.answer ⟨5,0,[0,0,0,2,65]⟩] ++
    List.replicate 10 .advance

theorem stalled_forever_part :
    ∃ c : Config World Query Result Callback Method, system.exec environment partRead ⟨idle,[]⟩ = some c ∧
      c.state.received = [0,0,0,2,65] ∧ ∀ moves later, system.exec environment moves c = some later →
        later.state = c.state ∧ ¬later.controlled := by
  refine ⟨_,rfl,rfl,fun moves later run => ?_⟩
  refine stalled_forever idle idle_fresh _ later _ _ ⟨partRead,rfl⟩ rfl ⟨rfl,?_,.inr ?_⟩ moves run
  · decide
  · decide

end Stalled

end Tmms.Network.MessageReceiver
