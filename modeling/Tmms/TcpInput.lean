import Tmms.MsgBuffer
import Tmms.TcpConnectionRules

/-! The input side of a connection, with the buffer as it is. `OnRead` fills it from the
socket and shows it to the message callback, which takes out as much as it likes; the
handlers see its readable bytes. -/
namespace Tmms.Network.TcpInput

open Reentrant TcpConnection

inductive Take where
  | retrieve (len : Nat)
  | retrieveUntil (end_ : Nat)
  | retrieveAll
  | retrieveAsString (len : Nat)
  | retrieveAllAsString
  | readInt64
  | readInt32
  | readInt16
  | readInt8
  deriving DecidableEq

def Take.run : Take → MsgBuffer → Option MsgBuffer
  | .retrieve len,b => b.retrieve len
  | .retrieveUntil end_,b => b.retrieveUntil end_
  | .retrieveAll,b => some b.retrieveAll
  | .retrieveAsString len,b => (b.retrieveAsString len).map Prod.snd
  | .retrieveAllAsString,b => b.retrieveAllAsString.map Prod.snd
  | .readInt64,b => b.readInt64.map Prod.snd
  | .readInt32,b => b.readInt32.map Prod.snd
  | .readInt16,b => b.readInt16.map Prod.snd
  | .readInt8,b => b.readInt8.map Prod.snd

def Take.count : Take → MsgBuffer → Nat
  | .retrieve len,_ | .retrieveAsString len,_ => len
  | .retrieveUntil end_,b => end_ - b.readerIndex_
  | .retrieveAll,b | .retrieveAllAsString,b => b.readableBytes
  | .readInt64,_ => 8
  | .readInt32,_ => 4
  | .readInt16,_ => 2
  | .readInt8,_ => 1

def Take.within : Take → MsgBuffer → Bool
  | .retrieveUntil end_,b => decide (b.readerIndex_ ≤ end_ ∧ end_ ≤ b.writerIndex_)
  | take,b => decide (take.count b ≤ b.readableBytes)

/-- A connection with its buffer; what `readv` has delivered and what callbacks have taken, oldest
first. -/
structure World where
  connection : TcpConnection
  message_buffer_ : MsgBuffer
  received : List UInt8
  consumed : List UInt8

inductive Method where
  | handler (method : TcpConnection.Method)
  | take (how : Take)
  deriving DecidableEq

abbrev Code := Prog World TcpConnection.Query Result TcpConnection.Callback Method

def World.view (s : World) : TcpConnection :=
  { s.connection with message_buffer_ := s.message_buffer_.readable }

/-- `message_buffer_.readFd`; a result of zero moves no index. -/
def readFd (fd : Int) : Code Result := do
  let result ← Prog.query (.readFd fd)
  if result.ret > 0 then do
    let s ← Prog.read
    match s.message_buffer_.readFd result.data with
    | none => .fault
    | some after => do
      Prog.modify fun s => { s with message_buffer_ := after }
      pure result
  else pure result

/-- What a handler does to the readable bytes, `readFd` has done to the buffer. -/
def update (f : TcpConnection → TcpConnection) : Code Unit :=
  .modify fun s => { s with connection := f s.view }

def host : Host World TcpConnection.Query Result TcpConnection.Callback Method where
  self := do return (← Prog.read).view
  update := update
  closeCallback := .invoke .close
  messageCallback := .invoke .message
  writeCompleteCallback := .invoke .writeComplete
  write := fun fd buf size => .query (.write fd buf size)
  writev := fun fd vec => .query (.writev fd vec)
  readFd := readFd
  closeFd := fun fd => do let _ ← Prog.query (.close fd)
  enableWriting := fun on => update fun c => { c with event_ := c.event_.enable kEventWrite on }
  onClose := .run (.handler .onClose)
  readLoop := .run (.handler .readLoop)
  writeLoop := .run (.handler .writeLoop)

def take (how : Take) : Code Unit := do
  let s ← Prog.read
  match how.run s.message_buffer_ with
  | none => .fault
  | some after => Prog.modify fun s => { s with
      message_buffer_ := after,
      consumed := s.consumed ++ s.message_buffer_.readable.take (how.count s.message_buffer_) }

def body : Method → Code Unit
  | .handler m => TcpConnection.body host m
  | .take how => take how

def answered : TcpConnection.Query → Result → World → World
  | .readFd _,a,s => if a.ret > 0 then { s with received := s.received ++ a.data } else s
  | _,_,s => s

def system : System World TcpConnection.Query Result TcpConnection.Callback Method where
  body := body
  answered := answered
  began := fun _ s => s
  invoked := fun _ s => s

/-- Any use of the connection, inside callbacks and between them. `readv` delivers at most
what it was given room for; bytes are taken within what is readable. -/
def environment : Environment World TcpConnection.Query Result TcpConnection.Callback Method where
  admits := fun _ s q a =>
    match q with
    | .readFd _ => decide (a.ret ≤ s.message_buffer_.room) &&
        (decide (a.ret ≤ 0) || decide ((a.data.length : Int) = a.ret))
    | .writev _ vec => decide (a.ret ≤ total vec)
    | _ => true
  enters := fun _ s m =>
    match m with
    | .take how => how.within s.message_buffer_
    | .handler (.retrieve _) | .handler .readLoop | .handler .writeLoop => false
    | .handler _ => true

structure Fresh (s : World) : Prop where
  buffer : ∃ initialSize, s.message_buffer_ = .initial initialSize
  received : s.received = []
  consumed : s.consumed = []

/-- Nothing is lost, added or reordered. -/
structure Faithful (s : World) : Prop where
  ordered : s.message_buffer_.Ordered
  bytes : s.consumed ++ s.message_buffer_.readable = s.received

def contract : Contract World TcpConnection.Query TcpConnection.Callback Method where
  inv := fun _ s => Faithful s
  rely := fun _ _ _ => True
  pre := fun _ m s =>
    match m with
    | .take how => Faithful s ∧ how.within s.message_buffer_ = true
    | .handler m => Faithful s ∧ ∀ count, m ≠ .retrieve count
  post := fun _ _ _ after => Faithful after
  asks := fun _ _ s => Faithful s
  mayFault := False

section Bodies
variable {s : World} (ctx : List TcpConnection.Callback)

/-- Each way of taking bytes takes that many from the front. -/
theorem take_run (how : Take) {b : MsgBuffer} (ordered : b.Ordered) (within : how.within b = true) :
    ∃ after, how.run b = some after ∧ after.Ordered ∧ after.readable = b.readable.drop (how.count b) := by
  have retrieves : ∀ len, len ≤ b.readableBytes → ∃ after, b.retrieve len = some after ∧
      after.Ordered ∧ after.readable = b.readable.drop len := fun len => ordered.retrieve len
  have strings : ∀ len, len ≤ b.readableBytes → ∃ after,
      (b.retrieveAsString len).map Prod.snd = some after ∧ after.Ordered ∧
      after.readable = b.readable.drop len := by
    intro len bound
    obtain ⟨after,taken,rest⟩ := retrieves len bound
    exact ⟨after,by simp [MsgBuffer.retrieveAsString,bound,taken],rest⟩
  have numbers : ∀ size, size ≤ b.readableBytes → ∃ after,
      (b.readInt size).map Prod.snd = some after ∧ after.Ordered ∧
      after.readable = b.readable.drop size := by
    intro size bound
    obtain ⟨after,taken,rest⟩ := retrieves size bound
    exact ⟨after,by simp [MsgBuffer.readInt,MsgBuffer.peekInt,bound,taken],rest⟩
  cases how with
  | retrieve len => exact retrieves len (of_decide_eq_true within)
  | retrieveUntil end_ =>
    have inside : b.readerIndex_ ≤ end_ ∧ end_ ≤ b.writerIndex_ := of_decide_eq_true within
    obtain ⟨after,taken,rest⟩ := retrieves (end_ - b.readerIndex_) (by
      simp only [MsgBuffer.readableBytes]
      omega)
    exact ⟨after,by rw [Take.run,MsgBuffer.retrieveUntil,if_pos inside,taken],rest⟩
  | retrieveAll =>
    refine ⟨_,rfl,ordered.retrieveAll,?_⟩
    rw [MsgBuffer.retrieveAll_readable,Take.count,← ordered.readable_length,List.drop_length]
  | retrieveAsString len => exact strings len (of_decide_eq_true within)
  | retrieveAllAsString => exact strings _ (Nat.le_refl _)
  | readInt64 => exact numbers 8 (of_decide_eq_true within)
  | readInt32 => exact numbers 4 (of_decide_eq_true within)
  | readInt16 => exact numbers 2 (of_decide_eq_true within)
  | readInt8 => exact numbers 1 (of_decide_eq_true within)

theorem take_body (how : Take) (holds : Faithful s) (within : how.within s.message_buffer_ = true) :
    wp system environment contract ctx (take how) (fun _ after => Faithful after) s := by
  obtain ⟨after,ran,ordered,rest⟩ := take_run how holds.ordered within
  simp only [take,wp_bind,wp_read,ran,wp_modify]
  refine ⟨ordered,?_⟩
  rw [rest,List.append_assoc,List.take_append_drop]
  exact holds.bytes

/-- The buffer after `readFd` shows the handlers what they append to it. -/
theorem readFd_view {data : List UInt8} {after : MsgBuffer} (ordered : s.message_buffer_.Ordered)
    (read : s.message_buffer_.readFd data = some after) :
    World.view { s with message_buffer_ := after } =
      { s.view with message_buffer_ := s.view.message_buffer_ ++ data } := by
  simp only [World.view,(ordered.readFd read).2]

theorem readFd_faithful (fd : Int) :
    Triple system environment contract ctx Faithful (readFd fd) fun a after =>
      (a.ended → True) ∧ Faithful after := by
  intro s holds
  simp only [readFd,wp_bind,wp_query]
  refine ⟨holds,fun a admitted => ?_⟩
  by_cases some_ : a.ret > 0
  · rw [if_pos some_,wp_bind,wp_read]
    have offered : a.data.length ≤ s.message_buffer_.room := by
      simp only [environment,Bool.and_eq_true,Bool.or_eq_true,decide_eq_true_eq] at admitted
      omega
    obtain ⟨after,read⟩ := holds.ordered.readFd_offered a.data offered
    obtain ⟨ordered,bytes⟩ := holds.ordered.readFd read
    have received : system.answered (.readFd fd) a s = { s with received := s.received ++ a.data } :=
      if_pos some_
    rw [received]
    simp only [read,wp_bind,wp_modify,wp_pure]
    refine ⟨fun _ => trivial,ordered,?_⟩
    rw [bytes,← List.append_assoc,holds.bytes]
  · have same : system.answered (.readFd fd) a s = s := if_neg some_
    rw [if_neg some_,wp_pure,same]
    exact ⟨fun _ => trivial,holds⟩

theorem update_faithful (f : TcpConnection → TcpConnection) :
    Kept system environment contract ctx Faithful (update f) fun _ => True :=
  fun _ holds => ⟨trivial,holds.ordered,holds.bytes⟩

theorem invoke_faithful (c : TcpConnection.Callback) :
    Kept system environment contract ctx Faithful (Prog.invoke c) fun _ => True :=
  fun _ holds => ⟨holds,fun _ _ inv => ⟨trivial,inv⟩⟩

theorem query_faithful (q : TcpConnection.Query) (other : ∀ fd, q ≠ .readFd fd)
    (values : Result → Prop) (among : ∀ s a, environment.admits ctx s q a = true → values a) :
    Kept system environment contract ctx Faithful (Prog.query q) values := by
  intro s holds
  refine ⟨holds,fun a admitted => ⟨among s a admitted,?_⟩⟩
  have same : system.answered q a s = s := by
    cases q with
    | readFd fd => exact absurd rfl (other fd)
    | _ => rfl
  rw [same]
  exact holds

theorem handler_faithful (m : TcpConnection.Method) (other : ∀ count, m ≠ .retrieve count) :
    Kept system environment contract ctx Faithful (Prog.run (.handler m)) fun _ => True :=
  fun _ holds => ⟨⟨holds,other⟩,fun _ done => ⟨trivial,done⟩⟩

theorem host_keeps : host.Keeps system environment contract ctx Faithful fun _ => True where
  self := fun _ holds => ⟨trivial,holds⟩
  update := fun f _ => update_faithful ctx f
  messageCallback := invoke_faithful ctx _
  writeCompleteCallback := invoke_faithful ctx _
  write := fun _ _ _ => query_faithful ctx _ (fun _ same => by cases same) _ fun _ _ _ => trivial
  writev := fun _ _ => query_faithful ctx _ (fun _ same => by cases same) _ fun _ _ admitted =>
    ⟨of_decide_eq_true admitted,fun _ => trivial⟩
  readFd := readFd_faithful ctx
  enableWriting := fun on => update_faithful ctx fun c =>
    { c with event_ := c.event_.enable kEventWrite on }
  onClose := fun s holds => handler_faithful ctx .onClose (fun _ same => by cases same) s holds.2
  readLoop := handler_faithful ctx .readLoop fun _ same => by cases same
  writeLoop := handler_faithful ctx .writeLoop fun _ same => by cases same

theorem onClose_faithful :
    Kept system environment contract ctx Faithful (TcpConnection.onClose host) fun _ => True := by
  have keeps := host_keeps ctx
  apply TcpConnection.onClose_kept keeps.self (invoke_faithful ctx _)
    (update_faithful ctx fun c => { c with closed_ := true })
  apply TcpConnection.close_kept keeps.self _ (update_faithful ctx fun c => { c with fd_ := -1 })
  intro fd
  apply Kept.bind (query_faithful ctx (.close fd) (fun _ same => by cases same) (fun _ => True) _)
  · exact fun _ _ => Kept.pure trivial
  · exact fun _ _ _ => trivial

theorem handler_body (m : TcpConnection.Method) (holds : Faithful s) :
    wp system environment contract ctx (TcpConnection.body host m) (fun _ after => Faithful after) s := by
  by_cases itself : m = .onClose
  · subst itself
    exact (onClose_faithful ctx).wp s holds
  · exact body_kept (host_keeps ctx) m itself s holds fun _ => trivial

end Bodies

theorem input_sound : contract.Sound system environment where
  rely_refl := fun _ _ => trivial
  rely_trans := fun _ _ _ _ _ _ => trivial
  body := by
    intro ctx m s pre
    cases m with
    | take how => exact take_body ctx how pre.1 pre.2
    | handler m => exact handler_body ctx m pre.1
  enter := by
    intro ctx m s inv allowed
    cases m with
    | take how => exact ⟨inv,allowed⟩
    | handler m =>
      refine ⟨inv,?_⟩
      rintro count rfl
      cases allowed
  leave := fun _ _ _ _ _ _ done => ⟨done,trivial⟩

theorem fresh_faithful (s : World) (fresh : Fresh s) : Faithful s := by
  obtain ⟨size,initial⟩ := fresh.buffer
  constructor
  · rw [initial]
    exact MsgBuffer.initial_ordered size
  · rw [initial,fresh.received,fresh.consumed,MsgBuffer.initial_readable]
    rfl

/-- In every run no assertion of the buffer fails, and whenever a callback, the caller or the
kernel is in control, the indices are in order and the bytes taken so far followed by the
readable ones are those received. -/
theorem input_integrity (s : World) (fresh : Fresh s)
    (c : Config World TcpConnection.Query Result TcpConnection.Callback Method)
    (reached : system.Reachable environment s c) :
    (∀ rest, c.stack ≠ .code .fault :: rest) ∧
      (c.controlled ∨ (∃ q next rest, c.stack = .code (.ask q next) :: rest) →
        c.state.message_buffer_.readerIndex_ ≤ c.state.message_buffer_.writerIndex_ ∧
        c.state.message_buffer_.writerIndex_ ≤ c.state.message_buffer_.buffer_.length ∧
        c.state.consumed ++ c.state.message_buffer_.readable = c.state.received) := by
  have initial := fresh_faithful s fresh
  refine ⟨fun rest => reachable_no_fault input_sound s c initial reached fun never => never,?_⟩
  intro control
  have holds : Faithful c.state := by
    rcases control with controlled | ⟨q,next,rest,asks⟩
    · exact reachable_invariant input_sound s c initial reached controlled
    · exact reachable_asks input_sound s c initial reached asks
  exact ⟨holds.ordered.reader,holds.ordered.writer,holds.bytes⟩

def idle : World where
  connection := ⟨5,kEventRead,false,false,true,false,[],[]⟩
  message_buffer_ := .initial 4
  received := []
  consumed := []

def takingRun : List (Move World TcpConnection.Query Result TcpConnection.Callback Method) :=
  [.enter (.handler .onRead),.answer ⟨6,0,[1,2,3,4,5,6]⟩,.enter (.take (.retrieve 1)),.leave,
    .answer ⟨2,0,[7,8]⟩,.enter (.take .readInt16),.leave,.answer ⟨-1,EAGAIN,[]⟩]

theorem input_integrity_taken :
    ∃ c : Config World TcpConnection.Query Result TcpConnection.Callback Method,
      c.state.consumed = [1,2,3] ∧
      ((∀ rest, c.stack ≠ .code .fault :: rest) ∧
      (c.controlled ∨ (∃ q next rest, c.stack = .code (.ask q next) :: rest) →
        c.state.message_buffer_.readerIndex_ ≤ c.state.message_buffer_.writerIndex_ ∧
        c.state.message_buffer_.writerIndex_ ≤ c.state.message_buffer_.buffer_.length ∧
        c.state.consumed ++ c.state.message_buffer_.readable = c.state.received)) := by
  have reached := system.play_reachable environment 30 takingRun idle _ rfl
  refine ⟨_,?_,input_integrity idle ⟨⟨4,rfl⟩,rfl,rfl⟩ _ reached⟩
  rfl

end Tmms.Network.TcpInput
