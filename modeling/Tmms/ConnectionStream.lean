import Tmms.ConnectionOutput
import Tmms.ReentrantRecords

/-! The byte stream of a connection that may also be read from, fail and be closed, in any callback
and in the middle of any handler. What it still had to write is then dropped, but what the
socket has accepted is the beginning of what was sent at every step. -/
namespace Tmms.Network.Connection

open Reentrant TcpConnection

/-- Any use of the connection, between callbacks and inside them, with any errors; as in
`sendingDirect` the socket refuses no write made directly from `SendInLoop`. -/
def carrying : Environment World Query Result Callback Method where
  admits := fun _ _ q a =>
    match q with
    | .write _ _ size => decide (0 ≤ a.ret ∧ a.ret ≤ size)
    | .writev _ vec => decide (a.ret ≤ total vec)
    | _ => true
  enters := fun _ _ m =>
    match m with
    | .send buf size => inMemory buf size
    | .sendList list => list.all fun l => inMemory l.addr l.size
    | .readLoop | .writeLoop => false
    | _ => true

/-- Nothing is lost, duplicated or reordered while the connection is open; what is accepted by then
stays the beginning of what was sent. -/
structure Streams (memory : Nat → UInt8) (s : World) : Prop where
  accepted : s.accepted <+: s.sent
  opened : s.connection.closed_ = false → s.accepted ++ described memory s.connection.io_vec_li_ = s.sent

section Contract
variable (memory : Nat → UInt8)

def streamContract : Contract World Query Callback Method where
  inv := fun _ s => Streams memory s
  rely := fun _ _ _ => True
  pre := fun _ m s =>
    match m with
    | .send _ size => Streams memory s ∧ size < 2^64
    | .writeLoop => Streams memory s ∧ s.connection.closed_ = false
    | _ => Streams memory s
  post := fun _ _ _ after => Streams memory after
  asks := fun _ q s =>
    match q with
    | .write _ buf size => s.accepted ++ bytes memory buf size = s.sent
    | .writev _ vec => s.accepted ++ described memory vec = s.sent
    | _ => True
  mayFault := False

variable {memory} {ctx : List Callback} {s : World}

theorem streams_of_open (whole : s.accepted ++ described memory s.connection.io_vec_li_ = s.sent) :
    Streams memory s :=
  ⟨⟨_,whole⟩,fun _ => whole⟩

theorem streams_enable (on : Bool) (holds : Streams memory s) : Streams memory (enableEventWriting on s) :=
  ⟨by simpa using holds.accepted,by simpa using holds.opened⟩

theorem invoke_streams (c : Callback) :
    Kept (system memory) carrying (streamContract memory) ctx (Streams memory) (.invoke c) fun _ => True := by
  intro s holds
  refine ⟨?_,fun _ _ inv => ⟨trivial,inv⟩⟩
  cases c with
  | close => exact ⟨holds.accepted,holds.opened⟩
  | _ => exact holds

theorem writeComplete_streams (holds : Streams memory s) :
    wp (system memory) carrying (streamContract memory) ctx (TcpConnection.writeComplete host)
      (fun _ after => Streams memory after) s :=
  wp_writeComplete.mpr ⟨fun _ => ⟨holds,fun _ _ inv => inv⟩,fun _ => holds⟩

theorem sendRest_streams (buf send_len size : Nat) (sending : Sending memory (addPtr buf send_len) size s) :
    wp (system memory) carrying (streamContract memory) ctx (TcpConnection.sendRest host buf send_len size)
      (fun _ after => Streams memory after) s := by
  rw [wp_sendRest]
  constructor
  · intro empty
    subst empty
    exact writeComplete_streams (streams_of_open (by simpa using sending.stream))
  · intro _
    apply streams_enable true
    apply streams_of_open
    simpa using sending.stream

theorem send_streams (buf size : Nat) (holds : Streams memory s) (fits : size < 2^64) :
    wp (system memory) carrying (streamContract memory) ctx (body host (.send buf size))
      (fun _ after => Streams memory after) (began memory (.send buf size) s) := by
  have same := began_connection memory (.send buf size) s
  refine (wp_sendInLoop buf size).mpr ⟨fun closed => ?_,fun opened => ?_⟩
  · rw [same] at closed
    simp only [began,closed,if_true]
    exact holds
  rw [same,Bool.not_eq_true] at opened
  have queued : Sending memory buf size (began memory (.send buf size) s) := by
    simp only [began,opened,Bool.false_eq_true,if_false]
    exact ⟨opened,by rw [holds.opened opened]⟩
  generalize began memory (.send buf size) s = started at queued
  refine ⟨fun empty => ⟨?_,fun a admitted => ?_⟩,fun _ => ?_⟩
  · have all := queued.stream
    rw [empty,described_nil,List.append_nil] at all
    exact all
  · have taken : 0 ≤ a.ret ∧ a.ret ≤ size := of_decide_eq_true admitted
    rw [toSize_of_nonneg a.ret size taken.1 taken.2 fits,subSize_of_le size _ (by omega) fits]
    refine sendRest_streams buf a.ret.toNat (size - a.ret.toNat) ⟨queued.opened,?_⟩
    have all := queued.stream
    rw [empty,bytes_split memory buf size a.ret.toNat (by omega)] at all
    simpa [answered,empty] using all
  · refine sendRest_streams buf 0 size ⟨queued.opened,?_⟩
    rw [bytes_addPtr_zero]
    exact queued.stream

theorem sendList_streams (list : List BufferNode) (holds : Streams memory s) :
    wp (system memory) carrying (streamContract memory) ctx (body host (.sendList list))
      (fun _ after => Streams memory after) (began memory (.sendList list) s) := by
  have same := began_connection memory (.sendList list) s
  refine (wp_sendListInLoop list).mpr ⟨fun closed => ?_,fun opened => ?_⟩
  · rw [same] at closed
    simp only [began,closed,if_true]
    exact holds
  rw [same,Bool.not_eq_true] at opened
  have queued : Streams memory { began memory (.sendList list) s with connection :=
      { s.connection with io_vec_li_ := s.connection.io_vec_li_ ++ nodes list } } := by
    apply streams_of_open
    simp only [began,opened,Bool.false_eq_true,if_false]
    rw [described_append,← List.append_assoc,holds.opened opened]
  rw [same]
  exact ⟨fun _ => streams_enable true queued,fun _ => queued⟩

theorem writeLoop_streams (holds : Streams memory s) (opened : s.connection.closed_ = false) :
    wp (system memory) carrying (streamContract memory) ctx (body host .writeLoop)
      (fun _ after => Streams memory after) s := by
  have whole := holds.opened opened
  refine wp_writeLoop.mpr ⟨whole,fun a admitted => ?_⟩
  have taken : a.ret ≤ total s.connection.io_vec_li_ := of_decide_eq_true admitted
  constructor
  · intro written
    have bound : a.ret.toNat ≤ (described memory s.connection.io_vec_li_).length := by
      rw [described_length]
      exact Int.toNat_le.mpr taken
    obtain ⟨left,consumed,remaining⟩ := consume_described memory _ _ bound
    have kept : Streams memory { answered memory (.writev s.connection.fd_ s.connection.io_vec_li_) a s with
        connection := { s.connection with io_vec_li_ := left } } :=
      streams_of_open (by simpa [answered,remaining,List.append_assoc] using whole)
    rw [consumed]
    refine ⟨fun none => (Option.some_ne_none _ none).elim,?_⟩
    rintro rest ⟨⟩
    exact ⟨fun _ => writeComplete_streams (streams_enable false kept),fun _ => ⟨⟨kept,opened⟩,fun _ done => done⟩⟩
  · intro refused
    have unchanged : answered memory (.writev s.connection.fd_ s.connection.io_vec_li_) a s = s := by
      have none : a.ret.toNat = 0 := by omega
      simp [answered,none]
    rw [unchanged]
    exact ⟨fun _ => ⟨holds,fun _ done => done⟩,fun _ => holds⟩

theorem onWrite_streams (holds : Streams memory s) :
    wp (system memory) carrying (streamContract memory) ctx (body host .onWrite)
      (fun _ after => Streams memory after) s := by
  refine wp_onWrite.mpr ⟨fun _ => holds,fun opened => ⟨fun _ => ?_,fun _ => ?_⟩⟩
  · exact ⟨⟨holds,Bool.eq_false_of_not_eq_true opened⟩,fun _ done => done⟩
  · exact writeComplete_streams (streams_enable false holds)

theorem update_streams (f : TcpConnection → TcpConnection) (queue : ∀ c, (f c).io_vec_li_ = c.io_vec_li_)
    (closes : ∀ c, (f c).closed_ = false → c.closed_ = false) :
    Kept (system memory) carrying (streamContract memory) ctx (Streams memory) (update f) fun _ => True := by
  refine fun s holds => ⟨trivial,holds.accepted,fun opened => ?_⟩
  rw [queue]
  exact holds.opened (closes _ opened)

theorem query_streams (q : Query) (reads : (∃ fd, q = .readFd fd) ∨ ∃ fd, q = .close fd) :
    Kept (system memory) carrying (streamContract memory) ctx (Streams memory) (Prog.query q) fun _ => True := by
  intro s holds
  rcases reads with ⟨fd,same⟩ | ⟨fd,same⟩
  · subst same
    exact ⟨trivial,fun _ _ => ⟨trivial,holds⟩⟩
  · subst same
    exact ⟨trivial,fun _ _ => ⟨trivial,holds⟩⟩

theorem self_streams :
    Kept (system memory) carrying (streamContract memory) ctx (Streams memory) host.self fun _ => True :=
  fun _ holds => ⟨trivial,holds⟩

theorem onClose_streams :
    Kept (system memory) carrying (streamContract memory) ctx (Streams memory) (TcpConnection.onClose host)
      fun _ => True := by
  apply onClose_kept self_streams (invoke_streams .close)
    (update_streams (fun c => { c with closed_ := true }) (fun _ => rfl) fun _ opened => by cases opened)
  apply close_kept self_streams _ (update_streams (fun c => { c with fd_ := -1 }) (fun _ => rfl) fun _ => id)
  exact fun fd => Kept.bind (query_streams (.close fd) (.inr ⟨fd,rfl⟩)) fun _ _ => Kept.pure trivial

theorem host_reads :
    host.Reads (system memory) carrying (streamContract memory) ctx (Streams memory) fun _ => True where
  self := self_streams
  append := fun data => update_streams (fun c => { c with message_buffer_ := c.message_buffer_ ++ data })
    (fun _ => rfl) fun _ => id
  messageCallback := invoke_streams .message
  readFd := fun fd => Triple.mono (query_streams (.readFd fd) (.inl ⟨fd,rfl⟩)) (fun _ => id)
    fun _ _ kept => ⟨fun _ => trivial,kept.2⟩
  onClose := fun _ holds => ⟨holds.2,fun _ done => ⟨trivial,done⟩⟩
  readLoop := fun _ holds => ⟨holds,fun _ done => ⟨trivial,done⟩⟩

theorem body_streams (m : Method) (pre : (streamContract memory).pre ctx m s) :
    wp (system memory) carrying (streamContract memory) ctx (body host m) (fun _ after => Streams memory after)
      (began memory m s) := by
  cases m with
  | send buf size => exact send_streams buf size pre.1 pre.2
  | sendList list => exact sendList_streams list pre
  | retrieve count => exact (update_streams (fun c => { c with message_buffer_ := c.message_buffer_.drop count })
      (fun _ => rfl) fun _ => id).wp s pre
  | onRead => exact (onRead_of_readLoop self_streams host_reads.readLoop).wp s pre
  | readLoop => exact (readLoop_of_reads host_reads).wp s pre
  | onWrite => exact onWrite_streams pre
  | writeLoop => exact writeLoop_streams pre.1 pre.2
  | onError | onTimeout | forceClose => exact ⟨pre,fun _ done => done⟩
  | onClose => exact onClose_streams.wp s pre

theorem stream_sound : (streamContract memory).Sound (system memory) carrying where
  rely_refl := fun _ _ => trivial
  rely_trans := fun _ _ _ _ _ _ => trivial
  body := fun _ m _ pre => body_streams m pre
  enter := by
    intro ctx m s inv allowed
    cases m with
    | send buf size =>
      simp only [carrying,inMemory,decide_eq_true_eq] at allowed
      exact ⟨inv,allowed.1⟩
    | readLoop | writeLoop => cases allowed
    | _ => exact inv
  leave := fun _ _ _ _ _ _ done => ⟨done,trivial⟩

end Contract

section Records
variable (memory : Nat → UInt8)

def Quiet (s after : World) : Prop := (after.accepted,after.sent) = (s.accepted,s.sent)

theorem query_quiet (q : Query) : (Prog.query q : Code Result).Steady Quiet :=
  fun _ _ _ => trivial

theorem host_quiet : host.Steady Quiet where
  self := fun _ => trivial
  update := fun _ _ => .modify fun _ => rfl
  mark := .modify fun _ => rfl
  forget := .modify fun _ => rfl
  closeCallback := fun _ _ => trivial
  messageCallback := fun _ _ => trivial
  writeCompleteCallback := fun _ _ => trivial
  write := fun _ _ _ => query_quiet _
  writev := fun _ _ => query_quiet _
  readFd := fun _ => query_quiet _
  closeFd := fun _ => .bind (query_quiet _) fun _ _ => trivial
  enableWriting := fun on => .modify fun s => by simp [Quiet]
  onClose := fun _ _ => trivial
  readLoop := fun _ _ => trivial
  writeLoop := fun _ _ => trivial

theorem began_first (m : Method) (s : World) (holds : s.accepted <+: s.sent) :
    (began memory m s).accepted <+: (began memory m s).sent := by
  cases m with
  | send buf size | sendList list =>
    simp only [began]
    split
    · exact holds
    · exact holds.trans (List.prefix_append _ _)
  | _ => exact holds

theorem stream_records : (streamContract memory).Records (system memory) carrying
    (fun s => (s.accepted,s.sent)) fun record => record.1 <+: record.2 where
  quiet := body_steady host_quiet
  answered := by
    intro ctx q a s asked admitted holds
    cases q with
    | write fd buf size =>
      have taken : 0 ≤ a.ret ∧ a.ret ≤ size := of_decide_eq_true admitted
      have all : s.accepted ++ bytes memory buf size = s.sent := asked
      rw [bytes_split memory buf size a.ret.toNat (by omega),← List.append_assoc] at all
      exact ⟨_,all⟩
    | writev fd vec =>
      have all : s.accepted ++ described memory vec = s.sent := asked
      rw [← List.take_append_drop a.ret.toNat (described memory vec),← List.append_assoc] at all
      exact ⟨_,all⟩
    | readFd fd => exact holds
    | close fd => exact holds
  began := fun _ m s _ holds => began_first memory m s holds
  invoked := by
    intro ctx t s _ holds
    cases t with
    | close => exact holds
    | _ => exact holds

theorem accepted_steady : (system memory).Steady fun s after => s.accepted <+: after.accepted where
  refl := fun _ => List.prefix_rfl
  trans := fun _ _ _ => List.IsPrefix.trans
  body := fun m s => (body_steady host_quiet m s).mono fun s after same => by
    rw [(Prod.mk.inj same).1]
  answered := by
    intro q a s
    cases q with
    | write | writev => exact List.prefix_append _ _
    | _ => exact List.prefix_rfl
  began := by
    intro m s
    cases m with
    | send | sendList =>
      simp only [system,began]
      split
      · exact List.prefix_rfl
      · exact List.prefix_rfl
    | _ => exact List.prefix_rfl
  invoked := by
    intro t s
    cases t with
    | _ => exact List.prefix_rfl

end Records

theorem fresh_streams (memory : Nat → UInt8) {s : World} (fresh : Fresh s) : Streams memory s :=
  streams_of_open (by rw [fresh.queue,fresh.accepted,fresh.sent]; rfl)

/-- Every byte the socket has accepted is the next one sent, at every step of every run, however
the connection is used and whatever fails. -/
theorem accepted_first (memory : Nat → UInt8) (s : World) (fresh : Fresh s)
    (c : Config World Query Result Callback Method) (reached : (system memory).Reachable carrying s c) :
    c.state.accepted <+: c.state.sent := by
  refine reachable_recorded stream_sound (stream_records memory) s c (fresh_streams memory fresh) ?_ reached
  simp [fresh.accepted,fresh.sent]

/-- Where the user is in control of an open connection, the queue holds the rest. -/
theorem accepted_queued (memory : Nat → UInt8) (s : World) (fresh : Fresh s)
    (c : Config World Query Result Callback Method) (reached : (system memory).Reachable carrying s c)
    (controlled : c.controlled) (opened : c.state.connection.closed_ = false) :
    c.state.accepted ++ described memory c.state.connection.io_vec_li_ = c.state.sent :=
  (reachable_invariant stream_sound s c (fresh_streams memory fresh) reached controlled).opened opened

end Tmms.Network.Connection
