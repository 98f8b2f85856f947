import Tmms.WriteLoop

/-! When `write_complete_cb_` is called. Beside the history of bytes, what the connection was like
is recorded at each call. A `Send` of size 0 calls back without a look at the queue. -/
namespace Tmms.Network.WriteComplete

open Reentrant TcpConnection
open Connection (bytes described nodes inMemory outcome consume_described)

/-- With the connection at each call of `write_complete_cb_`, oldest first. -/
structure World extends Connection.World where
  completions : List Connection.World

abbrev Code := Prog World Query Result Callback Method

def lifted (f : Connection.World → Connection.World) (s : World) : World := { s with toWorld := f s.toWorld }

def host : Host World Query Result Callback Method where
  self := do return (← Prog.read).connection
  update := fun f => .modify (lifted fun w => { w with connection := f w.connection })
  closeCallback := .invoke .close
  messageCallback := .invoke .message
  writeCompleteCallback := .invoke .writeComplete
  write := fun fd buf size => .query (.write fd buf size)
  writev := fun fd vec => .query (.writev fd vec)
  readFd := fun fd => .query (.readFd fd)
  closeFd := fun fd => do let _ ← Prog.query (.close fd)
  enableWriting := fun on => .modify (lifted (Connection.enableEventWriting on))
  onClose := .run .onClose
  readLoop := .run .readLoop
  writeLoop := .run .writeLoop

def invoked : Callback → World → World
  | .writeComplete,s => { s with completions := s.completions ++ [s.toWorld] }
  | c,s => lifted (Connection.invoked c) s

def system (memory : Nat → UInt8) : System World Query Result Callback Method where
  body := body host
  answered := fun q a => lifted (Connection.answered memory q a)
  began := fun m => lifted (Connection.began memory m)
  invoked := invoked

/-- Handlers, sends and closes in any order and from inside any callback; writes come to anything. -/
def calling : Environment World Query Result Callback Method where
  admits := fun _ _ q a =>
    match q with
    | .write _ _ size => outcome size a
    | .writev _ vec => outcome (total vec) a
    | _ => true
  enters := fun _ _ m =>
    match m with
    | .send buf size => inMemory buf size
    | .sendList list => list.all fun l => inMemory l.addr l.size
    | .readLoop | .writeLoop => false
    | _ => true

/-- The same, where no `Send` of size 0 finds a queue, and no write of 2^64 - 1 bytes, the size
that -1 is converted to, is refused. -/
def filling : Environment World Query Result Callback Method where
  admits := fun ctx s q a =>
    calling.admits ctx s q a &&
      match q with
      | .write _ _ size => !(a.ret == -1 && size == 2^64 - 1)
      | _ => true
  enters := fun ctx s m =>
    calling.enters ctx s m &&
      match m with
      | .send _ size => size != 0 || s.connection.closed_ || s.connection.io_vec_li_.isEmpty
      | _ => true

def Drained (w : Connection.World) : Prop :=
  w.connection.io_vec_li_ = [] ∧ w.sent.Sublist w.accepted

/-- Every byte sent has been accepted or is in the queue. A refused direct write queues the byte
before the buffer too. -/
def Covered (memory : Nat → UInt8) (w : Connection.World) : Prop :=
  w.sent.Sublist (w.accepted ++ described memory w.connection.io_vec_li_)

structure Timely (memory : Nat → UInt8) (s : World) : Prop where
  covered : Covered memory s.toWorld
  drained : ∀ w ∈ s.completions, Drained w

section Contract
variable (memory : Nat → UInt8)

def completeContract : Contract World Query Callback Method where
  inv := fun _ s => Timely memory s
  rely := fun _ _ _ => True
  pre := fun _ m s => Timely memory s ∧
    match m with
    | .send _ size => size < 2^64 ∧ (size = 0 → s.connection.closed_ = true ∨ s.connection.io_vec_li_ = [])
    | _ => True
  post := fun _ _ _ after => Timely memory after
  asks := fun _ _ _ => True
  mayFault := False

def Sending (buf size : Nat) (w : Connection.World) : Prop :=
  w.sent.Sublist (w.accepted ++ described memory w.connection.io_vec_li_ ++ bytes memory buf size)

variable {memory} {s : World} (ctx : List Callback)

theorem Timely.congr {after : World} (timely : Timely memory s) (sent : after.sent = s.sent)
    (accepted : after.accepted = s.accepted)
    (queue : after.connection.io_vec_li_ = s.connection.io_vec_li_) (same : after.completions = s.completions) :
    Timely memory after := by
  refine ⟨?_,by rw [same]; exact timely.drained⟩
  rw [Covered,sent,accepted,queue]
  exact timely.covered

theorem Timely.enable (timely : Timely memory s) (on : Bool) :
    Timely memory (lifted (Connection.enableEventWriting on) s) :=
  timely.congr (Connection.enable_sent on _) (Connection.enable_accepted on _) (Connection.enable_queue on _) rfl

theorem writeComplete_timely (timely : Timely memory s) (empty : s.connection.io_vec_li_ = []) :
    wp (system memory) filling (completeContract memory) ctx (TcpConnection.writeComplete host)
      (fun _ after => Timely memory after) s := by
  have covered := timely.covered
  rw [Covered,empty,Connection.described_nil,List.append_nil] at covered
  simp only [TcpConnection.writeComplete,host,wp_bind,wp_read,wp_pure,wp_ite,wp_invoke]
  refine ⟨fun _ => ⟨⟨timely.covered,fun w among => ?_⟩,fun _ _ inv => inv⟩,fun _ => timely⟩
  rcases List.mem_append.mp among with earlier | now
  · exact timely.drained w earlier
  · rw [List.mem_singleton.mp now]
    exact ⟨empty,covered⟩

theorem sendRest_timely (buf send_len size : Nat) (sending : Sending memory (addPtr buf send_len) size s.toWorld)
    (drained : ∀ w ∈ s.completions, Drained w) (last : size = 0 → s.connection.io_vec_li_ = []) :
    wp (system memory) filling (completeContract memory) ctx (TcpConnection.sendRest host buf send_len size)
      (fun _ after => Timely memory after) s := by
  simp only [TcpConnection.sendRest,host,wp_bind,wp_ite,wp_modify]
  constructor
  · intro none
    subst none
    refine writeComplete_timely ctx ⟨?_,drained⟩ (last rfl)
    rw [Covered]
    rwa [Sending,Connection.bytes_zero,List.append_nil] at sending
  · intro _
    refine Timely.enable (s := lifted _ s) ⟨?_,drained⟩ true
    rw [Covered]
    change s.sent.Sublist (s.accepted ++ described memory (s.connection.io_vec_li_ ++ [⟨addPtr buf send_len,size⟩]))
    rw [Connection.described_append,Connection.described_cons,Connection.described_nil,List.append_nil,
      ← List.append_assoc]
    exact sending

/-- A refusal becomes 2^64 - 1, and the byte before the buffer is queued with it. -/
theorem bytes_refused (buf size : Nat) (fits : size + 1 < 2^64) :
    subSize size (2^64 - 1) = 1 + size ∧
      bytes memory (addPtr buf (2^64 - 1)) (1 + size) =
        bytes memory (addPtr buf (2^64 - 1)) 1 ++ bytes memory buf size := by
  constructor
  · simp only [subSize]
    omega
  · have wraps : addPtr (addPtr buf (2^64 - 1)) 1 = addPtr buf 0 := by
      simp only [addPtr]
      omega
    rw [Connection.bytes_add,wraps,Connection.bytes_addPtr_zero]

/-- The direct write on an empty queue leaves the rest of the buffer to be queued. -/
theorem write_sending (buf size : Nat) (fits : size < 2^64) (a : Result) (w : Connection.World)
    (sending : Sending memory buf size w) (empty : w.connection.io_vec_li_ = []) (allowed : outcome size a = true)
    (possible : a.ret ≠ -1 ∨ size ≠ 2^64 - 1) :
    Sending memory (addPtr buf (toSize a.ret)) (subSize size (toSize a.ret))
      { w with accepted := w.accepted ++ bytes memory buf a.ret.toNat } := by
  simp only [Sending,empty,Connection.described_nil,List.append_nil] at sending ⊢
  simp only [outcome,Bool.or_eq_true,beq_iff_eq,decide_eq_true_eq] at allowed
  rcases allowed with refused | taken
  · have more : size + 1 < 2^64 := by omega
    obtain ⟨rest,split⟩ := @bytes_refused memory buf size more
    have nothing : bytes memory buf a.ret.toNat = [] := by rw [refused]; rfl
    have length : toSize a.ret = 2^64 - 1 := by rw [refused]; rfl
    rw [length,rest,split,nothing,List.append_nil]
    exact sending.trans (List.Sublist.append_left (List.sublist_append_right _ _) _)
  · rw [Connection.toSize_of_nonneg a.ret size taken.1 taken.2 fits,
      Connection.subSize_of_le size _ (by omega) fits,List.append_assoc,
      ← Connection.bytes_split memory buf size a.ret.toNat (by omega)]
    exact sending

theorem began_closed (m : Method) :
    (lifted (Connection.began memory m) s).connection.closed_ = s.connection.closed_ :=
  congrArg closed_ (Connection.began_connection memory m s.toWorld)

theorem began_dropped (m : Method) (closed : s.connection.closed_ = true) :
    lifted (Connection.began memory m) s = s := by
  cases m with
  | send | sendList => simp only [lifted,Connection.began,closed,if_true]
  | _ => rfl

theorem began_send (buf size : Nat) (timely : Timely memory s) (opened : s.connection.closed_ = false) :
    Sending memory buf size (Connection.began memory (.send buf size) s.toWorld) := by
  simp only [Connection.began,opened,Bool.false_eq_true,if_false]
  exact List.Sublist.append timely.covered (List.Sublist.refl _)

theorem send_timely (buf size : Nat) (pre : (completeContract memory).pre ctx (.send buf size) s) :
    wp (system memory) filling (completeContract memory) ctx (TcpConnection.sendInLoop host buf size)
      (fun _ after => Timely memory after) (lifted (Connection.began memory (.send buf size)) s) := by
  obtain ⟨timely,fits,last⟩ := pre
  have same := Connection.began_connection memory (.send buf size) s.toWorld
  simp only [TcpConnection.sendInLoop,host,wp_bind,wp_read,wp_pure,wp_ite,wp_query]
  constructor
  · intro closed
    rw [began_dropped _ ((began_closed _).symm.trans closed)]
    exact timely
  · intro opened
    have opened : s.connection.closed_ = false :=
      (began_closed _).symm.trans (Bool.eq_false_of_not_eq_true opened)
    have sending := began_send buf size timely opened
    constructor
    · intro empty
      refine ⟨trivial,fun a admitted => ⟨fun negative => absurd negative (Nat.not_lt_zero _),fun _ => ?_⟩⟩
      simp only [filling,calling,Bool.and_eq_true,Bool.not_eq_true',Bool.and_eq_false_iff,
        beq_eq_false_iff_ne] at admitted
      refine sendRest_timely ctx buf _ _ ?_ timely.drained fun _ => empty
      exact write_sending buf size fits a _ sending empty admitted.1 admitted.2
    · intro waiting
      refine sendRest_timely ctx buf 0 size ?_ timely.drained fun none => ?_
      · rw [Sending,Connection.bytes_addPtr_zero]
        exact sending
      · rcases last none with closed | empty
        · rw [opened] at closed
          cases closed
        · exact absurd (same ▸ empty) waiting

theorem sendList_timely (list : List BufferNode) (timely : Timely memory s) :
    wp (system memory) filling (completeContract memory) ctx (TcpConnection.sendListInLoop host list)
      (fun _ after => Timely memory after) (lifted (Connection.began memory (.sendList list)) s) := by
  simp only [TcpConnection.sendListInLoop,host,wp_bind,wp_read,wp_pure,wp_ite,wp_modify]
  constructor
  · intro closed
    rw [began_dropped _ ((began_closed _).symm.trans closed)]
    exact timely
  · intro opened
    have opened : s.connection.closed_ = false :=
      (began_closed _).symm.trans (Bool.eq_false_of_not_eq_true opened)
    have queued : Timely memory (lifted (fun w => { w with connection := { w.connection with
        io_vec_li_ := w.connection.io_vec_li_ ++ nodes list } })
          (lifted (Connection.began memory (.sendList list)) s)) := by
      refine ⟨?_,timely.drained⟩
      simp only [Covered,lifted,Connection.began,opened,Bool.false_eq_true,if_false,Connection.described_append]
      rw [← List.append_assoc]
      exact List.Sublist.append timely.covered (List.Sublist.refl _)
    exact ⟨fun _ => queued.enable true,fun _ => queued⟩

theorem writeLoop_timely (timely : Timely memory s) :
    wp (system memory) filling (completeContract memory) ctx (TcpConnection.writeLoop host)
      (fun _ after => Timely memory after) s := by
  simp only [TcpConnection.writeLoop,host,wp_bind,wp_read,wp_pure,wp_query]
  refine ⟨trivial,fun a admitted => ?_⟩
  simp only [filling,calling,Bool.and_true] at admitted
  have bound := Connection.outcome_le admitted
  simp only [wp_ite]
  constructor
  · intro written
    have fits : a.ret.toNat ≤ (described memory s.connection.io_vec_li_).length := by
      rw [← Connection.total_eq_described]
      omega
    obtain ⟨rest,consumed,left⟩ := consume_described memory _ _ fits
    simp only [consumed,wp_bind,wp_modify,wp_ite,wp_run]
    have kept : Timely memory (lifted (fun w => { w with connection := { w.connection with io_vec_li_ := rest } })
        (lifted (Connection.answered memory (.writev s.connection.fd_ s.connection.io_vec_li_) a) s)) := by
      refine ⟨?_,timely.drained⟩
      simp only [Covered,lifted,Connection.answered,left,List.append_assoc,List.take_append_drop]
      exact timely.covered
    refine ⟨fun none => ?_,fun _ => ⟨⟨kept,trivial⟩,fun _ done => done⟩⟩
    exact writeComplete_timely ctx (kept.enable false) ((Connection.enable_queue false _).trans none)
  · intro refused
    have none : a.ret.toNat = 0 := by omega
    have unchanged : Timely memory
        (lifted (Connection.answered memory (.writev s.connection.fd_ s.connection.io_vec_li_) a) s) := by
      refine timely.congr rfl ?_ rfl rfl
      simp only [lifted,Connection.answered,none,List.take_zero,List.append_nil]
    exact ⟨fun _ => ⟨⟨unchanged,trivial⟩,fun _ done => done⟩,fun _ => unchanged⟩

theorem onWrite_timely (timely : Timely memory s) :
    wp (system memory) filling (completeContract memory) ctx (TcpConnection.onWrite host)
      (fun _ after => Timely memory after) s := by
  simp only [TcpConnection.onWrite,host,wp_bind,wp_read,wp_pure,wp_ite,wp_run,wp_modify]
  refine ⟨fun _ => timely,fun _ => ⟨fun _ => ⟨⟨timely,trivial⟩,fun _ done => done⟩,fun some_ => ?_⟩⟩
  have empty : s.connection.io_vec_li_ = [] := by
    by_contra queued
    exact some_ queued
  exact writeComplete_timely ctx (timely.enable false) ((Connection.enable_queue false _).trans empty)

theorem callback_timely (c : Callback) (other : c ≠ .writeComplete) :
    Kept (system memory) filling (completeContract memory) ctx (Timely memory) (Prog.invoke c) fun _ => True := by
  intro s timely
  refine ⟨?_,fun _ _ inv => ⟨trivial,inv⟩⟩
  cases c with
  | writeComplete => contradiction
  | _ => exact timely.congr rfl rfl rfl rfl

theorem run_timely (m : Method) (free : ∀ buf size, m ≠ .send buf size) :
    Kept (system memory) filling (completeContract memory) ctx (Timely memory) (Prog.run m) fun _ => True := by
  intro s timely
  refine ⟨⟨timely,?_⟩,fun _ done => ⟨trivial,done⟩⟩
  cases m with
  | send buf size => exact absurd rfl (free buf size)
  | _ => trivial

theorem update_timely (f : TcpConnection → TcpConnection) (queue : ∀ c, (f c).io_vec_li_ = c.io_vec_li_) :
    Kept (system memory) filling (completeContract memory) ctx (Timely memory) (host.update f) fun _ => True :=
  fun s timely => ⟨trivial,timely.congr rfl rfl (queue s.connection) rfl⟩

theorem host_reads :
    host.Reads (system memory) filling (completeContract memory) ctx (Timely memory) fun _ => True where
  self := fun _ timely => ⟨trivial,timely⟩
  append := fun _ => update_timely ctx _ fun _ => rfl
  messageCallback := callback_timely ctx .message (by decide)
  readFd := fun _ _ timely => ⟨trivial,fun _ _ => ⟨fun _ => trivial,timely.congr rfl rfl rfl rfl⟩⟩
  onClose := fun s holds => run_timely ctx .onClose (fun _ _ => by simp) s holds.2
  readLoop := run_timely ctx .readLoop fun _ _ => by simp

theorem onClose_timely :
    Kept (system memory) filling (completeContract memory) ctx (Timely memory) (TcpConnection.onClose host)
      fun _ => True := by
  have self : Kept (system memory) filling (completeContract memory) ctx (Timely memory) host.self fun _ => True :=
    (host_reads ctx).self
  refine TcpConnection.onClose_kept self (callback_timely ctx .close (by decide))
    (update_timely ctx _ fun _ => rfl) (TcpConnection.close_kept self ?_ (update_timely ctx _ fun _ => rfl))
  exact fun _ _ timely => ⟨trivial,fun _ _ => ⟨trivial,timely.congr rfl rfl rfl rfl⟩⟩

theorem complete_sound : (completeContract memory).Sound (system memory) filling where
  rely_refl := fun _ _ => trivial
  rely_trans := fun _ _ _ _ _ _ => trivial
  body := by
    intro ctx m s pre
    have timely := pre.1
    cases m with
    | send buf size => exact send_timely ctx buf size pre
    | sendList list => exact sendList_timely ctx list timely
    | retrieve count =>
      have dropped := @update_timely memory ctx
        (fun c => { c with message_buffer_ := c.message_buffer_.drop count }) fun _ => rfl
      exact dropped.wp s timely
    | onRead => exact (TcpConnection.onRead_of_readLoop (host_reads ctx).self (host_reads ctx).readLoop).wp s timely
    | readLoop => exact (TcpConnection.readLoop_of_reads (host_reads ctx)).wp s timely
    | onWrite => exact onWrite_timely ctx timely
    | writeLoop => exact writeLoop_timely ctx timely
    | onError | onTimeout | forceClose => exact (run_timely ctx .onClose fun _ _ => by simp).wp s timely
    | onClose => exact (onClose_timely ctx).wp s timely
  enter := by
    intro ctx m s timely allowed
    refine ⟨timely,?_⟩
    cases m with
    | send buf size =>
      simp only [filling,calling,inMemory,Bool.and_eq_true,decide_eq_true_eq,Bool.or_eq_true,bne_iff_ne,
        List.isEmpty_iff] at allowed
      obtain ⟨⟨fits,_⟩,free⟩ := allowed
      refine ⟨fits,fun none => ?_⟩
      rcases free with (size | closed) | empty
      · exact absurd none size
      · exact .inl closed
      · exact .inr empty
    | _ => trivial
  leave := fun _ _ _ _ _ _ done => ⟨done,trivial⟩

end Contract

structure Fresh (s : World) : Prop extends Connection.Fresh s.toWorld where
  completions : s.completions = []

def idle : World := { Connection.idle with completions := [] }

theorem idle_fresh : Fresh idle := ⟨Connection.idle_fresh,rfl⟩

/-- A `Send` of size 0 on a queue goes on to the callback by itself. -/
theorem empty_send_completes (memory : Nat → UInt8) (c : Config World Query Result Callback Method)
    (controlled : c.controlled) (opened : c.state.connection.closed_ = false)
    (set : c.state.connection.write_complete_cb_ = true) (queued : c.state.connection.io_vec_li_ ≠ []) (buf : Nat)
    (fits : inMemory buf 0 = true) :
    ∃ d, (system memory).exec calling (.enter (.send buf 0) :: List.replicate 3 .advance) c = some d ∧
      ∃ w ∈ d.state.completions, ¬Drained w := by
  obtain ⟨⟨⟨⟨fd,event,closed,closing,message,complete,buffer,queue⟩,registered,interest,accepted,sent,calls⟩,made⟩,
    stack⟩ := c
  cases opened
  cases set
  cases queue with
  | nil => exact absurd rfl queued
  | cons vec queue =>
    have entered := @System.step_enter _ _ _ _ _ (system memory) calling _ (.send buf 0) stack controlled fits
    refine ⟨_,by rw [System.exec,entered]; rfl,_,List.mem_append_right _ (List.mem_singleton_self _),?_⟩
    exact fun drained => List.cons_ne_nil _ _ drained.1

/-- Where no `Send` of size 0 finds a queue, and none of the size that -1 is converted to is refused,
every call of `write_complete_cb_` is made with nothing queued and every byte accepted. In any run,
a `Send` of size 0 that finds a queue calls it with that queue. -/
theorem complete_drained (memory : Nat → UInt8) (s : World) (fresh : Fresh s) :
    (∀ c, (system memory).Reachable filling s c → c.controlled → ∀ w ∈ c.state.completions, Drained w) ∧
    ∀ c, (system memory).Reachable calling s c → c.controlled → c.state.connection.closed_ = false →
      c.state.connection.write_complete_cb_ = true → c.state.connection.io_vec_li_ ≠ [] →
      ∀ buf, inMemory buf 0 = true →
        ∃ d, (system memory).exec calling (.enter (.send buf 0) :: List.replicate 3 .advance) c = some d ∧
          ∃ w ∈ d.state.completions, ¬Drained w := by
  have start : Timely memory s := by
    refine ⟨?_,by rw [fresh.completions]; exact fun _ none => absurd none List.not_mem_nil⟩
    rw [Covered,fresh.sent]
    exact List.nil_sublist _
  constructor
  · intro c reached controlled
    have timely : Timely memory c.state := reachable_invariant complete_sound s c start reached controlled
    exact timely.drained
  · exact fun c _ controlled opened set queued buf fits =>
      empty_send_completes memory c controlled opened set queued buf fits

/-- Three bytes, of which the socket takes one at once and two when it is writable. -/
theorem complete_drained_split :
    ∃ c : Config World Query Result Callback Method, c.state.completions.length = 1 ∧
      c.state.accepted = [98,99,100] ∧ ∀ w ∈ c.state.completions, Drained w := by
  have reached := (system Connection.letters).play_reachable filling 40
    [.enter (.send 1 3),.answer ⟨1,0,[]⟩,.enter .onWrite,.answer ⟨2,0,[]⟩] idle _ rfl
  exact ⟨_,rfl,by decide,(complete_drained Connection.letters idle idle_fresh).1 _ reached trivial⟩

/-- A byte that no write has been tried for yet. -/
theorem complete_pending :
    ∃ c, (system Connection.letters).Reachable calling idle c ∧ c.controlled ∧
      ∃ w ∈ c.state.completions, w.connection.io_vec_li_ = [⟨0,1⟩] ∧ ¬w.sent.Sublist w.accepted := by
  have reached := (system Connection.letters).play_reachable calling 40
    [.enter (.sendList [⟨0,1⟩]),.enter (.send 1 0)] idle _ rfl
  exact ⟨_,reached,trivial,_,List.mem_singleton_self _,rfl,by decide⟩

end Tmms.Network.WriteComplete
