import Tmms.WriteLoop

/-! A backlog on a healthy socket. `OnWrite` shows `writev` the whole queue, and the system call
takes a limited number of nodes; it fails on more with an error that looks like the peer's. -/
namespace Tmms.Network.Connection

open Reentrant TcpConnection

def IOV_MAX : Nat := 1024
def EINVAL : Nat := 22

def sends (size : Nat) (a : Result) : Bool :=
  decide (0 ≤ a.ret ∧ a.ret ≤ size ∧ (0 < size → 0 < a.ret)) || (a.ret == -1 && a.errno == EAGAIN)

/-- `writev` fails with `EINVAL` for too many nodes, and only then. -/
def healthy : Environment World Query Result Callback Method where
  admits := fun _ _ q a =>
    match q with
    | .write _ _ size => sends size a
    | .writev _ vec =>
      if vec.length ≤ IOV_MAX then sends (total vec) a else a.ret == -1 && a.errno == EINVAL
    | _ => true
  enters := sending.enters

/-- The same, where no `Send` takes the queue past what `writev` takes. -/
def bounded : Environment World Query Result Callback Method where
  admits := healthy.admits
  enters := fun ctx s m =>
    healthy.enters ctx s m &&
      match m with
      | .send _ size => size == 0 || decide (s.connection.io_vec_li_.length < IOV_MAX)
      | .sendList list => decide (s.connection.io_vec_li_.length + list.length ≤ IOV_MAX)
      | _ => true

structure Writable (s : World) : Prop where
  opened : s.connection.closed_ = false
  short : s.connection.io_vec_li_.length ≤ IOV_MAX

section Contract
variable (memory : Nat → UInt8)

def backlogContract : Contract World Query Callback Method where
  inv := fun _ s => Writable s
  rely := fun _ _ _ => True
  pre := fun _ m s => Writable s ∧
    match m with
    | .send _ size => size = 0 ∨ s.connection.io_vec_li_.length < IOV_MAX
    | .sendList list => s.connection.io_vec_li_.length + list.length ≤ IOV_MAX
    | .onWrite | .writeLoop => True
    | _ => False
  post := fun _ _ _ after => Writable after
  asks := fun _ _ _ => True
  mayFault := False

variable {memory} {s : World} {ctx : List Callback}

theorem consume_length (queue rest : List IoVec) (ret : Nat) (consumed : consume queue ret = some rest) :
    rest.length ≤ queue.length := by
  induction queue generalizing ret with
  | nil =>
    cases ret with
    | zero =>
      cases consumed
      exact Nat.le_refl _
    | succ ret => cases consumed
  | cons vec queue ih =>
    cases ret with
    | zero =>
      cases consumed
      exact Nat.le_refl _
    | succ ret =>
      rw [consume] at consumed
      split at consumed
      · cases consumed
        exact Nat.le_refl _
      · exact Nat.le_succ_of_le (ih _ consumed)

theorem writable_enable (on : Bool) (writable : Writable s) : Writable (enableEventWriting on s) :=
  ⟨by simpa using writable.opened,by simpa using writable.short⟩

theorem writeComplete_writable (writable : Writable s) :
    wp (system memory) bounded backlogContract ctx (TcpConnection.writeComplete host)
      (fun _ after => Writable after) s :=
  wp_writeComplete.mpr ⟨fun _ => ⟨writable,fun _ _ inv => inv⟩,fun _ => writable⟩

theorem sends_le {size : Nat} {a : Result} (allowed : sends size a = true) :
    a.ret ≤ size ∧ (0 ≤ a.ret ∨ a.errno = EAGAIN) := by
  simp only [sends,Bool.or_eq_true,Bool.and_eq_true,beq_iff_eq,decide_eq_true_eq] at allowed
  rcases allowed with taken | refused
  · exact ⟨taken.2.1,.inl taken.1⟩
  · exact ⟨by omega,.inr refused.2⟩

/-- What is queued of a buffer is one node, if anything. -/
theorem sendRest_writable (buf send_len size : Nat) (writable : Writable s)
    (room : size = 0 ∨ s.connection.io_vec_li_.length < IOV_MAX) :
    wp (system memory) bounded backlogContract ctx (TcpConnection.sendRest host buf send_len size)
      (fun _ after => Writable after) s := by
  refine (wp_sendRest _ _ _).mpr ⟨fun _ => writeComplete_writable writable,fun some_ => ?_⟩
  have fits : (s.connection.io_vec_li_ ++ [(⟨addPtr buf send_len,size⟩ : IoVec)]).length ≤ IOV_MAX := by
    rw [List.length_append]
    exact room.resolve_left some_
  exact writable_enable true ⟨writable.opened,fits⟩

theorem send_writable (buf size : Nat) (writable : Writable s)
    (room : size = 0 ∨ s.connection.io_vec_li_.length < IOV_MAX) :
    wp (system memory) bounded backlogContract ctx (TcpConnection.sendInLoop host buf size)
      (fun _ after => Writable after) s := by
  refine (wp_sendInLoop _ _).mpr ⟨fun _ => writable,fun _ => ⟨fun empty => ⟨trivial,fun a _ => ?_⟩,fun _ => ?_⟩⟩
  · have none : s.connection.io_vec_li_.length < IOV_MAX := by
      rw [empty]
      decide
    exact sendRest_writable buf _ _ ⟨writable.opened,writable.short⟩ (.inr none)
  · exact sendRest_writable buf 0 size writable room

theorem sendList_writable (list : List BufferNode) (writable : Writable s)
    (room : s.connection.io_vec_li_.length + list.length ≤ IOV_MAX) :
    wp (system memory) bounded backlogContract ctx (TcpConnection.sendListInLoop host list)
      (fun _ after => Writable after) s := by
  have fits : (s.connection.io_vec_li_ ++ nodes list).length ≤ IOV_MAX := by
    rw [List.length_append,nodes,List.length_map]
    exact room
  refine (wp_sendListInLoop _).mpr ⟨fun _ => writable,fun _ => ⟨fun _ => ?_,fun _ => ⟨writable.opened,fits⟩⟩⟩
  exact writable_enable true ⟨writable.opened,fits⟩

/-- `writev` does not fail for good on a queue that is short enough. -/
theorem writeLoop_writable (writable : Writable s) :
    wp (system memory) bounded backlogContract ctx (TcpConnection.writeLoop host)
      (fun _ after => Writable after) s := by
  refine wp_writeLoop.mpr ⟨trivial,fun a admitted => ?_⟩
  simp only [bounded,healthy,if_pos writable.short] at admitted
  obtain ⟨bound,comes⟩ := sends_le admitted
  constructor
  · intro written
    refine ⟨fun none => consume_ne_none (by omega) none,fun rest consumed => ?_⟩
    have short := Nat.le_trans (consume_length _ rest _ consumed) writable.short
    refine ⟨fun _ => ?_,fun _ => ⟨⟨⟨writable.opened,short⟩,trivial⟩,fun _ done => done⟩⟩
    exact writeComplete_writable (writable_enable false ⟨writable.opened,short⟩)
  · intro refused
    have again : a.errno = EAGAIN := comes.resolve_left refused
    refine ⟨fun fails => ?_,fun _ => ⟨writable.opened,writable.short⟩⟩
    rw [again] at fails
    exact absurd fails (by decide)

theorem onWrite_writable (writable : Writable s) :
    wp (system memory) bounded backlogContract ctx (TcpConnection.onWrite host)
      (fun _ after => Writable after) s := by
  refine wp_onWrite.mpr ⟨fun _ => writable,fun _ => ⟨fun _ => ⟨⟨writable,trivial⟩,fun _ done => done⟩,fun _ => ?_⟩⟩
  exact writeComplete_writable (writable_enable false writable)

theorem backlog_sound : backlogContract.Sound (system memory) bounded where
  rely_refl := fun _ _ => trivial
  rely_trans := fun _ _ _ _ _ _ => trivial
  body := by
    intro ctx m s pre
    obtain ⟨writable,room⟩ := pre
    have same := began_connection memory m s
    have begun : Writable (began memory m s) := ⟨by rw [same]; exact writable.opened,by rw [same]; exact writable.short⟩
    cases m with
    | send buf size =>
      rw [← same] at room
      exact send_writable buf size begun room
    | sendList list =>
      rw [← same] at room
      exact sendList_writable list begun room
    | onWrite => exact onWrite_writable writable
    | writeLoop => exact writeLoop_writable writable
    | _ => exact room.elim
  enter := by
    intro ctx m s writable allowed
    simp only [bounded,healthy,sending,Bool.and_eq_true] at allowed
    cases m with
    | send buf size => exact ⟨writable,by simpa using allowed.2⟩
    | sendList list => exact ⟨writable,by simpa using allowed.2⟩
    | onWrite => exact ⟨writable,trivial⟩
    | _ => cases allowed.1
  leave := fun _ _ _ _ _ _ done => ⟨done,trivial⟩

end Contract

section Calls
variable {memory : Nat → UInt8} {s : World} {stack : List (Frame World Query Result Callback Method)}

theorem sendList_queues (controlled : (⟨s,stack⟩ : Config World Query Result Callback Method).controlled)
    (opened : s.connection.closed_ = false) (list : List BufferNode)
    (fits : (list.all fun l => inMemory l.addr l.size) = true) (some_ : list ≠ []) :
    ∃ moves after, (system memory).exec healthy moves ⟨s,stack⟩ = some ⟨after,stack⟩ ∧
      after.connection.closed_ = false ∧
      after.connection.io_vec_li_ = s.connection.io_vec_li_ ++ nodes list := by
  have begun := began_connection memory (.sendList list) s
  have more : s.connection.io_vec_li_ ++ nodes list ≠ [] :=
    List.append_ne_nil_of_right_ne_nil _ fun none => some_ (List.map_eq_nil_iff.mp none)
  have completes : ∃ after, (system memory).Completes healthy (active stack)
      (TcpConnection.sendListInLoop host list) (began memory (.sendList list) s) () after ∧
      after.connection.closed_ = false ∧
      after.connection.io_vec_li_ = s.connection.io_vec_li_ ++ nodes list := by
    generalize began memory (.sendList list) s = begins at begun
    let queued : World := { begins with
      connection := { begins.connection with io_vec_li_ := begins.connection.io_vec_li_ ++ nodes list } }
    refine ⟨enableEventWriting true queued,?_,?_,?_⟩
    · apply System.completes_bind (System.completes_bind System.completes_read (System.completes_pure _))
      apply System.completes_neg (by rw [begun,opened]; decide)
      apply System.completes_bind (System.completes_modify _)
      apply System.completes_bind (System.completes_bind System.completes_read (System.completes_pure _))
      refine System.completes_pos ?_ (System.completes_modify _)
      rw [begun]
      exact more
    · rw [enable_closed]
      exact (congrArg TcpConnection.closed_ begun).trans opened
    · rw [enable_queue]
      exact congrArg (fun c => c.io_vec_li_ ++ nodes list) begun
  obtain ⟨after,completes,open_,queued⟩ := completes
  have enters : healthy.enters (active stack) s (.sendList list) = true := fits
  obtain ⟨moves,ran⟩ := System.completes_enter controlled enters completes
  exact ⟨moves,after,ran,open_,queued⟩

/-- The first turn of `OnWrite` up to the answer it gets. -/
theorem onWrite_answered (controlled : (⟨s,stack⟩ : Config World Query Result Callback Method).controlled)
    (opened : s.connection.closed_ = false) (some_ : s.connection.io_vec_li_ ≠ []) (a : Result)
    (admitted : ∀ ctx, healthy.admits ctx s (.writev s.connection.fd_ s.connection.io_vec_li_) a = true) :
    ∃ p, (system memory).exec healthy (.enter .onWrite :: (List.replicate 3 .advance ++ [.answer a])) ⟨s,stack⟩ =
      some ⟨answered memory (.writev s.connection.fd_ s.connection.io_vec_li_) a s,
        .code (if a.ret ≥ 0 then p else if fatal a.errno then Prog.run .onClose else pure ()) ::
          .code (.done ()) :: stack⟩ := by
  have entered : (system memory).step healthy ⟨s,stack⟩ (.enter .onWrite) =
      some ⟨s,.code (TcpConnection.onWrite host) :: stack⟩ := System.step_enter controlled rfl
  have begins : (system memory).step healthy ⟨s,.code (TcpConnection.onWrite host) :: stack⟩ .advance =
      some ⟨s,.code (Prog.run .writeLoop) :: stack⟩ := by
    change some (⟨s,.code (if s.connection.closed_ = true then _ else
      if s.connection.io_vec_li_ ≠ [] then host.writeLoop else _) :: stack⟩ :
        Config World Query Result Callback Method) = _
    rw [if_neg (by rw [opened]; decide),if_pos some_]
    rfl
  obtain ⟨k,asks,p,goes⟩ : ∃ k, (system memory).exec healthy (List.replicate 2 .advance)
      ⟨s,.code (Prog.run .writeLoop) :: stack⟩ = some ⟨s,
        .code (.ask (.writev s.connection.fd_ s.connection.io_vec_li_) k) :: .code (.done ()) :: stack⟩ ∧
      ∃ p, k a = if a.ret ≥ 0 then p else if fatal a.errno then Prog.run .onClose else pure () :=
    ⟨_,rfl,_,rfl⟩
  refine ⟨p,?_⟩
  rw [System.exec,entered,Option.bind_some,show (3 : Nat) = 2 + 1 from rfl,List.replicate_succ,List.cons_append,
    System.exec,begins,Option.bind_some,System.exec_append,asks,Option.bind_some]
  simp only [System.exec,System.step,if_pos (admitted _),goes]
  rfl

/-- What is queued in few enough nodes can be sent at once. -/
theorem backlog_goes (controlled : (⟨s,stack⟩ : Config World Query Result Callback Method).controlled)
    (writable : Writable s) : ∃ moves d, (system memory).exec healthy moves ⟨s,stack⟩ = some d ∧
      d.state.accepted = s.accepted ++ described memory s.connection.io_vec_li_ := by
  by_cases empty : s.connection.io_vec_li_ = []
  · exact ⟨[],_,rfl,by rw [empty,described_nil,List.append_nil]⟩
  · obtain ⟨p,ran⟩ := onWrite_answered controlled writable.opened empty
      ⟨total s.connection.io_vec_li_,0,[]⟩ fun ctx => by
        simp only [healthy,if_pos writable.short,sends]
        simp
    refine ⟨_,_,ran,?_⟩
    change s.accepted ++ (described memory s.connection.io_vec_li_).take (total s.connection.io_vec_li_) = _
    rw [total_eq_described memory,List.take_length]

/-- More nodes make `writev` fail, and the connection is closed for it. -/
theorem backlog_refused (controlled : (⟨s,stack⟩ : Config World Query Result Callback Method).controlled)
    (opened : s.connection.closed_ = false) (long : IOV_MAX < s.connection.io_vec_li_.length) :
    ∃ moves d next rest, (system memory).exec healthy moves ⟨s,stack⟩ = some d ∧
      d.stack = .code (.call .onClose next) :: rest := by
  have some_ : s.connection.io_vec_li_ ≠ [] := by
    intro none
    rw [none] at long
    cases long
  obtain ⟨p,ran⟩ := onWrite_answered controlled opened some_ ⟨-1,EINVAL,[]⟩ fun ctx => by
    simp only [healthy,if_neg (Nat.not_le.mpr long)]
    rfl
  exact ⟨_,_,_,_,ran,rfl⟩

end Calls

/-- Where no `Send` takes the queue past `IOV_MAX` nodes, a healthy socket never makes `OnWrite`
close the connection, and whenever the user is in control all that is queued can still be sent.
Past `IOV_MAX`, `OnWrite` closes an open connection. -/
theorem backlog_sent (memory : Nat → UInt8) (s : World) (fresh : Fresh s) :
    (∀ c, (system memory).Reachable bounded s c →
      (∀ next rest, c.stack ≠ .code (.call .onClose next) :: rest) ∧
      (c.controlled → c.state.connection.closed_ = false ∧ ∃ moves d,
        (system memory).exec healthy moves c = some d ∧
          d.state.accepted = c.state.accepted ++ described memory c.state.connection.io_vec_li_)) ∧
    ∀ c, (system memory).Reachable healthy s c → c.controlled → c.state.connection.closed_ = false →
      IOV_MAX < c.state.connection.io_vec_li_.length →
      ∃ moves d next rest, (system memory).exec healthy moves c = some d ∧
        d.stack = .code (.call .onClose next) :: rest := by
  have start : Writable s := ⟨fresh.opened,by rw [fresh.queue]; decide⟩
  constructor
  · intro c reached
    constructor
    · intro next rest top
      exact (reachable_calls backlog_sound s c start reached top).2
    · intro controlled
      have writable : Writable c.state := reachable_invariant backlog_sound s c start reached controlled
      exact ⟨writable.opened,backlog_goes controlled writable⟩
  · exact fun c _ controlled opened long => backlog_refused controlled opened long

theorem backlog_sent_two :
    ∃ c, (system letters).Reachable bounded idle c ∧ c.state.connection.io_vec_li_ = [⟨0,2⟩,⟨2,1⟩] ∧
      c.state.connection.closed_ = false ∧ ∃ moves d, (system letters).exec healthy moves c = some d ∧
        d.state.accepted = c.state.accepted ++ described letters c.state.connection.io_vec_li_ := by
  have reached := (system letters).play_reachable bounded 20 [.enter (.sendList [⟨0,2⟩,⟨2,1⟩])] idle _ rfl
  exact ⟨_,reached,rfl,((backlog_sent letters idle idle_fresh).1 _ reached).2 trivial⟩

/-- One byte in each of 1025 nodes: `OnWrite` closes the connection. -/
theorem backlog_closes :
    ∃ c, (system letters).Reachable healthy idle c ∧ c.controlled ∧
      c.state.connection.io_vec_li_ = List.replicate 1025 ⟨0,1⟩ ∧
      ∃ moves d next rest, (system letters).exec healthy moves c = some d ∧
        d.stack = .code (.call .onClose next) :: rest := by
  have idles : (⟨idle,[]⟩ : Config World Query Result Callback Method).controlled := trivial
  have fits : ((List.replicate 1025 ⟨0,1⟩ : List BufferNode).all fun l => inMemory l.addr l.size) = true := by
    rw [List.all_replicate]
    rfl
  obtain ⟨first,after,ran,opened,queue⟩ :=
    @sendList_queues letters idle [] idles rfl _ fits (List.cons_ne_nil _ _)
  have queued : after.connection.io_vec_li_ = List.replicate 1025 ⟨0,1⟩ := by
    rw [queue]
    exact List.map_replicate
  have controlled : (⟨after,[]⟩ : Config World Query Result Callback Method).controlled := trivial
  have long : IOV_MAX < after.connection.io_vec_li_.length := by
    rw [queued,List.length_replicate]
    decide
  exact ⟨⟨after,[]⟩,⟨first,ran⟩,trivial,queued,backlog_refused controlled opened long⟩

end Tmms.Network.Connection
