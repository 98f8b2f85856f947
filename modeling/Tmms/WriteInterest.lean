import Tmms.ConnectionClose
import Tmms.ConnectionRules
import Tmms.EdgePoll

/-! Queued output and the interest in `EPOLLOUT`. The interest is given up before the user is told
that the queue is empty, and asked for again by whatever the user then queues. -/
namespace Tmms.Network.Connection

open Reentrant TcpConnection

structure Enrolled (s : World) : Prop where
  registered : s.registered = true
  interest : s.interest = s.connection.event_

structure Interested (s : World) : Prop extends Enrolled s where
  output : s.connection.closed_ = false → s.connection.io_vec_li_ ≠ [] →
    s.connection.event_.has EPOLLOUT = true

section Contract
variable (memory : Nat → UInt8)

def interestContract : Contract World Query Callback Method where
  inv := fun _ s => Interested s
  rely := fun _ _ _ => True
  pre := fun _ _ s => Interested s
  post := fun _ _ _ after => Interested after
  asks := fun _ _ _ => True
  mayFault := False

variable {memory} {s : World} (ctx : List Callback)

theorem Enrolled.enable (enrolled : Enrolled s) (on : Bool) : Enrolled (enableEventWriting on s) := by
  simp only [enableEventWriting,enrolled.registered,if_true]
  exact ⟨rfl,rfl⟩

theorem Enrolled.queue (enrolled : Enrolled s) (queue : List IoVec) :
    Enrolled { s with connection := { s.connection with io_vec_li_ := queue } } :=
  ⟨enrolled.registered,enrolled.interest⟩

theorem Enrolled.enable_event (enrolled : Enrolled s) (on : Bool) :
    (enableEventWriting on s).connection.event_ = s.connection.event_.enable kEventWrite on := by
  simp only [enableEventWriting,enrolled.registered,if_true]

/-- Interest may be given up where nothing is queued, and asked for anywhere. -/
theorem Enrolled.interested (enrolled : Enrolled s) (on : Bool) (empty : on = false → s.connection.io_vec_li_ = []) :
    Interested (enableEventWriting on s) := by
  refine ⟨enrolled.enable on,fun _ waiting => ?_⟩
  rw [enable_queue] at waiting
  cases on with
  | false => exact absurd (empty rfl) waiting
  | true =>
    rw [enrolled.enable_event,Mask.has_output]
    exact Mask.enable_output _

theorem Interested.congr {after : World} (interested : Interested s) (registered : after.registered = s.registered)
    (interest : after.interest = s.interest) (event : after.connection.event_ = s.connection.event_)
    (opened : after.connection.closed_ = false → s.connection.closed_ = false)
    (waiting : after.connection.io_vec_li_ ≠ [] → s.connection.io_vec_li_ ≠ []) : Interested after := by
  refine ⟨⟨registered.trans interested.registered,?_⟩,fun open_ some_ => ?_⟩
  · rw [interest,event]
    exact interested.interest
  · rw [event]
    exact interested.output (opened open_) (waiting some_)

theorem began_interested (m : Method) (interested : Interested s) : Interested (began memory m s) := by
  have same := began_connection memory m s
  have kept : (began memory m s).registered = s.registered ∧ (began memory m s).interest = s.interest := by
    cases m with
    | send | sendList =>
      simp only [began]
      split <;> exact ⟨rfl,rfl⟩
    | _ => exact ⟨rfl,rfl⟩
  exact interested.congr kept.1 kept.2 (congrArg event_ same) (fun open_ => same ▸ open_) fun some_ => same ▸ some_

theorem callback_interested (c : Callback) :
    Kept (system memory) anyUse interestContract ctx Interested (Prog.invoke c) fun _ => True := by
  intro s interested
  refine ⟨?_,fun _ _ inv => ⟨trivial,inv⟩⟩
  cases c <;> exact interested.congr rfl rfl rfl id id

theorem writeComplete_interested (interested : Interested s) :
    wp (system memory) anyUse interestContract ctx (TcpConnection.writeComplete host)
      (fun _ after => Interested after) s :=
  wp_writeComplete.mpr ⟨fun _ => ⟨interested,fun _ _ inv => inv⟩,fun _ => interested⟩

theorem sendRest_interested (buf send_len size : Nat) (interested : Interested s) :
    wp (system memory) anyUse interestContract ctx (TcpConnection.sendRest host buf send_len size)
      (fun _ after => Interested after) s := by
  refine (wp_sendRest _ _ _).mpr ⟨fun _ => writeComplete_interested ctx interested,fun _ => ?_⟩
  exact (interested.toEnrolled.queue _).interested true fun off => by cases off

theorem send_interested (buf size : Nat) (interested : Interested s) :
    wp (system memory) anyUse interestContract ctx (TcpConnection.sendInLoop host buf size)
      (fun _ after => Interested after) s := by
  refine (wp_sendInLoop _ _).mpr ⟨fun _ => interested,fun _ => ⟨fun _ => ⟨trivial,fun a _ => ?_⟩,fun _ => ?_⟩⟩
  · exact sendRest_interested ctx buf _ _ (interested.congr rfl rfl rfl id id)
  · exact sendRest_interested ctx buf 0 size interested

theorem sendList_interested (list : List BufferNode) (interested : Interested s) :
    wp (system memory) anyUse interestContract ctx (TcpConnection.sendListInLoop host list)
      (fun _ after => Interested after) s := by
  refine (wp_sendListInLoop _).mpr ⟨fun _ => interested,fun _ => ⟨fun _ => ?_,fun none => ?_⟩⟩
  · exact (interested.toEnrolled.queue _).interested true fun off => by cases off
  · exact ⟨⟨interested.registered,interested.interest⟩,fun _ some_ => absurd some_ none⟩

/-- What a write leaves in the queue was there before, and so was the interest in it. -/
theorem writeLoop_interested (interested : Interested s) :
    wp (system memory) anyUse interestContract ctx (TcpConnection.writeLoop host)
      (fun _ after => Interested after) s := by
  refine wp_writeLoop.mpr ⟨trivial,fun a allowed => ?_⟩
  have bound : a.ret ≤ total s.connection.io_vec_li_ := by simpa [anyUse] using allowed
  have unwritten : Interested (answered memory (.writev s.connection.fd_ s.connection.io_vec_li_) a s) :=
    interested.congr rfl rfl rfl id id
  refine ⟨fun written => ⟨fun none => consume_ne_none (by omega) none,fun rest consumed => ⟨?_,?_⟩⟩,fun _ => ?_⟩
  · intro none
    apply writeComplete_interested ctx
    exact (unwritten.toEnrolled.queue rest).interested false fun _ => none
  · intro some_
    refine ⟨unwritten.congr rfl rfl rfl id fun some_ empty => ?_,fun _ done => done⟩
    exact some_ (consume_empty consumed empty)
  · exact ⟨fun _ => ⟨unwritten,fun _ done => done⟩,fun _ => unwritten⟩

theorem onWrite_interested (interested : Interested s) :
    wp (system memory) anyUse interestContract ctx (TcpConnection.onWrite host)
      (fun _ after => Interested after) s := by
  refine wp_onWrite.mpr ⟨fun _ => interested,fun _ => ⟨fun _ => ⟨interested,fun _ done => done⟩,fun empty => ?_⟩⟩
  exact writeComplete_interested ctx (interested.toEnrolled.interested false fun _ => not_not.mp empty)

theorem run_interested (m : Method) :
    Kept (system memory) anyUse interestContract ctx Interested (Prog.run m) fun _ => True :=
  fun _ interested => ⟨interested,fun _ done => ⟨trivial,done⟩⟩

theorem update_interested (f : TcpConnection → TcpConnection) (event : ∀ c, (f c).event_ = c.event_)
    (opened : ∀ c, (f c).closed_ = false → c.closed_ = false) (queue : ∀ c, (f c).io_vec_li_ = c.io_vec_li_) :
    Kept (system memory) anyUse interestContract ctx Interested (host.update f) fun _ => True := by
  intro s interested
  refine ⟨trivial,interested.congr rfl rfl (event _) (opened _) fun waiting => ?_⟩
  rw [← queue]
  exact waiting

theorem reads_interested :
    host.Reads (system memory) anyUse interestContract ctx Interested fun _ => True where
  self := fun _ interested => ⟨trivial,interested⟩
  append := fun _ => update_interested ctx _ (fun _ => rfl) (fun _ => id) fun _ => rfl
  messageCallback := callback_interested ctx .message
  readFd := fun _ _ interested => ⟨trivial,fun _ _ => ⟨fun _ => trivial,interested.congr rfl rfl rfl id id⟩⟩
  onClose := fun s holds => run_interested ctx .onClose s holds.2
  readLoop := run_interested ctx .readLoop

theorem onClose_interested :
    Kept (system memory) anyUse interestContract ctx Interested (TcpConnection.onClose host) fun _ => True := by
  have self : Kept (system memory) anyUse interestContract ctx Interested host.self fun _ => True :=
    (reads_interested ctx).self
  refine TcpConnection.onClose_kept self (callback_interested ctx .close) ?_ (TcpConnection.close_kept self ?_ ?_)
  · exact update_interested ctx _ (fun _ => rfl) (fun _ closed => by cases closed) fun _ => rfl
  · exact fun _ _ interested => ⟨trivial,fun _ _ => ⟨trivial,interested.congr rfl rfl rfl id id⟩⟩
  · exact update_interested ctx _ (fun _ => rfl) (fun _ => id) fun _ => rfl

theorem interest_sound : interestContract.Sound (system memory) anyUse where
  rely_refl := fun _ _ => trivial
  rely_trans := fun _ _ _ _ _ _ => trivial
  body := by
    intro ctx m s pre
    have interested := @began_interested memory s m pre
    cases m with
    | send buf size => exact send_interested ctx buf size interested
    | sendList list => exact sendList_interested ctx list interested
    | retrieve count =>
      have dropped := @update_interested memory ctx
        (fun c => { c with message_buffer_ := c.message_buffer_.drop count }) (fun _ => rfl) (fun _ => id)
        fun _ => rfl
      exact dropped.wp _ interested
    | onRead =>
      exact (onRead_of_readLoop (reads_interested ctx).self (reads_interested ctx).readLoop).wp _ interested
    | readLoop => exact (readLoop_of_reads (reads_interested ctx)).wp _ interested
    | onWrite => exact onWrite_interested ctx interested
    | writeLoop => exact writeLoop_interested ctx interested
    | onError | onTimeout | forceClose => exact (run_interested ctx .onClose).wp _ interested
    | onClose => exact (onClose_interested ctx).wp _ interested
  enter := fun _ _ _ interested _ => interested
  leave := fun _ _ _ _ _ _ done => ⟨done,trivial⟩

end Contract

/-- Whenever the user is in control of a registered connection, between two handlers or inside a
callback, output that waits on the open connection is asked for, and epoll has the connection's
mask. -/
theorem output_interest (memory : Nat → UInt8) (s : World) (fresh : Fresh s) (enrolled : Enrolled s)
    (c : Config World Query Result Callback Method) (reached : (system memory).Reachable anyUse s c)
    (controlled : c.controlled) (opened : c.state.connection.closed_ = false)
    (waiting : c.state.connection.io_vec_li_ ≠ []) :
    c.state.connection.event_.has EPOLLOUT = true ∧ c.state.interest = c.state.connection.event_ := by
  have start : Interested s := ⟨enrolled,fun _ some_ => absurd fresh.queue some_⟩
  have interested : Interested c.state := reachable_invariant interest_sound s c start reached controlled
  exact ⟨interested.output opened waiting,interested.interest⟩

/-- The queue is drained, and the user sends on from inside the callback; the socket takes nothing. -/
theorem output_interest_resent :
    ∃ c : Config World Query Result Callback Method, active c.stack = [.writeComplete] ∧
      c.state.connection.io_vec_li_ = [⟨7,1⟩] ∧
      c.state.connection.event_.has EPOLLOUT = true ∧ c.state.interest = c.state.connection.event_ := by
  have reached := (system fun _ => 0).play_reachable anyUse 40
    [.enter (.sendList [⟨5,1⟩]),.enter .onWrite,.answer ⟨1,0,[]⟩,.enter (.send 7 1),.answer ⟨0,0,[]⟩] idle _ rfl
  exact ⟨_,rfl,rfl,output_interest _ idle idle_fresh ⟨rfl,rfl⟩ _ reached trivial rfl (List.cons_ne_nil _ _)⟩

end Tmms.Network.Connection
