import Tmms.ConnectionRules

/-! The byte stream a connection puts on its socket. The direct write of `SendInLoop` and
the queued writes of `OnWrite` agree as long as no direct write is refused: its result
goes through an unsigned variable, and a refused write then queues the byte before the
buffer as well. -/
namespace Tmms.Network.Connection

open Reentrant TcpConnection

def passing (limit : Nat) (a : Result) : Bool :=
  decide (0 ≤ a.ret ∧ a.ret ≤ limit) || (a.ret == -1 && !fatal a.errno)

theorem passing_cases {limit : Nat} {a : Result} (passes : passing limit a = true) :
    (0 ≤ a.ret ∧ a.ret ≤ limit) ∨ (a.ret = -1 ∧ fatal a.errno = false) := by
  simpa [passing] using passes

def inMemory (buf size : Nat) : Bool := decide (size < 2^64 ∧ buf + size ≤ 2^64)

/-- Sends and write events in any order, sends from inside write-complete callbacks too,
on a socket that takes any part of what it is shown or passingly refuses it. -/
def sending : Environment World Query Result Callback Method where
  admits := fun _ _ q a =>
    match q with
    | .write _ _ size => passing size a
    | .writev _ vec => passing (total vec) a
    | _ => false
  enters := fun _ _ m =>
    match m with
    | .send buf size => inMemory buf size
    | .sendList list => list.all fun l => inMemory l.addr l.size
    | .onWrite => true
    | _ => false

/-- The same, where the socket refuses no write made directly from `SendInLoop`. -/
def sendingDirect : Environment World Query Result Callback Method where
  admits := fun ctx s q a =>
    sending.admits ctx s q a &&
      match q with
      | .write _ _ _ => decide (0 ≤ a.ret)
      | _ => true
  enters := sending.enters

/-- Nothing is lost, duplicated, reordered or invented. -/
structure Integrity (memory : Nat → UInt8) (s : World) : Prop where
  opened : s.connection.closed_ = false
  stream : s.accepted ++ described memory s.connection.io_vec_li_ = s.sent

section Contract
variable (memory : Nat → UInt8)

structure Sending (buf size : Nat) (s : World) : Prop where
  opened : s.connection.closed_ = false
  stream : s.accepted ++ described memory s.connection.io_vec_li_ ++ bytes memory buf size = s.sent

def outputContract : Contract World Query Callback Method where
  inv := fun _ s => Integrity memory s
  rely := fun _ _ _ => True
  pre := fun _ m s =>
    match m with
    | .send _ size => Integrity memory s ∧ size < 2^64
    | .sendList _ | .onWrite | .writeLoop => Integrity memory s
    | _ => False
  post := fun _ _ _ after => Integrity memory after
  asks := fun _ q s =>
    match q with
    | .writev _ _ => Integrity memory s
    | _ => True
  mayFault := False

theorem integrity_enable (on : Bool) (s : World) (holds : Integrity memory s) :
    Integrity memory (enableEventWriting on s) :=
  ⟨by simpa using holds.opened,by simpa using holds.stream⟩

theorem writeComplete_integrity (E : Environment World Query Result Callback Method) (ctx : List Callback) (s : World)
    (holds : Integrity memory s) :
    wp (system memory) E (outputContract memory) ctx (TcpConnection.writeComplete host)
      (fun _ after => Integrity memory after) s := by
  exact wp_writeComplete.mpr ⟨fun _ => ⟨holds,fun after _ inv => inv⟩,fun _ => holds⟩

/-- Queueing the unsent rest, or finding that there is none, completes a send. -/
theorem sendRest_integrity (E : Environment World Query Result Callback Method) (ctx : List Callback) (s : World)
    (buf send_len size : Nat) (sending : Sending memory (addPtr buf send_len) size s) :
    wp (system memory) E (outputContract memory) ctx (TcpConnection.sendRest host buf send_len size)
      (fun _ after => Integrity memory after) s := by
  rw [wp_sendRest]
  constructor
  · intro empty
    subst empty
    exact writeComplete_integrity memory E ctx s ⟨sending.opened,by simpa using sending.stream⟩
  · intro _
    refine integrity_enable memory true _ ⟨sending.opened,?_⟩
    simpa using sending.stream

theorem toSize_of_nonneg (value : Int) (limit : Nat) (nonneg : 0 ≤ value) (bound : value ≤ limit)
    (fits : limit < 2^64) : toSize value = value.toNat := by
  simp only [toSize]; omega

theorem subSize_of_le (a b : Nat) (bound : b ≤ a) (fits : a < 2^64) : subSize a b = a - b := by
  simp only [subSize]; omega

theorem send_integrity (ctx : List Callback) (s : World) (buf size : Nat)
    (holds : Integrity memory s) (fits : size < 2^64) :
    wp (system memory) sendingDirect (outputContract memory) ctx (body host (.send buf size))
      (fun _ after => Integrity memory after) (began memory (.send buf size) s) := by
  have opened := holds.opened
  have stream := holds.stream
  have queued : Sending memory buf size (began memory (.send buf size) s) := by
    simp only [began,opened,Bool.false_eq_true,if_false]
    exact ⟨opened,by rw [stream]⟩
  generalize began memory (.send buf size) s = started at queued
  have startOpened := queued.opened
  refine (wp_sendInLoop buf size).mpr ⟨fun closed => ?_,fun _ => ?_⟩
  · rw [startOpened] at closed
    cases closed
  refine ⟨fun empty => ⟨trivial,fun a admitted => ?_⟩,fun _ => ?_⟩
  · have taken : 0 ≤ a.ret ∧ a.ret ≤ size := by
      simp [sendingDirect,sending,passing] at admitted
      omega
    rw [toSize_of_nonneg a.ret size taken.1 taken.2 fits,subSize_of_le size _ (by omega) fits]
    refine sendRest_integrity memory _ ctx _ buf a.ret.toNat (size - a.ret.toNat) ⟨startOpened,?_⟩
    have all := queued.stream
    rw [empty,bytes_split memory buf size a.ret.toNat (by omega)] at all
    simpa [answered,empty] using all
  · refine sendRest_integrity memory _ ctx _ buf 0 size ⟨startOpened,?_⟩
    rw [bytes_addPtr_zero]
    exact queued.stream

theorem sendList_integrity (ctx : List Callback) (s : World) (list : List BufferNode)
    (holds : Integrity memory s) :
    wp (system memory) sendingDirect (outputContract memory) ctx (body host (.sendList list))
      (fun _ after => Integrity memory after) (began memory (.sendList list) s) := by
  have opened := holds.opened
  have queued : Integrity memory { began memory (.sendList list) s with connection :=
      { s.connection with io_vec_li_ := s.connection.io_vec_li_ ++ nodes list } } := by
    refine ⟨opened,?_⟩
    simp only [began,opened,Bool.false_eq_true,if_false]
    rw [described_append,← List.append_assoc,holds.stream]
  have same := began_connection memory (.sendList list) s
  refine (wp_sendListInLoop list).mpr ⟨fun closed => ?_,fun _ => ?_⟩
  · rw [same,opened] at closed
    cases closed
  · rw [same]
    exact ⟨fun _ => integrity_enable memory true _ queued,fun _ => queued⟩

theorem writeLoop_integrity (ctx : List Callback) (s : World) (holds : Integrity memory s) :
    wp (system memory) sendingDirect (outputContract memory) ctx (body host .writeLoop)
      (fun _ after => Integrity memory after) s := by
  refine wp_writeLoop.mpr ⟨holds,fun a admitted => ?_⟩
  have cases : (0 ≤ a.ret ∧ a.ret ≤ total s.connection.io_vec_li_) ∨ (a.ret = -1 ∧ fatal a.errno = false) :=
    passing_cases (by simpa [sendingDirect,sending] using admitted)
  constructor
  · intro written
    have bound : a.ret.toNat ≤ (described memory s.connection.io_vec_li_).length := by
      rw [described_length]
      rcases cases with taken | refused
      · have := taken.2; simp only [total] at this; omega
      · omega
    obtain ⟨left,consumed,remaining⟩ := consume_described memory _ _ bound
    have kept : Integrity memory { answered memory (.writev s.connection.fd_ s.connection.io_vec_li_) a s with
        connection := { s.connection with io_vec_li_ := left } } :=
      ⟨holds.opened,by simpa [answered,remaining,List.append_assoc] using holds.stream⟩
    rw [consumed]
    refine ⟨fun none => (Option.some_ne_none _ none).elim,?_⟩
    rintro rest ⟨⟩
    refine ⟨fun _ => ?_,fun _ => ⟨kept,fun after done => done⟩⟩
    exact writeComplete_integrity memory _ ctx _ (integrity_enable memory false _ kept)
  · intro refused
    have passes : fatal a.errno = false := by
      rcases cases with taken | again
      · omega
      · exact again.2
    have unchanged : answered memory (.writev s.connection.fd_ s.connection.io_vec_li_) a s = s := by
      have none : a.ret.toNat = 0 := by omega
      simp [answered,none]
    rw [unchanged]
    exact ⟨fun fails => absurd fails (by simp [passes]),fun _ => holds⟩

theorem onWrite_integrity (ctx : List Callback) (s : World) (holds : Integrity memory s) :
    wp (system memory) sendingDirect (outputContract memory) ctx (body host .onWrite)
      (fun _ after => Integrity memory after) s := by
  refine wp_onWrite.mpr ⟨fun _ => holds,fun _ => ⟨fun _ => ⟨holds,fun after done => done⟩,fun _ => ?_⟩⟩
  exact writeComplete_integrity memory _ ctx _ (integrity_enable memory false _ holds)

theorem output_sound : (outputContract memory).Sound (system memory) sendingDirect where
  rely_refl := fun _ _ => trivial
  rely_trans := fun _ _ _ _ _ _ => trivial
  body := by
    intro ctx m s pre
    cases m with
    | send buf size => exact send_integrity memory ctx s buf size pre.1 pre.2
    | sendList list => exact sendList_integrity memory ctx s list pre
    | onWrite => exact onWrite_integrity memory ctx s pre
    | writeLoop => exact writeLoop_integrity memory ctx s pre
    | _ => exact pre.elim
  enter := by
    intro ctx m s inv allowed
    cases m with
    | send buf size =>
      simp only [sendingDirect,sending,inMemory,decide_eq_true_eq] at allowed
      exact ⟨inv,allowed.1⟩
    | sendList list => exact inv
    | onWrite => exact inv
    | _ => simp [sendingDirect,sending] at allowed
  leave := fun _ _ _ _ _ _ done => ⟨done,trivial⟩

end Contract

/-- The user is in control, or `OnWrite` is about to write its queue. -/
def Settled (c : Config World Query Result Callback Method) : Prop :=
  c.controlled ∨ ∃ fd vec next rest, c.stack = .code (.ask (.writev fd vec) next) :: rest

/-- In every run in which no direct write is refused, the accepted bytes followed by the
queued ones are the bytes sent, callbacks and the turns of `OnWrite` included. -/
theorem output_integrity (memory : Nat → UInt8) (s : World)
    (c : Config World Query Result Callback Method) (fresh : Fresh s)
    (reached : (system memory).Reachable sendingDirect s c) (settled : Settled c) :
    c.state.accepted ++ described memory c.state.connection.io_vec_li_ = c.state.sent := by
  have start : Integrity memory s :=
    ⟨fresh.opened,by rw [fresh.queue,fresh.accepted,fresh.sent]; rfl⟩
  rcases settled with controlled | ⟨fd,vec,next,rest,top⟩
  · exact (reachable_invariant (output_sound memory) s c start reached controlled).stream
  · have asked : Integrity memory c.state :=
      reachable_asks (output_sound memory) s c start reached top
    exact asked.stream

def letters (address : Nat) : UInt8 := UInt8.ofNat (97 + address)

/-- Three bytes, of which the socket takes one at once and two when it is writable. -/
theorem output_integrity_split :
    ∃ c, Settled c ∧ c.state.accepted = [98,99,100] ∧
      c.state.accepted ++ described letters c.state.connection.io_vec_li_ = c.state.sent := by
  have reached := (system letters).play_reachable sendingDirect 40
    [.enter (.send 1 3),.answer ⟨1,0,[]⟩,.enter .onWrite,.answer ⟨2,0,[]⟩] idle _ rfl
  refine ⟨_,?_,?_,output_integrity letters idle _ idle_fresh reached ?_⟩
  · exact Or.inl trivial
  · decide
  · exact Or.inl trivial

/-- A refused direct write queues the byte before the buffer too. -/
theorem output_corrupted :
    ∃ c, (system letters).Reachable sending idle c ∧ c.controlled ∧ c.state.accepted = [] ∧
      described letters c.state.connection.io_vec_li_ = [97,98] ∧ c.state.sent = [98] ∧
      c.state.accepted ++ described letters c.state.connection.io_vec_li_ ≠ c.state.sent := by
  have reached := (system letters).play_reachable sending 40
    [.enter (.send 1 1),.answer ⟨-1,EAGAIN,[]⟩] idle _ rfl
  exact ⟨_,reached,trivial,rfl,by decide,by decide,by decide⟩

end Tmms.Network.Connection
