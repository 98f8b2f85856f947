import Tmms.TcpConnectionRules

/-! One TCP connection on its loop's thread: its socket answers system calls, the user
calls it between events and from inside callbacks, and the loop keeps its registration.
The history of bytes and of close callbacks is recorded beside the code's own state. -/
namespace Tmms.Network.Connection

open Reentrant TcpConnection

/-- Whether `events_` holds the connection, the mask last given to epoll, and what has happened: the
bytes the socket has accepted and those given to `Send`, oldest first, and how often the close
callback has been made. -/
structure World where
  connection : TcpConnection
  registered : Bool
  interest : Mask
  accepted : List UInt8
  sent : List UInt8
  closeCalls : Nat

abbrev Code := Prog World Query Result Callback Method

def update (f : TcpConnection → TcpConnection) : Code Unit :=
  .modify fun s => { s with connection := f s.connection }

def enableEventWriting (on : Bool) (s : World) : World :=
  if s.registered then
    let mask := s.connection.event_.enable kEventWrite on
    { s with connection := { s.connection with event_ := mask }, interest := mask }
  else s

def host : Host World Query Result Callback Method where
  self := do return (← Prog.read).connection
  update := update
  closeCallback := .invoke .close
  messageCallback := .invoke .message
  writeCompleteCallback := .invoke .writeComplete
  write := fun fd buf size => .query (.write fd buf size)
  writev := fun fd vec => .query (.writev fd vec)
  readFd := fun fd => .query (.readFd fd)
  closeFd := fun fd => do let _ ← Prog.query (.close fd)
  enableWriting := fun on => .modify (enableEventWriting on)
  onClose := .run .onClose
  readLoop := .run .readLoop
  writeLoop := .run .writeLoop

section Registration
variable (on : Bool) (s : World)

@[simp] theorem enable_accepted : (enableEventWriting on s).accepted = s.accepted := by
  unfold enableEventWriting; split <;> rfl

@[simp] theorem enable_sent : (enableEventWriting on s).sent = s.sent := by
  unfold enableEventWriting; split <;> rfl

@[simp] theorem enable_closeCalls : (enableEventWriting on s).closeCalls = s.closeCalls := by
  unfold enableEventWriting; split <;> rfl

@[simp] theorem enable_closed :
    (enableEventWriting on s).connection.closed_ = s.connection.closed_ := by
  unfold enableEventWriting; split <;> rfl

@[simp] theorem enable_queue :
    (enableEventWriting on s).connection.io_vec_li_ = s.connection.io_vec_li_ := by
  unfold enableEventWriting; split <;> rfl

end Registration

/-- The bytes at `pointer`; memory does not change while a buffer is on its way. -/
def bytes (memory : Nat → UInt8) (pointer size : Nat) : List UInt8 :=
  (List.range size).map fun i => memory (addPtr pointer i)

def described (memory : Nat → UInt8) (queue : List IoVec) : List UInt8 :=
  queue.flatMap fun vec => bytes memory vec.iov_base vec.iov_len

def nodes (list : List BufferNode) : List IoVec := list.map fun l => ⟨l.addr,l.size⟩

/-- The socket takes the first `ret` bytes it was shown; a failed call takes none. -/
def answered (memory : Nat → UInt8) : Query → Result → World → World
  | .write _ buf _,a,s => { s with accepted := s.accepted ++ bytes memory buf a.ret.toNat }
  | .writev _ vec,a,s => { s with accepted := s.accepted ++ (described memory vec).take a.ret.toNat }
  | _,_,s => s

/-- A closed connection drops what it is given. -/
def began (memory : Nat → UInt8) : Method → World → World
  | .send buf size,s =>
    if s.connection.closed_ then s else { s with sent := s.sent ++ bytes memory buf size }
  | .sendList list,s =>
    if s.connection.closed_ then s else { s with sent := s.sent ++ described memory (nodes list) }
  | _,s => s

theorem began_connection (memory : Nat → UInt8) (m : Method) (s : World) :
    (began memory m s).connection = s.connection := by
  cases m with
  | send | sendList =>
    simp only [began]
    split <;> rfl
  | _ => rfl

def invoked : Callback → World → World
  | .close,s => { s with closeCalls := s.closeCalls + 1 }
  | _,s => s

def system (memory : Nat → UInt8) : System World Query Result Callback Method where
  body := body host
  answered := answered memory
  began := began memory
  invoked := invoked

structure Fresh (s : World) : Prop where
  opened : s.connection.closed_ = false
  queue : s.connection.io_vec_li_ = []
  accepted : s.accepted = []
  sent : s.sent = []
  closeCalls : s.closeCalls = 0

def idle : World where
  connection := ⟨5,kEventRead,false,true,true,true,[],[]⟩
  registered := true
  interest := kEventRead
  accepted := []
  sent := []
  closeCalls := 0

theorem idle_fresh : Fresh idle := ⟨rfl,rfl,rfl,rfl,rfl⟩

section Bytes
variable (memory : Nat → UInt8)

@[simp] theorem bytes_zero (pointer : Nat) : bytes memory pointer 0 = [] := rfl

@[simp] theorem bytes_length (pointer size : Nat) : (bytes memory pointer size).length = size := by
  simp [bytes]

theorem addPtr_add (pointer a b : Nat) : addPtr (addPtr pointer a) b = addPtr pointer (a + b) := by
  simp only [addPtr]; omega

@[simp] theorem bytes_addPtr_zero (pointer size : Nat) :
    bytes memory (addPtr pointer 0) size = bytes memory pointer size := by
  simp [bytes,addPtr_add]

theorem bytes_add (pointer a b : Nat) :
    bytes memory pointer (a + b) = bytes memory pointer a ++ bytes memory (addPtr pointer a) b := by
  simp [bytes,List.range_add,addPtr_add,Function.comp_def]

theorem bytes_split (pointer size done : Nat) (bound : done ≤ size) :
    bytes memory pointer size =
      bytes memory pointer done ++ bytes memory (addPtr pointer done) (size - done) := by
  rw [← bytes_add]
  congr 1; omega

@[simp] theorem described_nil : described memory [] = [] := rfl

@[simp] theorem described_cons (vec : IoVec) (queue : List IoVec) :
    described memory (vec :: queue) =
      bytes memory vec.iov_base vec.iov_len ++ described memory queue := rfl

@[simp] theorem described_append (left right : List IoVec) :
    described memory (left ++ right) = described memory left ++ described memory right := by
  simp [described]

theorem described_length (queue : List IoVec) :
    (described memory queue).length = (queue.map IoVec.iov_len).sum := by
  simp [described,List.length_flatMap]

/-- `OnWrite` drops exactly the written bytes, and never runs off the end of the queue. -/
theorem consume_described (queue : List IoVec) (ret : Nat)
    (bound : ret ≤ (described memory queue).length) :
    ∃ rest, consume queue ret = some rest ∧ described memory rest = (described memory queue).drop ret := by
  induction queue generalizing ret with
  | nil =>
    simp only [described_nil,List.length_nil,Nat.le_zero] at bound
    subst bound
    exact ⟨[],rfl,rfl⟩
  | cons vec queue ih =>
    cases ret with
    | zero => exact ⟨vec :: queue,rfl,rfl⟩
    | succ ret =>
      simp only [described_cons,List.length_append,bytes_length] at bound
      by_cases inside : vec.iov_len > ret + 1
      · refine ⟨_,if_pos inside,?_⟩
        rw [described_cons,described_cons,bytes_split memory vec.iov_base vec.iov_len (ret + 1) (by omega),
          List.append_assoc,List.drop_left' (bytes_length memory _ _)]
      · obtain ⟨rest,consumed,eq⟩ := ih (ret + 1 - vec.iov_len) (by omega)
        have beyond : (bytes memory vec.iov_base vec.iov_len).drop (ret + 1) = [] :=
          List.drop_eq_nil_of_le (by rw [bytes_length]; omega)
        refine ⟨rest,(if_neg inside).trans consumed,?_⟩
        rw [eq,described_cons,List.drop_append,beyond,List.nil_append,bytes_length]

end Bytes

end Tmms.Network.Connection
