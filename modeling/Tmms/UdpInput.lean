import Tmms.TcpInput
import Tmms.UdpSocketRules

/-! The input side of a UDP socket. `OnRead` offers `recvfrom` a constant number of bytes and
never looks at the buffer; there is room for them because the buffer was made with it, never
gets smaller, and is cleared after each callback, whatever the callback has done to it. -/
namespace Tmms.Network.UdpInput

open Reentrant UdpSocket
open TcpInput (Take)

/-- What changes a buffer, assignment and `swap` aside; what is stored behind `beginWrite()` is a
change too. -/
inductive Edit where
  | take (how : Take)
  | retrieveInt64
  | retrieveInt32
  | retrieveInt16
  | retrieveInt8
  | append (data : List UInt8)
  | appendInt8 (x : Int)
  | ensureWritableBytes (len : Nat)
  | store (data : List UInt8)
  | hasWritten (len : Nat)
  | unwrite (len : Nat)
  | prepend (data : List UInt8)
  | prependInt64 (x : Int)
  | prependInt32 (x : Int)
  | prependInt16 (x : Int)
  | prependInt8 (x : Int)
  -- on some descriptor, which delivers `data`
  | readFd (data : List UInt8)

/-- Where an assertion fails there is no buffer. -/
def Edit.run : Edit → MsgBuffer → Option MsgBuffer
  | .take how,b => how.run b
  | .retrieveInt64,b => b.retrieveInt64
  | .retrieveInt32,b => b.retrieveInt32
  | .retrieveInt16,b => b.retrieveInt16
  | .retrieveInt8,b => b.retrieveInt8
  | .append data,b => b.append data
  | .appendInt8 x,b => b.appendInt8 x
  | .ensureWritableBytes len,b => b.ensureWritableBytes len
  | .store data,b => b.store data
  | .hasWritten len,b => b.hasWritten len
  | .unwrite len,b => b.unwrite len
  | .prepend data,b => b.prepend data
  | .prependInt64 x,b => b.prependInt64 x
  | .prependInt32 x,b => b.prependInt32 x
  | .prependInt16 x,b => b.prependInt16 x
  | .prependInt8 x,b => b.prependInt8 x
  | .readFd data,b => b.readFd data

/-- A socket, how epoll has it, and the payloads of the datagrams that were not empty, oldest first. -/
structure World where
  socket : UdpSocket
  registered : Bool
  interest : Mask
  datagrams : List (List UInt8)
  -- what was readable at the start of each message callback
  delivered : List (List UInt8)

inductive Method where
  | socket (m : UdpSocket.Method)
  | edit (how : Edit)

abbrev Code := Prog World Query Result Callback Method

def enableEventWriting (on : Bool) (s : World) : World :=
  if s.registered then
    let mask := s.socket.event_.enable kEventWrite on
    { s with socket := { s.socket with event_ := mask }, interest := mask }
  else s

def host : UdpHost World Query Result Callback Method where
  self := do return (← Prog.read).socket
  update := fun f => .modify fun s => { s with socket := f s.socket }
  closeCallback := .invoke .close
  messageCallback := .invoke .message
  writeCompleteCallback := .invoke .writeComplete
  sendto := fun fd buf size addr len => .query (.sendto fd buf size addr len)
  recvfrom := fun fd size => .query (.recvfrom fd size)
  closeFd := fun fd => do let _ ← Prog.query (.close fd)
  enableWriting := fun on => .modify (enableEventWriting on)
  lockEntry := do return (← Prog.query .lockEntry).ret ≠ 0
  insertEntry := fun delay => do let _ ← Prog.query (.insertEntry delay)
  onClose := .run (.socket .onClose)
  readLoop := .run (.socket .readLoop)
  writeLoop := .run (.socket .writeLoop)

def edit (how : Edit) : Code Unit := do
  let s ← Prog.read
  match how.run s.socket.message_buffer_ with
  | none => .fault
  | some after => Prog.modify fun s => { s with socket := { s.socket with message_buffer_ := after } }

def body : Method → Code Unit
  | .socket m => UdpSocket.body host m
  | .edit how => edit how

def answered : Query → Result → World → World
  | .recvfrom _ _,a,s => if a.ret > 0 then { s with datagrams := s.datagrams ++ [a.data] } else s
  | _,_,s => s

def invoked : Callback → World → World
  | .message,s => { s with delivered := s.delivered ++ [s.socket.message_buffer_.readable] }
  | _,s => s

def system : System World Query Result Callback Method where
  body := body
  answered := answered
  began := fun _ s => s
  invoked := invoked

/-- Events, sends and closes in any order and from inside callbacks, with any answers of the
system; `recvfrom` delivers at most what it is offered room for. The message callback changes the
buffer within its assertions, and no event is read from inside it. -/
def environment : Environment World Query Result Callback Method where
  admits := fun _ _ q a =>
    match q with
    | .recvfrom _ size => decide (a.ret ≤ size ∧ a.data.length = a.ret.toNat)
    | _ => true
  enters := fun ctx s m =>
    match m with
    | .edit how => ctx.contains .message && (how.run s.socket.message_buffer_).isSome
    | .socket .onRead => !ctx.contains .message
    | .socket .readLoop | .socket .writeLoop => false
    | .socket _ => true

structure Fresh (s : World) : Prop where
  buffer : s.socket.message_buffer_ = .initial message_buffer_size_
  datagrams : s.datagrams = []
  delivered : s.delivered = []

/-- The vector has room for a datagram behind the header, wherever the indices are. -/
structure Roomy (b : MsgBuffer) : Prop where
  ordered : b.Ordered
  capacity : kCheapPrepend + message_buffer_size_ ≤ b.buffer_.length

def Cleared (b : MsgBuffer) : Prop := b.readerIndex_ = kCheapPrepend ∧ b.writerIndex_ = kCheapPrepend

structure Whole (ctx : List Callback) (s : World) : Prop where
  roomy : Roomy s.socket.message_buffer_
  cleared : .message ∉ ctx → Cleared s.socket.message_buffer_
  delivered : s.socket.message_cb_ = true → s.delivered = s.datagrams

def inputContract : Contract World Query Callback Method where
  inv := Whole
  rely := fun _ _ _ => True
  pre := fun ctx m s => Whole ctx s ∧
    match m with
    | .edit how => .message ∈ ctx ∧ (how.run s.socket.message_buffer_).isSome = true
    | .socket .onRead | .socket .readLoop => .message ∉ ctx
    | _ => True
  post := fun ctx _ _ after => Whole ctx after
  asks := fun _ q s =>
    match q with
    | .recvfrom _ size => size ≤ s.socket.message_buffer_.writableBytes
    | _ => True
  mayFault := False

section Buffer
variable {b after : MsgBuffer}

/-- What an operation is known to come to is what it has come to. -/
theorem ordered_of_run {o : Option MsgBuffer} {property : MsgBuffer → Prop}
    (comes : ∃ last, o = some last ∧ last.Ordered ∧ property last) (ran : o = some after) : after.Ordered := by
  obtain ⟨last,same,ordered,_⟩ := comes
  rw [ran] at same
  cases same
  exact ordered

theorem take_buffer (how : Take) (ordered : b.Ordered) (ran : how.run b = some after) :
    after.Ordered ∧ after.buffer_ = b.buffer_ := by
  have retrieves : ∀ len, b.retrieve len = some after → after.Ordered ∧ after.buffer_ = b.buffer_ := by
    intro len taken
    obtain ⟨bound,_⟩ := Option.ite_none_right_eq_some.mp taken
    exact ⟨ordered_of_run (ordered.retrieve len bound) taken,MsgBuffer.retrieve_buffer taken⟩
  have strings : ∀ len, (b.retrieveAsString len).map Prod.snd = some after →
      after.Ordered ∧ after.buffer_ = b.buffer_ := by
    intro len taken
    obtain ⟨⟨string,left⟩,made,same⟩ := Option.map_eq_some_iff.mp taken
    cases same
    obtain ⟨_,cut⟩ := Option.ite_none_right_eq_some.mp made
    obtain ⟨last,retrieved,same⟩ := Option.map_eq_some_iff.mp cut
    cases same
    exact retrieves len retrieved
  have numbers : ∀ size, (b.readInt size).map Prod.snd = some after →
      after.Ordered ∧ after.buffer_ = b.buffer_ := by
    intro size taken
    obtain ⟨⟨value,last⟩,read,same⟩ := Option.map_eq_some_iff.mp taken
    cases same
    obtain ⟨peeked,_,rest⟩ := Option.bind_eq_some_iff.mp read
    obtain ⟨left,retrieved,same⟩ := Option.bind_eq_some_iff.mp rest
    cases same
    exact retrieves size retrieved
  cases how with
  | retrieve len => exact retrieves len ran
  | retrieveUntil end_ =>
    obtain ⟨_,taken⟩ := Option.ite_none_right_eq_some.mp ran
    exact retrieves _ taken
  | retrieveAll =>
    cases ran
    exact ⟨ordered.retrieveAll,rfl⟩
  | retrieveAsString len => exact strings len ran
  | retrieveAllAsString => exact strings _ ran
  | readInt64 => exact numbers 8 ran
  | readInt32 => exact numbers 4 ran
  | readInt16 => exact numbers 2 ran
  | readInt8 => exact numbers 1 ran

theorem prepend_grows (data : List UInt8) (ordered : b.Ordered) (ran : b.prepend data = some after) :
    after.Ordered ∧ b.buffer_.length ≤ after.buffer_.length := by
  obtain ⟨fits,made⟩ := Option.ite_none_right_eq_some.mp ran
  refine ⟨ordered_of_run (ordered.prepended data fits) ran,?_⟩
  cases made
  exact MsgBuffer.le_copy_length _ _ _

theorem store_grows (data : List UInt8) (ordered : b.Ordered) (ran : b.store data = some after) :
    after.Ordered ∧ b.buffer_.length ≤ after.buffer_.length := by
  obtain ⟨_,made⟩ := Option.ite_none_right_eq_some.mp ran
  have grows := MsgBuffer.le_copy_length data b.buffer_ b.writerIndex_
  cases made
  exact ⟨⟨Nat.le_trans ordered.prepend grows,ordered.reader,Nat.le_trans ordered.writer grows⟩,grows⟩

theorem hasWritten_grows (len : Nat) (ordered : b.Ordered) (ran : b.hasWritten len = some after) :
    after.Ordered ∧ b.buffer_.length ≤ after.buffer_.length := by
  obtain ⟨fits,made⟩ := Option.ite_none_right_eq_some.mp ran
  cases made
  refine ⟨⟨ordered.prepend,Nat.le_add_right_of_le ordered.reader,?_⟩,Nat.le_refl _⟩
  exact Nat.add_le_of_le_sub' ordered.writer fits

theorem unwrite_grows (len : Nat) (ordered : b.Ordered) (ran : b.unwrite len = some after) :
    after.Ordered ∧ b.buffer_.length ≤ after.buffer_.length := by
  obtain ⟨bound,made⟩ := Option.ite_none_right_eq_some.mp ran
  refine ⟨ordered_of_run (ordered.unwrite len bound) ran,?_⟩
  cases made
  exact Nat.le_refl _

/-- An edit keeps the indices in order, and the vector gets no smaller. -/
theorem Edit.run_grows (how : Edit) (ordered : b.Ordered) (ran : how.run b = some after) :
    after.Ordered ∧ b.buffer_.length ≤ after.buffer_.length := by
  have takes : ∀ take : Take, take.run b = some after →
      after.Ordered ∧ b.buffer_.length ≤ after.buffer_.length := by
    intro take ran
    obtain ⟨fine,same⟩ := take_buffer take ordered ran
    exact ⟨fine,Nat.le_of_eq (congrArg List.length same.symm)⟩
  have appends : ∀ data, b.append data = some after → after.Ordered ∧ b.buffer_.length ≤ after.buffer_.length :=
    fun data ran => ⟨(ordered.append ran).1,MsgBuffer.append_length ran⟩
  cases how with
  | take take => exact takes take ran
  | retrieveInt64 => exact takes (.retrieve 8) ran
  | retrieveInt32 => exact takes (.retrieve 4) ran
  | retrieveInt16 => exact takes (.retrieve 2) ran
  | retrieveInt8 => exact takes (.retrieve 1) ran
  | append data => exact appends data ran
  | appendInt8 x => exact appends _ ran
  | ensureWritableBytes len =>
    exact ⟨(ordered.ensureWritableBytes ran).1,MsgBuffer.ensureWritableBytes_length ran⟩
  | store data => exact store_grows data ordered ran
  | hasWritten len => exact hasWritten_grows len ordered ran
  | unwrite len => exact unwrite_grows len ordered ran
  | prepend data => exact prepend_grows data ordered ran
  | prependInt64 x | prependInt32 x | prependInt16 x | prependInt8 x => exact prepend_grows _ ordered ran
  | readFd data => exact ⟨(ordered.readFd ran).1,MsgBuffer.readFd_length ran⟩

theorem Roomy.run (roomy : Roomy b) (how : Edit) (ran : how.run b = some after) : Roomy after := by
  obtain ⟨ordered,grows⟩ := how.run_grows roomy.ordered ran
  exact ⟨ordered,Nat.le_trans roomy.capacity grows⟩

theorem Roomy.retrieveAll (roomy : Roomy b) : Roomy b.retrieveAll ∧ Cleared b.retrieveAll :=
  ⟨⟨roomy.ordered.retrieveAll,roomy.capacity⟩,rfl,rfl⟩

/-- A cleared buffer has room for what `recvfrom` is offered. -/
theorem Roomy.writable (roomy : Roomy b) (cleared : Cleared b) : message_buffer_size_ ≤ b.writableBytes := by
  have capacity := roomy.capacity
  rw [MsgBuffer.writableBytes,cleared.2]
  omega

/-- After `recvfrom`, `hasWritten` may be called, and the datagram is all that is readable. -/
theorem Roomy.received (roomy : Roomy b) (cleared : Cleared b) (data : List UInt8)
    (fits : data.length ≤ message_buffer_size_) :
    ∃ filled, received data b = some filled ∧ Roomy filled ∧ filled.readable = data := by
  have room := Nat.le_trans fits (roomy.writable cleared)
  obtain ⟨ordered,extended⟩ := roomy.ordered.written data room
  have grows := MsgBuffer.le_copy_length data b.buffer_ b.writerIndex_
  have empty : b.readable = [] := by
    rw [MsgBuffer.readable,MsgBuffer.readableBytes,cleared.1,cleared.2,Nat.sub_self,List.take_zero]
  rw [empty,List.nil_append] at extended
  refine ⟨_,?_,⟨ordered,Nat.le_trans roomy.capacity grows⟩,extended⟩
  have still : data.length ≤ (MsgBuffer.copy data b.writerIndex_ b.buffer_).length - b.writerIndex_ := by
    rw [MsgBuffer.writableBytes] at room
    omega
  rw [UdpSocket.received,if_pos room,MsgBuffer.hasWritten]
  exact if_pos still

end Buffer

section Contract
variable {s : World} (ctx : List Callback)

/-- Only the receive buffer and the record of datagrams matter. -/
theorem Whole.congr {after : World} {ctx : List Callback} (whole : Whole ctx s)
    (buffer : after.socket.message_buffer_ = s.socket.message_buffer_)
    (set : after.socket.message_cb_ = s.socket.message_cb_) (delivered : after.delivered = s.delivered)
    (datagrams : after.datagrams = s.datagrams) : Whole ctx after := by
  refine ⟨by rw [buffer]; exact whole.roomy,fun outside => ?_,fun sets => ?_⟩
  · rw [buffer]
    exact whole.cleared outside
  · rw [delivered,datagrams]
    exact whole.delivered (set ▸ sets)

/-- Only the message callback may leave something in the buffer. -/
theorem whole_cons {ctx : List Callback} {c : Callback} (other : c ≠ .message) :
    Whole (c :: ctx) s ↔ Whole ctx s := by
  have same : Callback.message ∉ c :: ctx ↔ Callback.message ∉ ctx := by
    simp [Ne.symm other]
  constructor
  · exact fun whole => ⟨whole.roomy,fun outside => whole.cleared (same.mpr outside),whole.delivered⟩
  · exact fun whole => ⟨whole.roomy,fun outside => whole.cleared (same.mp outside),whole.delivered⟩

theorem enable_whole {ctx : List Callback} (whole : Whole ctx s) (on : Bool) :
    Whole ctx (enableEventWriting on s) := by
  unfold enableEventWriting
  split
  · exact whole.congr rfl rfl rfl rfl
  · exact whole

theorem callback_whole (c : Callback) (other : c ≠ .message) :
    Kept system environment inputContract ctx (Whole ctx) (Prog.invoke c) fun _ => True := by
  intro s whole
  refine ⟨(whole_cons other).mpr ?_,fun _ _ inv => ⟨trivial,(whole_cons other).mp inv⟩⟩
  cases c with
  | message => contradiction
  | _ => exact whole

theorem query_whole (q : Query) (other : ∀ fd size, q ≠ .recvfrom fd size) :
    Kept system environment inputContract ctx (Whole ctx) (Prog.query q) fun _ => True := by
  intro s whole
  cases q with
  | recvfrom fd size => exact absurd rfl (other fd size)
  | _ => exact ⟨trivial,fun _ _ => ⟨trivial,whole⟩⟩

theorem run_whole (m : UdpSocket.Method) (quiet : m ≠ .onRead ∧ m ≠ .readLoop) :
    Kept system environment inputContract ctx (Whole ctx) (Prog.run (.socket m)) fun _ => True := by
  intro s whole
  refine ⟨⟨whole,?_⟩,fun _ done => ⟨trivial,done⟩⟩
  cases m with
  | onRead => exact absurd rfl quiet.1
  | readLoop => exact absurd rfl quiet.2
  | _ => trivial

theorem update_whole (f : UdpSocket → UdpSocket) (buffer : ∀ c, (f c).message_buffer_ = c.message_buffer_)
    (set : ∀ c, (f c).message_cb_ = c.message_cb_) :
    Kept system environment inputContract ctx (Whole ctx) (host.update f) fun _ => True :=
  fun s whole => ⟨trivial,whole.congr (buffer s.socket) (set s.socket) rfl rfl⟩

theorem host_drains : host.Drains system environment inputContract ctx (Whole ctx) where
  self := fun _ whole => ⟨trivial,whole⟩
  queue := fun _ => update_whole ctx _ (fun _ => rfl) fun _ => rfl
  sendto := fun _ _ _ _ _ => query_whole ctx _ fun _ _ => by simp
  enableWriting := fun on _ whole => ⟨trivial,enable_whole whole on⟩
  writeCompleteCallback := callback_whole ctx .writeComplete (by decide)
  lockEntry := .bind (query_whole ctx _ fun _ _ => by simp) fun _ _ => .pure trivial
  insertEntry := fun _ => .bind (query_whole ctx _ fun _ _ => by simp) fun _ _ => .pure trivial
  onClose := run_whole ctx .onClose (by simp)
  writeLoop := run_whole ctx .writeLoop (by simp)

theorem onClose_whole :
    Kept system environment inputContract ctx (Whole ctx) (UdpSocket.onClose host) fun _ => True := by
  have drains := host_drains ctx
  have shut : ∀ fd, Kept system environment inputContract ctx (Whole ctx) (host.closeFd fd) fun _ => True :=
    fun fd => .bind (query_whole ctx (.close fd) fun _ _ => by simp) fun _ _ => .pure trivial
  have closes := close_kept drains.self shut (update_whole ctx _ (fun _ => rfl) fun _ => rfl)
  have closed := update_whole ctx (fun c => { c with closed_ := true }) (fun _ => rfl) fun _ => rfl
  exact onClose_kept drains.self (callback_whole ctx .close (by decide)) closed closes

/-- One turn of the loop: a datagram comes into a cleared buffer, and leaves a cleared one. -/
theorem readLoop_whole (whole : Whole ctx s) (outside : .message ∉ ctx) :
    wp system environment inputContract ctx (UdpSocket.readLoop host) (fun _ after => Whole ctx after) s := by
  have cleared := whole.cleared outside
  have again : ∀ after : World, Whole ctx after → inputContract.pre ctx (.socket .readLoop) after :=
    fun _ whole => ⟨whole,outside⟩
  simp only [UdpSocket.readLoop,host,wp_bind,wp_read,wp_pure,wp_query]
  refine ⟨whole.roomy.writable cleared,fun a allowed => ?_⟩
  have fits : a.data.length ≤ message_buffer_size_ := by
    simp only [environment,decide_eq_true_eq] at allowed
    omega
  simp only [wp_ite]
  constructor
  · intro some_
    obtain ⟨filled,takes,roomy,readable⟩ := whole.roomy.received cleared a.data fits
    have recorded : system.answered (.recvfrom s.socket.fd_ message_buffer_size_) a s =
        { s with datagrams := s.datagrams ++ [a.data] } := if_pos some_
    rw [recorded]
    simp only [takes,wp_bind,wp_modify,wp_ite,wp_invoke,wp_run]
    constructor
    · intro set
      constructor
      · refine ⟨roomy,fun outside => absurd List.mem_cons_self outside,fun _ => ?_⟩
        change s.delivered ++ [filled.readable] = s.datagrams ++ [a.data]
        rw [whole.delivered set,readable]
      · intro after _ inv
        have left := inv.roomy.retrieveAll
        exact ⟨again _ ⟨left.1,fun _ => left.2,inv.delivered⟩,fun _ done => done⟩
    · intro unset
      have left := roomy.retrieveAll
      exact ⟨again _ ⟨left.1,fun _ => left.2,fun set => absurd set unset⟩,fun _ done => done⟩
  · intro none
    have same : system.answered (.recvfrom s.socket.fd_ message_buffer_size_) a s = s := if_neg none
    rw [same]
    refine ⟨fun _ => ⟨fun _ => ?_,fun _ => whole⟩,fun _ => ⟨again s whole,fun _ done => done⟩⟩
    exact ⟨⟨whole,trivial⟩,fun _ done => done⟩

theorem edit_whole (how : Edit) (whole : Whole ctx s) (inside : .message ∈ ctx)
    (within_ : (how.run s.socket.message_buffer_).isSome = true) :
    wp system environment inputContract ctx (edit how) (fun _ after => Whole ctx after) s := by
  obtain ⟨after,ran⟩ := Option.isSome_iff_exists.mp within_
  simp only [edit,wp_bind,wp_read,ran,wp_modify]
  exact ⟨whole.roomy.run how ran,fun outside => absurd inside outside,whole.delivered⟩

theorem input_sound : inputContract.Sound system environment where
  rely_refl := fun _ _ => trivial
  rely_trans := fun _ _ _ _ _ _ => trivial
  body := by
    intro ctx m s pre
    obtain ⟨whole,allowed⟩ := pre
    have drains := host_drains ctx
    cases m with
    | edit how => exact edit_whole ctx how whole allowed.1 allowed.2
    | socket m =>
      cases m with
      | send buf size addr len => exact (sendInLoop_kept drains.toQueues buf size addr len).wp s whole
      | sendList list => exact (sendListInLoop_kept drains.toQueues list).wp s whole
      | onRead =>
        simp only [system,body,UdpSocket.body,onRead,host,wp_bind,wp_read,wp_pure,wp_ite,wp_run]
        exact ⟨fun _ => whole,fun _ => ⟨⟨whole,allowed⟩,fun _ done => done⟩⟩
      | readLoop => exact readLoop_whole ctx whole allowed
      | onWrite => exact (onWrite_kept drains.self drains.lockEntry drains.insertEntry drains.writeLoop).wp s whole
      | writeLoop => exact (writeLoop_kept drains).wp s whole
      | onError | forceClose => exact (run_whole ctx .onClose (by simp)).wp s whole
      | onTimeout => exact whole
      | onClose => exact (onClose_whole ctx).wp s whole
  enter := by
    intro ctx m s whole allowed
    refine ⟨whole,?_⟩
    cases m with
    | edit how =>
      simp only [environment,Bool.and_eq_true,List.contains_iff_mem] at allowed
      exact allowed
    | socket m =>
      cases m with
      | onRead => simpa [environment] using allowed
      | readLoop => cases allowed
      | _ => trivial
  leave := fun _ _ _ _ _ _ done => ⟨done,trivial⟩

end Contract

theorem initial_roomy : Roomy (.initial message_buffer_size_) := by
  refine ⟨MsgBuffer.initial_ordered _,?_⟩
  rw [MsgBuffer.initial,List.length_replicate]

/-- In every run: whatever is offered to `recvfrom` fits the buffer, no assertion fails, and at the
start of each message callback the datagram just received is what is readable. -/
theorem datagrams_whole (s : World) (fresh : Fresh s) (c : Config World Query Result Callback Method)
    (reached : system.Reachable environment s c) :
    (∀ fd size next rest, c.stack = .code (.ask (.recvfrom fd size) next) :: rest →
      size ≤ c.state.socket.message_buffer_.writableBytes) ∧
    (∀ rest, c.stack ≠ .code .fault :: rest) ∧
    (c.controlled → c.state.socket.message_cb_ = true → c.state.delivered = c.state.datagrams) := by
  have start : Whole [] s := by
    refine ⟨by rw [fresh.buffer]; exact initial_roomy,fun _ => ?_,fun _ => ?_⟩
    · rw [fresh.buffer]
      exact ⟨rfl,rfl⟩
    · rw [fresh.delivered,fresh.datagrams]
  refine ⟨fun fd size next rest top => ?_,fun rest => ?_,fun controlled => ?_⟩
  · exact reachable_asks input_sound s c start reached top
  · exact reachable_no_fault input_sound s c start reached id
  · have whole : Whole (active c.stack) c.state := reachable_invariant input_sound s c start reached controlled
    exact whole.delivered

def idle : World where
  socket := ⟨5,kEventRead,false,[],30,.initial message_buffer_size_,true,true,true⟩
  registered := true
  interest := kEventRead
  datagrams := []
  delivered := []

theorem idle_fresh : Fresh idle := ⟨rfl,rfl,rfl⟩

/-- `OnRead` finds one datagram, and the buffer has room for it. -/
theorem onRead_completes {s : World} {filled : MsgBuffer} (opened : s.socket.closed_ = false)
    (set : s.socket.message_cb_ = true) (takes : received [97,98] s.socket.message_buffer_ = some filled) :
    system.Completes environment [] (onRead host) s ()
      { s with
        socket := { s.socket with message_buffer_ := filled.retrieveAll }
        datagrams := s.datagrams ++ [[97,98]]
        delivered := s.delivered ++ [filled.readable] } := by
  apply System.completes_bind (System.completes_bind System.completes_read (System.completes_pure _))
  apply System.completes_neg (by rw [opened]; decide)
  apply System.completes_run
  apply System.completes_bind (System.completes_bind System.completes_read (System.completes_pure _))
  apply System.completes_bind (System.completes_query (a := ⟨2,0,[97,98]⟩) rfl)
  apply System.completes_pos (by decide)
  rw [show (system.began (.socket .readLoop) s).socket.message_buffer_ = s.socket.message_buffer_ from rfl,takes]
  apply System.completes_bind (System.completes_modify _)
  refine System.completes_pos set ?_
  apply System.completes_bind (System.completes_invoke _)
  apply System.completes_bind (System.completes_modify _)
  apply System.completes_run
  apply System.completes_bind (System.completes_bind System.completes_read (System.completes_pure _))
  apply System.completes_bind (System.completes_query (a := ⟨-1,EAGAIN,[]⟩) rfl)
  apply System.completes_neg (by decide)
  apply System.completes_pos (by decide)
  exact System.completes_neg (by decide) (System.completes_pure ())

/-- Two bytes received, and the buffer of 65535 is not looked at. -/
theorem datagrams_whole_two :
    ∃ c : Config World Query Result Callback Method, c.state.delivered = [[97,98]] ∧ c.state.datagrams = [[97,98]] ∧
      (∀ fd size next rest, c.stack = .code (.ask (.recvfrom fd size) next) :: rest →
        size ≤ c.state.socket.message_buffer_.writableBytes) ∧
      (∀ rest, c.stack ≠ .code .fault :: rest) ∧
      (c.controlled → c.state.socket.message_cb_ = true → c.state.delivered = c.state.datagrams) := by
  obtain ⟨filled,takes,_,readable⟩ := initial_roomy.received ⟨rfl,rfl⟩ [97,98] (by decide)
  have completes := @onRead_completes idle filled rfl rfl takes
  have started : (⟨idle,[]⟩ : Config World Query Result Callback Method).controlled := trivial
  obtain ⟨moves,ran⟩ := System.completes_enter (m := Method.socket .onRead) started rfl completes
  exact ⟨_,congrArg ([] ++ [·]) readable,rfl,datagrams_whole idle idle_fresh _ ⟨moves,ran⟩⟩

end Tmms.Network.UdpInput
