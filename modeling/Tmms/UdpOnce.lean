import Tmms.UdpSocketRules

/-! How often a datagram is sent. A datagram leaves the queue, or does not enter it, when `sendto`
gives a positive size; so an empty one that the kernel has accepted is offered to it again, and
`OnWrite` comes back to it without end. -/
namespace Tmms.Network.UdpOnce

open Reentrant UdpSocket

/-- A datagram that the kernel has accepted: which of those given to `Send` it is, and with what
`sendto` was called. -/
structure Offer where
  serial : Nat
  size : Nat
  addr : Nat
  len : Nat
  deriving DecidableEq

/-- A socket, how epoll has it, and the datagrams given to `Send` and those the kernel has accepted,
oldest first. -/
structure World where
  socket : UdpSocket
  registered : Bool
  interest : Mask
  given : List UdpBufferNode
  accepted : List Offer

abbrev Code := Prog World Query Result Callback Method

def enableEventWriting (on : Bool) (s : World) : World :=
  if s.registered then
    let mask := s.socket.event_.enable kEventWrite on
    { s with socket := { s.socket with event_ := mask }, interest := mask }
  else s

def host : UdpHost World Query Result Callback Method where
  self := do return (← Prog.read).socket
  update := fun f => .modify fun s => { s with socket := f s.socket }
  closeCallback := .invoke .close
  messageCallback := .invoke .message
  writeCompleteCallback := .invoke .writeComplete
  sendto := fun fd buf size addr len => .query (.sendto fd buf size addr len)
  recvfrom := fun fd size => .query (.recvfrom fd size)
  closeFd := fun fd => do let _ ← Prog.query (.close fd)
  enableWriting := fun on => .modify (enableEventWriting on)
  lockEntry := do return (← Prog.query .lockEntry).ret ≠ 0
  insertEntry := fun delay => do let _ ← Prog.query (.insertEntry delay)
  onClose := .run .onClose
  readLoop := .run .readLoop
  writeLoop := .run .writeLoop

/-- Which datagram `sendto` is called for: the first that waits, or the one just given. The queue
holds the last that were given. -/
def offered (s : World) : Nat :=
  if s.socket.buffer_list_ = [] then s.given.length - 1 else s.given.length - s.socket.buffer_list_.length

def taken (size addr len : Nat) (s : World) : World :=
  { s with accepted := s.accepted ++ [⟨offered s,size,addr,len⟩] }

def answered : Query → Result → World → World
  | .sendto _ _ size addr len,a,s => if a.ret ≥ 0 then taken size addr len s else s
  | _,_,s => s

def began : Method → World → World
  | .send buf size addr len,s => { s with given := s.given ++ [⟨⟨buf,size⟩,addr,len⟩] }
  | .sendList list,s => { s with given := s.given ++ list }
  | _,s => s

def system : System World Query Result Callback Method where
  body := body host
  answered := answered
  began := began
  invoked := fun _ s => s

/-- Any use of a socket; `sendto` accepts a datagram whole, or fails. -/
def anySize : Environment World Query Result Callback Method where
  admits := fun _ _ q a =>
    match q with
    | .sendto _ _ size _ _ => a.ret == size || a.ret == -1
    | _ => true
  enters := fun _ _ m =>
    match m with
    | .readLoop | .writeLoop => false
    | _ => true

/-- The same, where it never accepts an empty one. -/
def nonempty : Environment World Query Result Callback Method where
  admits := fun ctx s q a => anySize.admits ctx s q a &&
    match q with
    | .sendto _ _ _ _ _ => a.ret != 0
    | _ => true
  enters := anySize.enters

def Offer.Names (given : List UdpBufferNode) (offer : Offer) : Prop :=
  ∃ node, given[offer.serial]? = some node ∧ node.base.size = offer.size ∧ node.addr = offer.addr ∧
    node.sock_len = offer.len

structure Once (pending : List UdpBufferNode) (s : World) : Prop where
  tail : pending <:+ s.given
  increasing : s.accepted.Pairwise fun first second => first.serial < second.serial
  before : ∀ offer ∈ s.accepted, offer.serial + pending.length < s.given.length
  named : ∀ offer ∈ s.accepted, offer.Names s.given

def Waiting (s : World) : Prop := Once s.socket.buffer_list_ s

def onceContract : Contract World Query Callback Method where
  inv := fun _ s => Waiting s
  rely := fun _ _ _ => True
  pre := fun _ _ s => Waiting s
  post := fun _ _ _ after => Waiting after
  asks := fun _ _ s => ∃ pending, Once pending s
  mayFault := True

section Steps
variable {s : World} {pending : List UdpBufferNode}

theorem Once.congr (once : Once pending s) (after : World) (given : after.given = s.given)
    (accepted : after.accepted = s.accepted) : Once pending after := by
  obtain ⟨tail,increasing,before,named⟩ := once
  rw [← given] at tail before named
  rw [← accepted] at increasing before named
  exact ⟨tail,increasing,before,named⟩

theorem Offer.Names.append {given : List UdpBufferNode} {offer : Offer} (named : offer.Names given)
    (list : List UdpBufferNode) : offer.Names (given ++ list) := by
  obtain ⟨node,found,same⟩ := named
  obtain ⟨inside,_⟩ := List.getElem?_eq_some_iff.mp found
  exact ⟨node,by rw [List.getElem?_append_left inside,found],same⟩

theorem Once.append (once : Once pending s) (list : List UdpBufferNode) :
    Once (pending ++ list) { s with given := s.given ++ list } := by
  constructor
  · obtain ⟨older,same⟩ := once.tail
    exact ⟨older,by rw [← same,List.append_assoc]⟩
  · exact once.increasing
  · intro offer among
    have bound := once.before offer among
    simp only [List.length_append]
    omega
  · exact fun offer among => (once.named offer among).append list

theorem Once.take {node : UdpBufferNode} (once : Once (node :: pending) s)
    (first : offered s = s.given.length - (pending.length + 1)) :
    Once pending (taken node.base.size node.addr node.sock_len s) := by
  obtain ⟨older,same⟩ := once.tail
  have length : s.given.length = older.length + (pending.length + 1) := by
    rw [← same,List.length_append,List.length_cons]
  have serial : offered s = older.length := by omega
  have found : s.given[older.length]? = some node := by
    rw [← same,List.getElem?_append_right (Nat.le_refl _),Nat.sub_self]
    rfl
  have earlier : ∀ offer ∈ s.accepted, offer.serial < older.length := by
    intro offer among
    have bound := once.before offer among
    rw [length,List.length_cons] at bound
    omega
  constructor
  · exact ⟨older ++ [node],(List.append_assoc _ _ _).trans same⟩
  · rw [taken,List.pairwise_append]
    refine ⟨once.increasing,List.pairwise_singleton _ _,fun offer among last same => ?_⟩
    rw [List.mem_singleton.mp same,serial]
    exact earlier offer among
  · intro offer among
    have bound : offer.serial ≤ older.length := by
      rcases List.mem_append.mp among with before | now
      · exact Nat.le_of_lt (earlier offer before)
      · rw [List.mem_singleton.mp now]
        exact Nat.le_of_eq serial
    change offer.serial + pending.length < s.given.length
    omega
  · intro offer among
    rcases List.mem_append.mp among with before | now
    · exact once.named offer before
    · rw [List.mem_singleton.mp now,serial]
      exact ⟨node,found,rfl,rfl,rfl⟩

end Steps

section Bodies
variable {s : World} (ctx : List Callback)

theorem waiting_run (m : Method) : Kept system nonempty onceContract ctx Waiting (Prog.run m) fun _ => True :=
  fun _ waiting => ⟨waiting,fun _ done => ⟨trivial,done⟩⟩

theorem waiting_invoke (t : Callback) :
    Kept system nonempty onceContract ctx Waiting (Prog.invoke t) fun _ => True :=
  fun _ waiting => ⟨waiting,fun _ _ inv => ⟨trivial,inv⟩⟩

theorem waiting_query (q : Query) (same : ∀ a s, answered q a s = s) :
    Kept system nonempty onceContract ctx Waiting (Prog.query q) fun _ => True := by
  intro s waiting
  refine ⟨⟨_,waiting⟩,fun a _ => ⟨trivial,?_⟩⟩
  change Waiting (answered q a s)
  rw [same]
  exact waiting

theorem waiting_update (f : UdpSocket → UdpSocket) (same : ∀ c, (f c).buffer_list_ = c.buffer_list_) :
    Kept system nonempty onceContract ctx Waiting (host.update f) fun _ => True := by
  intro s waiting
  refine ⟨trivial,?_⟩
  change Once (f s.socket).buffer_list_ _
  rw [same]
  exact waiting.congr _ rfl rfl

theorem waiting_self : Kept system nonempty onceContract ctx Waiting host.self fun _ => True :=
  fun _ waiting => ⟨trivial,waiting⟩

theorem waiting_receives : host.Receives system nonempty onceContract ctx Waiting where
  self := waiting_self ctx
  buffer := fun _ => waiting_update ctx _ fun _ => rfl
  messageCallback := waiting_invoke ctx .message
  recvfrom := fun _ _ => waiting_query ctx _ fun _ _ => rfl
  onClose := waiting_run ctx .onClose
  readLoop := waiting_run ctx .readLoop
  fault := trivial

theorem onClose_waiting : Kept system nonempty onceContract ctx Waiting (onClose host) fun _ => True := by
  have closeFd (fd : Int) : Kept system nonempty onceContract ctx Waiting (host.closeFd fd) fun _ => True :=
    .bind (waiting_query ctx _ fun _ _ => rfl) fun _ _ => .pure trivial
  have close := close_kept (waiting_self ctx) closeFd (waiting_update ctx _ fun _ => rfl)
  exact onClose_kept (waiting_self ctx) (waiting_invoke ctx .close) (waiting_update ctx _ fun _ => rfl) close

theorem waiting_enable (on : Bool) (waiting : Waiting s) : Waiting (enableEventWriting on s) := by
  unfold enableEventWriting
  split
  · exact waiting.congr _ rfl rfl
  · exact waiting

theorem sendNode_waiting (buf size addr len : Nat)
    (once : Once (s.socket.buffer_list_ ++ [⟨⟨buf,size⟩,addr,len⟩]) s) :
    wp system nonempty onceContract ctx (sendNode host buf size addr len) (fun _ after => Waiting after) s := by
  simp only [sendNode,host,wp_bind,wp_modify]
  exact waiting_enable true (once.congr _ rfl rfl)

/-- `sendto` accepts the datagram, and says so, or leaves everything as it is. -/
theorem wp_sendto {fd : Int} {buf size addr len : Nat} {pending : List UdpBufferNode} {goal : Result → World → Prop}
    (once : Once pending s) (took : ∀ a : Result, a.ret > 0 → goal a (taken size addr len s))
    (refused : ∀ a : Result, a.ret < 0 → goal a s) :
    wp system nonempty onceContract ctx (Prog.query (.sendto fd buf size addr len)) goal s := by
  refine ⟨⟨pending,once⟩,fun a admitted => ?_⟩
  simp only [nonempty,anySize,Bool.and_eq_true,Bool.or_eq_true,beq_iff_eq,bne_iff_ne] at admitted
  by_cases negative : a.ret < 0
  · have same : answered (.sendto fd buf size addr len) a s = s := if_neg (by omega)
    change goal a (answered (.sendto fd buf size addr len) a s)
    rw [same]
    exact refused a negative
  · have same : answered (.sendto fd buf size addr len) a s = taken size addr len s := if_pos (by omega)
    change goal a (answered (.sendto fd buf size addr len) a s)
    rw [same]
    exact took a (by omega)

theorem send_waiting (buf size addr len : Nat) (waiting : Waiting s) :
    wp system nonempty onceContract ctx (sendInLoop host buf size addr len) (fun _ after => Waiting after)
      (began (.send buf size addr len) s) := by
  have started : Once (s.socket.buffer_list_ ++ [⟨⟨buf,size⟩,addr,len⟩]) (began (.send buf size addr len) s) :=
    waiting.append [⟨⟨buf,size⟩,addr,len⟩]
  have same : (began (.send buf size addr len) s).socket = s.socket := rfl
  rw [← same] at started
  generalize began (.send buf size addr len) s = begun at started
  simp only [sendInLoop,host,wp_bind,wp_read,wp_pure,wp_ite]
  constructor
  · intro empty
    rw [empty,List.nil_append] at started
    apply wp_sendto ctx started
    · intro a took
      rw [if_pos took,wp_pure,Waiting]
      change Once begun.socket.buffer_list_ _
      rw [empty]
      exact started.take (if_pos empty)
    · intro a failed
      rw [if_neg (by omega)]
      apply sendNode_waiting
      rw [empty]
      exact started
  · intro _
    exact sendNode_waiting ctx buf size addr len started

theorem sendList_waiting (list : List UdpBufferNode) (waiting : Waiting s) :
    wp system nonempty onceContract ctx (sendListInLoop host list) (fun _ after => Waiting after)
      (began (.sendList list) s) := by
  have started := waiting.append list
  simp only [sendListInLoop,host,wp_bind,wp_read,wp_pure,wp_ite,wp_modify]
  constructor
  · exact fun _ => waiting_enable true (started.congr _ rfl rfl)
  · exact fun _ => started.congr _ rfl rfl

theorem writeTurn_waiting : Kept system nonempty onceContract ctx Waiting (writeTurn host) fun _ => True :=
  writeTurn_kept (waiting_self ctx) (waiting_invoke ctx .writeComplete) (waiting_run ctx .writeLoop)

theorem writeLoop_waiting (waiting : Waiting s) :
    wp system nonempty onceContract ctx (writeLoop host) (fun _ after => Waiting after) s := by
  simp only [writeLoop,host,wp_bind,wp_read,wp_pure]
  cases queue : s.socket.buffer_list_ with
  | nil => exact (writeTurn_waiting ctx).wp s waiting
  | cons node rest =>
    have once : Once (node :: rest) s := queue ▸ waiting
    rw [wp_bind]
    apply wp_sendto ctx once
    · intro a took
      have first : offered s = s.given.length - (rest.length + 1) := by
        rw [offered,queue]
        exact if_neg (List.cons_ne_nil _ _)
      rw [if_pos took,wp_bind,wp_modify]
      apply (writeTurn_waiting ctx).wp
      change Once s.socket.buffer_list_.tail _
      rw [queue]
      exact (once.take first).congr _ rfl rfl
    · intro a failed
      rw [if_neg (by omega),if_pos failed,wp_ite]
      exact ⟨fun _ => (waiting_run ctx .onClose).wp s waiting,fun _ => waiting⟩

theorem onWrite_waiting : Kept system nonempty onceContract ctx Waiting (onWrite host) fun _ => True := by
  have lockEntry : Kept system nonempty onceContract ctx Waiting host.lockEntry fun _ => True :=
    .bind (waiting_query ctx _ fun _ _ => rfl) fun _ _ => .pure trivial
  have insertEntry (delay : Int) : Kept system nonempty onceContract ctx Waiting (host.insertEntry delay)
      fun _ => True := .bind (waiting_query ctx _ fun _ _ => rfl) fun _ _ => .pure trivial
  exact onWrite_kept (waiting_self ctx) lockEntry insertEntry (waiting_run ctx .writeLoop)

theorem body_waiting (m : Method) (waiting : Waiting s) :
    wp system nonempty onceContract ctx (body host m) (fun _ after => Waiting after) (began m s) := by
  cases m with
  | send buf size addr len => exact send_waiting ctx buf size addr len waiting
  | sendList list => exact sendList_waiting ctx list waiting
  | onRead => exact (onRead_kept (waiting_self ctx) (waiting_run ctx .readLoop)).wp s waiting
  | readLoop => exact (readLoop_of_receives (waiting_receives ctx)).wp s waiting
  | onWrite => exact (onWrite_waiting ctx).wp s waiting
  | writeLoop => exact writeLoop_waiting ctx waiting
  | onTimeout => exact waiting
  | onError | forceClose => exact (waiting_run ctx .onClose).wp s waiting
  | onClose => exact (onClose_waiting ctx).wp s waiting

end Bodies

theorem once_sound : onceContract.Sound system nonempty where
  rely_refl := fun _ _ => trivial
  rely_trans := fun _ _ _ _ _ _ => trivial
  body := fun ctx m _ waiting => body_waiting ctx m waiting
  enter := fun _ _ _ waiting _ => waiting
  leave := fun _ _ _ _ _ _ done => ⟨done,trivial⟩

def accepting : Environment World Query Result Callback Method where
  admits := fun _ _ q a =>
    match q with
    | .sendto _ _ size _ _ => a.ret == size
    | _ => true
  enters := fun _ _ _ => false

section Termination
variable {E : Environment World Query Result Callback Method} {s : World}
  {rest k : List (Frame World Query Result Callback Method)}

theorem accepting_answers (ctx : List Callback) (s : World) (q : Query) :
    ∃ a, accepting.admits ctx s q a = true := by
  cases q with
  | sendto fd buf size addr len => exact ⟨⟨size,0,[]⟩,by simp [accepting]⟩
  | _ => exact ⟨⟨0,0,[]⟩,rfl⟩

theorem accepting_fewer (ctx : List Callback) (s : World) (q : Query) (a : Result)
    (admitted : accepting.admits ctx s q a = true) : anySize.admits ctx s q a = true := by
  cases q with
  | sendto fd buf size addr len =>
    simp only [accepting] at admitted
    simp only [anySize,admitted,Bool.true_or]
  | _ => rfl

theorem anySize_answers (ctx : List Callback) (s : World) (q : Query) : ∃ a, anySize.admits ctx s q a = true := by
  obtain ⟨a,admitted⟩ := accepting_answers ctx s q
  exact ⟨a,accepting_fewer ctx s q a admitted⟩

/-- `sendto` may always fail. -/
theorem nonempty_answers (ctx : List Callback) (s : World) (q : Query) : ∃ a, nonempty.admits ctx s q a = true := by
  cases q with
  | sendto fd buf size addr len => exact ⟨⟨-1,0,[]⟩,by simp [nonempty,anySize]⟩
  | _ => exact ⟨⟨0,0,[]⟩,rfl⟩

/-- `sendto` does not return 0 for a datagram of this size. -/
def Moves (E : Environment World Query Result Callback Method) (size : Nat) : Prop :=
  ∀ ctx s fd buf addr len a, E.admits ctx s (.sendto fd buf size addr len) a = true → a.ret ≠ 0

theorem nonempty_moves (size : Nat) : Moves nonempty size := by
  intro ctx s fd buf addr len a admitted
  simp only [nonempty,Bool.and_eq_true,bne_iff_ne] at admitted
  exact admitted.2

theorem anySize_moves {size : Nat} (positive : size ≠ 0) : Moves anySize size := by
  intro ctx s fd buf addr len a admitted
  simp only [anySize,Bool.or_eq_true,beq_iff_eq] at admitted
  omega

theorem close_straight : (close host).Straight := by
  refine .bind (fun _ => trivial) fun this => ?_
  by_cases held : this.fd_ > 0
  · rw [if_pos held]
    exact fun _ _ => trivial
  · rw [if_neg held]
    trivial

theorem onClose_straight : (onClose host).Straight := by
  refine .bind (fun _ => trivial) fun this => ?_
  by_cases closed : this.closed_ = true
  · rw [if_pos closed]
    refine .bind (fun _ => trivial) fun _ => ?_
    by_cases set : this.close_cb_ = true
    · rw [if_pos set]
      exact .bind trivial fun _ => close_straight
    · rw [if_neg set]
      exact close_straight
  · rw [if_neg closed]
    trivial

theorem answered_socket (q : Query) (a : Result) : (answered q a s).socket = s.socket := by
  unfold answered
  split
  · split <;> rfl
  · rfl

theorem writeTurn_returns (below : ∀ after, Returns system E rest ⟨after,k⟩)
    (loop : s.socket.buffer_list_ ≠ [] → ∀ k, (∀ after, Returns system E rest ⟨after,k⟩) →
      Returns system E rest ⟨s,.code (writeLoop host) :: k⟩) :
    Returns system E rest ⟨s,.code (writeTurn host) :: k⟩ := by
  refine Returns.get ?_
  change Returns system E rest ⟨s,.code (if s.socket.buffer_list_ = [] then _ else _) :: k⟩
  by_cases empty : s.socket.buffer_list_ = []
  · rw [if_pos empty]
    split
    · exact .callback fun after => .done (below after)
    · exact .done (below s)
  · rw [if_neg empty]
    exact .call (loop empty _ fun after => .done (below after))

/-- The node is accepted and leaves the queue, or `sendto` fails. -/
theorem frontTurn_returns {node : UdpBufferNode} {queue : List UdpBufferNode}
    (pending : s.socket.buffer_list_ = node :: queue) (answers : ∀ ctx s q, ∃ a, E.admits ctx s q a = true)
    (moves : Moves E node.base.size) (below : ∀ after, Returns system E rest ⟨after,k⟩)
    (later : ∀ after, after.socket.buffer_list_ = queue →
      Returns system E rest ⟨after,.code (writeTurn host) :: k⟩) :
    Returns system E rest ⟨s,.code (writeLoop host) :: k⟩ := by
  refine Returns.get ?_
  dsimp only [pure,Prog.bind]
  rw [pending]
  refine Returns.ask (answers _ _ _) fun a admitted => ?_
  have nonzero := moves _ _ _ _ _ _ a admitted
  change Returns system E rest ⟨_,.code (if a.ret > 0 then _ else _) :: k⟩
  by_cases accepted : a.ret > 0
  · rw [if_pos accepted]
    refine Returns.get (Returns.set (later _ ?_))
    change (answered _ a s).socket.buffer_list_.tail = queue
    rw [answered_socket,pending,List.tail_cons]
  · rw [if_neg accepted,if_pos (by omega)]
    by_cases fails : fatal a.errno = true
    · rw [if_pos fails]
      exact .call (onClose_straight.goes_on answers (fun after => .done (below after)) _)
    · rw [if_neg fails]
      exact .done (below _)

/-- Where no `sendto` returns 0, the loop uses up the queue. -/
theorem writeLoop_returns (answers : ∀ ctx s q, ∃ a, E.admits ctx s q a = true)
    (goes : ∀ node ∈ s.socket.buffer_list_, Moves E node.base.size)
    (below : ∀ after, Returns system E rest ⟨after,k⟩) :
    Returns system E rest ⟨s,.code (writeLoop host) :: k⟩ := by
  induction queue : s.socket.buffer_list_ generalizing s k with
  | nil =>
    refine Returns.get ?_
    dsimp only [pure,Prog.bind]
    rw [queue]
    exact writeTurn_returns below fun some_ _ _ => absurd queue some_
  | cons node later ih =>
    rw [queue,List.forall_mem_cons] at goes
    refine frontTurn_returns queue answers goes.1 below fun after left => ?_
    refine writeTurn_returns below fun _ k below => ih ?_ below left
    rw [left]
    exact goes.2

theorem onWrite_returns (answers : ∀ ctx s q, ∃ a, E.admits ctx s q a = true)
    (goes : s.socket.closed_ = true ∨ ∀ node ∈ s.socket.buffer_list_, Moves E node.base.size)
    (below : ∀ after, Returns system E rest ⟨after,k⟩) :
    Returns system E rest ⟨s,.code (onWrite host) :: k⟩ := by
  refine Returns.get ?_
  change Returns system E rest ⟨s,.code (if s.socket.closed_ = true then _ else _) :: k⟩
  by_cases closed : s.socket.closed_ = true
  · rw [if_pos closed]
    exact .done (below s)
  · rw [if_neg closed]
    have loops : Returns system E rest ⟨s,.code host.writeLoop :: k⟩ :=
      .call (writeLoop_returns answers (goes.resolve_left closed) fun after => .done (below after))
    refine Returns.get (Returns.ask (answers _ _ _) fun found _ => ?_)
    change Returns system E rest ⟨s,.code ((if decide (found.ret ≠ 0) = true then _ else _ : Code Unit).bind _) :: k⟩
    by_cases holds : decide (found.ret ≠ 0) = true
    · rw [if_pos holds]
      exact .ask (answers _ _ _) fun _ _ => loops
    · rw [if_neg holds]
      exact loops

end Termination

section Endless

/-- An empty datagram waits; the kernel accepts it as often as it is offered. -/
def Stuck (s : World) : Prop := ∃ node ∈ s.socket.buffer_list_, node.base.size = 0

def stuckContract : Contract World Query Callback Method where
  inv := fun _ _ => True
  rely := fun _ _ _ => True
  pre := fun _ m s =>
    match m with
    | .writeLoop => Stuck s
    | _ => False
  post := fun _ _ _ _ => False
  asks := fun _ _ _ => True
  mayFault := True

variable (ctx : List Callback) (s : World)

theorem writeTurn_stuck (stuck : Stuck s) :
    wp system accepting stuckContract ctx (writeTurn host) (fun _ _ => False) s := by
  have waits : s.socket.buffer_list_ ≠ [] := by
    obtain ⟨node,among,_⟩ := stuck
    exact List.ne_nil_of_mem among
  simp only [writeTurn,host,wp_bind,wp_read,wp_pure,wp_ite]
  exact ⟨fun empty => absurd empty waits,fun _ => ⟨stuck,fun _ done => done⟩⟩

/-- A turn takes a datagram only from before it. -/
theorem writeLoop_stuck (stuck : Stuck s) :
    wp system accepting stuckContract ctx (writeLoop host) (fun _ _ => False) s := by
  obtain ⟨empty,among,size⟩ := stuck
  simp only [writeLoop,host,wp_bind,wp_read,wp_pure]
  cases queue : s.socket.buffer_list_ with
  | nil =>
    rw [queue] at among
    cases among
  | cons node later =>
    rw [wp_bind]
    refine ⟨trivial,fun a admitted => ?_⟩
    simp only [accepting,beq_iff_eq] at admitted
    change wp system accepting stuckContract ctx (if a.ret > 0 then _ else _) _ _
    by_cases accepted : a.ret > 0
    · rw [if_pos accepted,wp_bind,wp_modify]
      apply writeTurn_stuck
      refine ⟨empty,?_,size⟩
      change empty ∈ (answered _ a s).socket.buffer_list_.tail
      rw [answered_socket,queue,List.tail_cons]
      rw [queue] at among
      refine (List.mem_cons.mp among).resolve_left ?_
      rintro rfl
      omega
    · rw [if_neg accepted,if_neg (by omega)]
      apply writeTurn_stuck
      refine ⟨empty,?_,size⟩
      change empty ∈ (answered _ a s).socket.buffer_list_
      rw [answered_socket]
      exact among

theorem onWrite_stuck (opened : s.socket.closed_ = false) (stuck : Stuck s) :
    wp system accepting stuckContract ctx (onWrite host) (fun _ _ => False) s := by
  simp only [onWrite,entendLife,host,wp_bind,wp_read,wp_pure,wp_ite]
  refine ⟨fun closed => ?_,fun _ => ⟨trivial,fun found _ => ?_⟩⟩
  · rw [opened] at closed
    cases closed
  · have loops : wp system accepting stuckContract ctx (Prog.run .writeLoop) (fun _ _ => False) s :=
      ⟨stuck,fun _ done => done⟩
    change wp system accepting stuckContract ctx (if decide (found.ret ≠ 0) = true then _ else _) _ _
    rw [wp_ite]
    exact ⟨fun _ => ⟨trivial,fun _ _ => loops⟩,fun _ => loops⟩

theorem stuck_sound : stuckContract.Sound system accepting where
  rely_refl := fun _ _ => trivial
  rely_trans := fun _ _ _ _ _ _ => trivial
  body := by
    intro ctx m s pre
    cases m with
    | writeLoop => exact writeLoop_stuck ctx s pre
    | _ => exact pre.elim
  enter := fun _ _ _ _ allowed => by cases allowed
  leave := fun _ _ _ _ _ allowed => by cases allowed

theorem onWrite_stays (after : World) (opened : s.socket.closed_ = false) (stuck : Stuck s)
    (moves : List (Move World Query Result Callback Method)) :
    system.exec accepting moves ⟨s,[.code (onWrite host)]⟩ ≠ some ⟨after,[]⟩ :=
  fun ran => exec_returned stuck_sound (fun _ _ => rfl) (onWrite_stuck [] s opened stuck) ran

/-- With any sizes, `OnWrite` comes back whatever `sendto` does if and only if no empty datagram
waits. -/
theorem onWrite_back_iff : Returns system anySize [] ⟨s,[.code (onWrite host)]⟩ ↔
    s.socket.closed_ = true ∨ ∀ node ∈ s.socket.buffer_list_, node.base.size ≠ 0 := by
  constructor
  · intro returns
    by_contra endless
    obtain ⟨opened,waits⟩ := not_or.mp endless
    obtain ⟨moves,after,ran⟩ := returns.run accepting_fewer accepting_answers
    have stuck : Stuck s := by
      simp only [not_forall,not_not] at waits
      obtain ⟨node,among,size⟩ := waits
      exact ⟨node,among,size⟩
    exact onWrite_stays s after (Bool.eq_false_of_not_eq_true opened) stuck moves ran
  · intro goes
    refine onWrite_returns anySize_answers ?_ fun after => .back after
    exact goes.imp_right fun sizes node among => anySize_moves (sizes node among)

end Endless

structure Fresh (s : World) : Prop where
  queue : s.socket.buffer_list_ = []
  given : s.given = []
  accepted : s.accepted = []

theorem Fresh.waiting {s : World} (fresh : Fresh s) : Waiting s := by
  rw [Waiting,fresh.queue]
  constructor
  · exact List.nil_suffix
  · rw [fresh.accepted]
    exact .nil
  · simp [fresh.accepted]
  · simp [fresh.accepted]

def Settled (c : Config World Query Result Callback Method) : Prop :=
  c.controlled ∨ ∃ q next rest, c.stack = .code (.ask q next) :: rest

/-- At every point some last part of what was given is what waits. -/
theorem reachable_once {s : World} {c : Config World Query Result Callback Method} (fresh : Fresh s)
    (reached : system.Reachable nonempty s c) (settled : Settled c) : ∃ pending, Once pending c.state := by
  rcases settled with controlled | ⟨q,next,rest,top⟩
  · exact ⟨_,reachable_invariant once_sound s c fresh.waiting reached controlled⟩
  · exact reachable_asks once_sound s c fresh.waiting reached top

/-- In every run in which `sendto` never accepts an empty datagram, each that the kernel has accepted
is one that was given, as it was given, and none was accepted twice; and `OnWrite`, wherever it is
called, comes back after finitely many steps of its own. -/
theorem datagrams_once (s : World) (c : Config World Query Result Callback Method) (fresh : Fresh s)
    (reached : system.Reachable nonempty s c) (settled : Settled c) :
    (c.state.accepted.map Offer.serial).Nodup ∧ (∀ offer ∈ c.state.accepted, offer.Names c.state.given) ∧
    ∀ rest, Returns system nonempty rest ⟨c.state,.code (onWrite host) :: rest⟩ := by
  obtain ⟨pending,once⟩ := reachable_once fresh reached settled
  refine ⟨?_,once.named,fun rest => ?_⟩
  · exact List.pairwise_map.mpr (once.increasing.imp Nat.ne_of_lt)
  · refine onWrite_returns nonempty_answers (.inr fun node _ => ?_) fun after => .back after
    exact nonempty_moves node.base.size

def idle : World where
  socket := ⟨7,kEventRead,false,[],30,.initial message_buffer_size_,true,true,true⟩
  registered := true
  interest := kEventRead
  given := []
  accepted := []

theorem idle_fresh : Fresh idle := ⟨rfl,rfl,rfl⟩

/-- One datagram goes out at once, the next when the socket can take it, and a third waits. -/
theorem datagrams_once_waiting :
    ∃ c, Settled c ∧ c.state.accepted = [⟨0,2,10,2⟩,⟨1,1,12,2⟩] ∧ c.state.given.length = 3 ∧
      (c.state.accepted.map Offer.serial).Nodup ∧ (∀ offer ∈ c.state.accepted, offer.Names c.state.given) ∧
      ∀ rest, Returns system nonempty rest ⟨c.state,.code (onWrite host) :: rest⟩ := by
  have reached := system.play_reachable nonempty 40
    [.enter (.send 1 2 10 2),.answer ⟨2,0,[]⟩,.enter (.send 3 1 12 2),.answer ⟨-1,EAGAIN,[]⟩,
      .enter (.send 4 0 14 2),.enter .onWrite,.answer ⟨0,0,[]⟩,.answer ⟨1,0,[]⟩,.answer ⟨-1,EAGAIN,[]⟩] idle _ rfl
  refine ⟨_,?_,?_,?_,datagrams_once idle _ idle_fresh reached ?_⟩
  · exact Or.inl trivial
  · rfl
  · rfl
  · exact Or.inl trivial

/-- An empty datagram is accepted when it is sent, and again in the loop of `OnWrite`, which does not
come back while that goes on. -/
theorem empty_datagram_repeats :
    (∃ c, system.Reachable anySize idle c ∧ Settled c ∧ c.state.given = [⟨⟨1,0⟩,10,2⟩] ∧
      c.state.accepted = [⟨0,0,10,2⟩,⟨0,0,10,2⟩]) ∧
    ∃ c, system.Reachable anySize idle c ∧ c.stack = [] ∧
      ∀ moves after, system.exec accepting moves ⟨c.state,[.code (onWrite host)]⟩ ≠ some ⟨after,[]⟩ := by
  constructor
  · have reached := system.play_reachable anySize 40
      [.enter (.send 1 0 10 2),.answer ⟨0,0,[]⟩,.enter .onWrite,.answer ⟨0,0,[]⟩,.answer ⟨0,0,[]⟩] idle _ rfl
    exact ⟨_,reached,Or.inr ⟨_,_,_,rfl⟩,rfl,rfl⟩
  · have reached := system.play_reachable anySize 20 [.enter (.send 1 0 10 2),.answer ⟨0,0,[]⟩] idle _ rfl
    refine ⟨_,reached,rfl,fun moves after => onWrite_stays _ after rfl ?_ moves⟩
    exact ⟨⟨⟨1,0⟩,10,2⟩,List.mem_singleton_self _,rfl⟩

end Tmms.Network.UdpOnce
