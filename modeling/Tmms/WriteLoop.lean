import Mathlib.Algebra.Order.BigOperators.Group.List
import Mathlib.Algebra.Order.Group.Nat
import Tmms.ConnectionClose
import Tmms.ConnectionOutput

/-! The two loops of `OnWrite`: what each turn leaves of the queue, and whether there is a last
turn. Nodes may be of any size; a node of no size is dropped when the inner loop passes it, which
it does only on the way to a byte behind it. -/
namespace Tmms.Network.Connection

open Reentrant TcpConnection

/-- The queue and the count wherever the condition `ret > 0` of the inner loop holds. -/
def drains : List IoVec → Nat → List (List IoVec × Nat)
  | _,0 => []
  | [],ret + 1 => [([],ret + 1)]
  | vec :: queue,ret + 1 =>
    (vec :: queue,ret + 1) :: if vec.iov_len > ret + 1 then [] else drains queue (ret + 1 - vec.iov_len)

/-- There is a front, and `iov_len -= ret` or `ret -= iov_len`, whichever follows, is exact. -/
def Drainable (queue : List IoVec) (ret : Nat) : Prop :=
  ∃ front rest, queue = front :: rest ∧
    (front.iov_len < 2^64 → front.iov_len > ret → subSize front.iov_len ret + ret = front.iov_len) ∧
    (ret < 2^64 → ¬front.iov_len > ret → subSize ret front.iov_len + front.iov_len = ret)

section Inner

theorem subSize_exact {a b : Nat} (fits : a < 2^64) (bound : b ≤ a) : subSize a b + b = a := by
  simp only [subSize]
  omega

/-- `front()` of an empty vector is where `consume` fails. -/
theorem consume_none_iff (queue : List IoVec) (ret : Nat) :
    consume queue ret = none ↔ ∃ count, ([],count) ∈ drains queue ret := by
  induction queue generalizing ret with
  | nil =>
    cases ret with
    | zero => simp [consume,drains]
    | succ ret => simp [consume,drains]
  | cons vec queue ih =>
    cases ret with
    | zero => simp [consume,drains]
    | succ ret =>
      by_cases inside : vec.iov_len > ret + 1
      · simp [consume,drains,inside]
      · simp [consume,drains,inside,ih]

theorem drains_drainable (queue : List IoVec) (ret : Nat) (bound : ret ≤ total queue) :
    ∀ turn ∈ drains queue ret, Drainable turn.1 turn.2 := by
  induction queue generalizing ret with
  | nil =>
    have none : ret = 0 := Nat.le_zero.mp bound
    subst none
    exact fun _ among => absurd among List.not_mem_nil
  | cons vec queue ih =>
    cases ret with
    | zero => exact fun _ among => absurd among List.not_mem_nil
    | succ ret =>
      have rest : vec.iov_len ≤ ret + 1 → ret + 1 - vec.iov_len ≤ total queue := by
        simp only [total,List.map_cons,List.sum_cons] at bound ⊢
        omega
      intro turn among
      rw [drains,List.mem_cons] at among
      rcases among with rfl | later
      · refine ⟨vec,queue,rfl,fun fits inside => ?_,fun fits past => ?_⟩
        · exact subSize_exact fits (Nat.le_of_lt inside)
        · exact subSize_exact fits (Nat.not_lt.mp past)
      · split at later
        · exact absurd later List.not_mem_nil
        · next past => exact ih _ (rest (Nat.not_lt.mp past)) turn later

theorem total_eq_described (memory : Nat → UInt8) (queue : List IoVec) :
    total queue = (described memory queue).length := (described_length memory queue).symm

theorem consume_left {queue rest : List IoVec} {ret : Nat} (bound : ret ≤ total queue)
    (consumed : consume queue ret = some rest) : total rest = total queue - ret := by
  rw [total_eq_described fun _ => 0] at bound
  obtain ⟨other,same,left⟩ := consume_described (fun _ => 0) queue ret bound
  rw [consumed] at same
  cases same
  rw [total_eq_described (fun _ => 0),left,List.length_drop,← total_eq_described]

/-- The queue does not end with a node of no size. -/
def Ends (queue : List IoVec) : Prop := ∀ vec, queue.getLast? = some vec → 0 < vec.iov_len

theorem le_total {queue : List IoVec} {vec : IoVec} (among : vec ∈ queue) : vec.iov_len ≤ total queue :=
  List.single_le_sum (fun _ _ => Nat.zero_le _) _ (List.mem_map_of_mem among)

theorem Ends.total_pos {queue : List IoVec} (ends : Ends queue) (some_ : queue ≠ []) : 0 < total queue := by
  have last := List.getLast?_eq_some_getLast some_
  exact Nat.lt_of_lt_of_le (ends _ last) (le_total (List.getLast_mem some_))

theorem consume_ends (queue rest : List IoVec) (ret : Nat) (ends : Ends queue)
    (consumed : consume queue ret = some rest) : Ends rest := by
  induction queue generalizing ret with
  | nil =>
    cases ret with
    | zero =>
      cases consumed
      exact ends
    | succ ret => cases consumed
  | cons vec queue ih =>
    cases ret with
    | zero =>
      cases consumed
      exact ends
    | succ ret =>
      have behind : queue ≠ [] → Ends queue := by
        intro some_ last found
        apply ends last
        rw [List.getLast?_cons_of_ne_nil some_]
        exact found
      rw [consume] at consumed
      split at consumed
      · next inside =>
        cases consumed
        cases queue with
        | nil =>
          rintro last ⟨⟩
          exact Nat.sub_pos_of_lt inside
        | cons next queue =>
          intro last found
          apply behind (List.cons_ne_nil _ _) last
          rw [← List.getLast?_cons_of_ne_nil (List.cons_ne_nil _ _)]
          exact found
      · by_cases some_ : queue = []
        · subst some_
          cases rest with
          | nil => exact fun _ none => by cases none
          | cons first rest =>
            cases left : ret + 1 - vec.iov_len with
            | zero =>
              rw [left] at consumed
              cases consumed
            | succ n =>
              rw [left] at consumed
              cases consumed
        · exact ih _ (behind some_) consumed

/-- A node of no size at the end stays there. -/
theorem consume_empty_last (queue rest : List IoVec) (ret : Nat) (vec : IoVec) (last : queue.getLast? = some vec)
    (empty : vec.iov_len = 0) (bound : ret ≤ total queue) (consumed : consume queue ret = some rest) :
    rest.getLast? = some vec := by
  induction queue generalizing ret with
  | nil => cases last
  | cons first queue ih =>
    cases ret with
    | zero =>
      cases consumed
      exact last
    | succ ret =>
      have behind : queue ≠ [] := by
        rintro rfl
        have same : first = vec := Option.some.inj last
        simp only [total,same,empty,List.map_cons,List.map_nil,List.sum_cons,List.sum_nil] at bound
        omega
      rw [List.getLast?_cons_of_ne_nil behind] at last
      rw [consume] at consumed
      split at consumed
      · cases consumed
        rw [List.getLast?_cons_of_ne_nil behind]
        exact last
      · apply ih _ last _ consumed
        simp only [total,List.map_cons,List.sum_cons] at bound ⊢
        omega

end Inner

def outcome (size : Nat) (a : Result) : Bool := a.ret == -1 || decide (0 ≤ a.ret ∧ a.ret ≤ size)

def writing : Environment World Query Result Callback Method where
  admits := fun _ _ q a =>
    match q with
    | .write _ _ size => outcome size a
    | .writev _ vec => outcome (total vec) a
    | _ => true
  enters := fun ctx _ m =>
    !ctx.isEmpty && match m with
      | .readLoop | .writeLoop => false
      | _ => true

/-- Since `start` the socket has taken a part of the bytes that were queued, and the rest is queued. -/
def Accounted (memory : Nat → UInt8) (start s : World) : Prop :=
  ∃ taken, s.accepted = start.accepted ++ taken ∧
    taken ++ described memory s.connection.io_vec_li_ = described memory start.connection.io_vec_li_

section Accounting
variable (memory : Nat → UInt8) (start : World)

/-- The turns of the call itself, outside of its callbacks. -/
def accountContract : Contract World Query Callback Method where
  inv := fun _ _ => True
  rely := fun _ _ _ => True
  pre := fun ctx m s => ctx = [] →
    match m with
    | .writeLoop => Accounted memory start s
    | .onClose => True
    | _ => False
  post := fun _ _ _ _ => True
  asks := fun ctx q s => ctx = [] →
    match q with
    | .writev _ vec => vec = s.connection.io_vec_li_ ∧ Accounted memory start s
    | _ => True
  mayFault := False

variable {memory start} {s : World} (ctx : List Callback)

theorem outcome_le {size : Nat} {a : Result} (allowed : outcome size a = true) : a.ret ≤ size := by
  simp only [outcome,Bool.or_eq_true,beq_iff_eq,decide_eq_true_eq] at allowed
  omega

theorem true_modify (f : World → World) :
    Kept (system memory) writing (accountContract memory start) ctx (fun _ => True) (Prog.modify f) fun _ => True :=
  fun _ _ => ⟨trivial,trivial⟩

theorem true_invoke (c : Callback) :
    Kept (system memory) writing (accountContract memory start) ctx (fun _ => True) (Prog.invoke c) fun _ => True :=
  fun _ _ => ⟨trivial,fun _ _ _ => ⟨trivial,trivial⟩⟩

theorem true_run (m : Method) (inside : ctx ≠ []) :
    Kept (system memory) writing (accountContract memory start) ctx (fun _ => True) (Prog.run m) fun _ => True :=
  fun _ _ => ⟨fun outside => absurd outside inside,fun _ _ => ⟨trivial,trivial⟩⟩

/-- Inside callbacks nothing is asked for but that nothing faults. -/
theorem inside_keeps (inside : ctx ≠ []) :
    host.Keeps (system memory) writing (accountContract memory start) ctx (fun _ => True) fun _ => True where
  self := fun _ _ => ⟨trivial,trivial⟩
  update := fun _ _ => true_modify ctx _
  writeCompleteCallback := true_invoke ctx _
  write := fun _ _ _ _ _ => ⟨fun _ => trivial,fun _ _ => ⟨trivial,trivial⟩⟩
  enableWriting := fun _ => true_modify ctx _
  messageCallback := true_invoke ctx _
  writev := fun _ _ _ _ => ⟨fun outside => absurd outside inside,fun _ allowed =>
    ⟨⟨outcome_le allowed,fun _ => trivial⟩,trivial⟩⟩
  readFd := fun _ _ _ => ⟨fun _ => trivial,fun _ _ => ⟨fun _ => trivial,trivial⟩⟩
  onClose := fun _ _ => true_run ctx _ inside _ trivial
  readLoop := true_run ctx _ inside
  writeLoop := true_run ctx _ inside

theorem onClose_account :
    wp (system memory) writing (accountContract memory start) ctx (TcpConnection.onClose host)
      (fun _ _ => True) s := by
  have self : Kept (system memory) writing (accountContract memory start) ctx (fun _ => True) host.self
      fun _ => True := fun _ _ => ⟨trivial,trivial⟩
  have closing : ∀ fd, Kept (system memory) writing (accountContract memory start) ctx (fun _ => True)
      (host.closeFd fd) fun _ => True := fun _ _ _ => ⟨fun _ => trivial,fun _ _ => ⟨trivial,trivial⟩⟩
  have kept := TcpConnection.onClose_kept self (true_invoke ctx _) (true_modify ctx _)
    (TcpConnection.close_kept self closing (true_modify ctx _))
  exact kept.wp s trivial

theorem writeComplete_account :
    wp (system memory) writing (accountContract memory start) ctx (TcpConnection.writeComplete host)
      (fun _ _ => True) s :=
  wp_writeComplete.mpr ⟨fun _ => ⟨trivial,fun _ _ _ => trivial⟩,fun _ => trivial⟩

/-- What `writev` has taken and what the inner loop leaves make up what there was. -/
theorem Accounted.written {rest : List IoVec} {a : Result} (accounted : Accounted memory start s)
    (consumed : consume s.connection.io_vec_li_ a.ret.toNat = some rest)
    (bound : a.ret.toNat ≤ total s.connection.io_vec_li_) :
    Accounted memory start { answered memory (.writev s.connection.fd_ s.connection.io_vec_li_) a s with
      connection := { s.connection with io_vec_li_ := rest } } := by
  obtain ⟨taken,accepted,pending⟩ := accounted
  rw [total_eq_described memory] at bound
  obtain ⟨other,same,left⟩ := consume_described memory _ _ bound
  rw [consumed] at same
  cases same
  refine ⟨taken ++ (described memory s.connection.io_vec_li_).take a.ret.toNat,?_,?_⟩
  · change s.accepted ++ (described memory s.connection.io_vec_li_).take a.ret.toNat = _
    rw [accepted,List.append_assoc]
  · change _ ++ described memory rest = _
    rw [left,List.append_assoc,List.take_append_drop,pending]

theorem writeLoop_account (accounted : Accounted memory start s) :
    wp (system memory) writing (accountContract memory start) [] (TcpConnection.writeLoop host)
      (fun _ _ => True) s := by
  refine wp_writeLoop.mpr ⟨fun _ => ⟨rfl,accounted⟩,fun a allowed => ⟨fun written => ?_,fun _ => ?_⟩⟩
  · have bound := outcome_le allowed
    have fits : a.ret.toNat ≤ total s.connection.io_vec_li_ := by omega
    refine ⟨fun none => consume_ne_none fits none,fun rest consumed => ⟨fun _ => writeComplete_account [],?_⟩⟩
    exact fun _ => ⟨fun _ => accounted.written consumed fits,fun _ _ => trivial⟩
  · exact ⟨fun _ => ⟨fun _ => trivial,fun _ _ => trivial⟩,fun _ => trivial⟩

theorem onWrite_account :
    wp (system memory) writing (accountContract memory start) [] (TcpConnection.onWrite host) (fun _ _ => True)
      start := by
  have starts : Accounted memory start start := ⟨[],by rw [List.append_nil],rfl⟩
  refine wp_onWrite.mpr ⟨fun _ => trivial,fun _ => ⟨fun _ => ⟨fun _ => starts,fun _ _ => trivial⟩,fun _ => ?_⟩⟩
  exact writeComplete_account []

theorem account_sound : (accountContract memory start).Sound (system memory) writing where
  rely_refl := fun _ _ => trivial
  rely_trans := fun _ _ _ _ _ _ => trivial
  body := by
    intro ctx m s pre
    by_cases closing : m = .onClose
    · subst closing
      exact onClose_account ctx
    · by_cases inside : ctx = []
      · subst inside
        cases m with
        | writeLoop => exact writeLoop_account (pre rfl)
        | onClose => exact absurd rfl closing
        | _ => exact (pre rfl).elim
      · have keeps := @inside_keeps memory start ctx inside
        exact body_kept keeps m closing _ trivial fun _ => trivial
  enter := by
    intro ctx m s _ allowed outside
    subst outside
    cases allowed
  leave := fun _ _ _ _ _ _ _ => ⟨trivial,trivial⟩

end Accounting

/-- A call of `OnWrite` with any queue: at each of its turns, what the socket has taken and what is
queued make up what was queued when it began, and whatever `writev` then accepts, the inner loop
finds a front and subtracts exactly, and leaves a queue of which the same is true. -/
theorem onWrite_accounts (memory : Nat → UInt8) (s : World) (moves : List (Move World Query Result Callback Method))
    (c : Config World Query Result Callback Method)
    (ran : (system memory).exec writing moves ⟨s,[.code (TcpConnection.onWrite host)]⟩ = some c) :
    (∀ fd vec next rest, c.stack = .code (.ask (.writev fd vec) next) :: rest → active rest = [] →
      vec = c.state.connection.io_vec_li_ ∧ Accounted memory s c.state ∧
      ∀ a, writing.admits [] c.state (.writev fd vec) a = true →
        (∀ turn ∈ drains vec a.ret.toNat, Drainable turn.1 turn.2) ∧
        ∃ left, consume vec a.ret.toNat = some left ∧
          Accounted memory s { answered memory (.writev fd vec) a c.state with
            connection := { c.state.connection with io_vec_li_ := left } }) ∧
    ∀ rest, c.stack ≠ .code .fault :: rest := by
  have start : Holds (system memory) writing (accountContract memory s) [.code (TcpConnection.onWrite host)] s :=
    onWrite_account
  have holds := (system memory).exec_invariant writing
    (fun c => Holds (system memory) writing (accountContract memory s) c.stack c.state)
    (fun c move next => holds_step account_sound c next move) moves _ c start ran
  constructor
  · intro fd vec next rest top outside
    rw [top] at holds
    have asked := holds.1
    rw [outside] at asked
    obtain ⟨same,accounted⟩ := asked rfl
    refine ⟨same,accounted,fun a allowed => ?_⟩
    have bound := outcome_le allowed
    have fits : a.ret.toNat ≤ total vec := by omega
    obtain ⟨left,consumed⟩ := consume_total vec a.ret.toNat fits
    refine ⟨drains_drainable vec _ fits,left,consumed,?_⟩
    subst same
    exact accounted.written consumed fits
  · intro rest top
    rw [top] at holds
    exact holds

/-- Five bytes in three nodes, the second of which has none. -/
def queued : World := { idle with connection := { idle.connection with io_vec_li_ := [⟨0,2⟩,⟨2,0⟩,⟨2,3⟩] } }

/-- The socket takes three bytes of them first. -/
def threeTaken : List (Move World Query Result Callback Method) :=
  List.replicate 3 .advance ++ .answer ⟨3,0,[]⟩ :: List.replicate 4 .advance

theorem onWrite_accounts_three :
    ∃ c : Config World Query Result Callback Method, c.state.accepted = [97,98,99] ∧
      c.state.connection.io_vec_li_ = [⟨3,2⟩] ∧
      (∀ fd vec next rest, c.stack = .code (.ask (.writev fd vec) next) :: rest → active rest = [] →
        vec = c.state.connection.io_vec_li_ ∧ Accounted letters queued c.state ∧
        ∀ a, writing.admits [] c.state (.writev fd vec) a = true →
          (∀ turn ∈ drains vec a.ret.toNat, Drainable turn.1 turn.2) ∧
          ∃ left, consume vec a.ret.toNat = some left ∧
            Accounted letters queued { answered letters (.writev fd vec) a c.state with
              connection := { c.state.connection with io_vec_li_ := left } }) ∧
      ∀ rest, c.stack ≠ .code .fault :: rest := by
  refine ⟨_,?_,?_,onWrite_accounts letters queued threeTaken _ rfl⟩
  · decide
  · decide

/-- Each `writev` fails, or takes a byte where there is one. -/
def progressing : Environment World Query Result Callback Method where
  admits := fun _ _ q a =>
    match q with
    | .write _ _ size => outcome size a
    | .writev _ vec => outcome (total vec) a && (a.ret == -1 || total vec == 0 || decide (0 < a.ret))
    | _ => true
  enters := fun _ _ _ => false

/-- And none fails. -/
def unfailing : Environment World Query Result Callback Method where
  admits := fun ctx s q a =>
    progressing.admits ctx s q a &&
      match q with
      | .writev _ _ => decide (0 ≤ a.ret)
      | _ => true
  enters := fun _ _ _ => false

section Termination
variable (memory : Nat → UInt8)

theorem unfailing_answers (ctx : List Callback) (s : World) (q : Query) :
    ∃ a, unfailing.admits ctx s q a = true := by
  cases q with
  | writev fd vec =>
    refine ⟨⟨total vec,0,[]⟩,?_⟩
    simp [unfailing,progressing,outcome]
    omega
  | write fd buf size =>
    refine ⟨⟨0,0,[]⟩,?_⟩
    simp [unfailing,progressing,outcome]
  | _ => exact ⟨⟨0,0,[]⟩,rfl⟩

theorem unfailing_fewer (ctx : List Callback) (s : World) (q : Query) (a : Result)
    (admitted : unfailing.admits ctx s q a = true) : progressing.admits ctx s q a = true := by
  simp only [unfailing,Bool.and_eq_true] at admitted
  exact admitted.1

theorem progressing_answers (ctx : List Callback) (s : World) (q : Query) :
    ∃ a, progressing.admits ctx s q a = true := by
  obtain ⟨a,admitted⟩ := unfailing_answers ctx s q
  exact ⟨a,unfailing_fewer ctx s q a admitted⟩

theorem writeComplete_straight : (TcpConnection.writeComplete host).Straight := by
  refine .bind (fun _ => trivial) fun this => ?_
  by_cases set : this.write_complete_cb_ = true
  · rw [if_pos set]
    trivial
  · rw [if_neg set]
    trivial

theorem finish_straight : (do host.enableWriting false; TcpConnection.writeComplete host).Straight :=
  .bind (fun _ => trivial) fun _ => writeComplete_straight

/-- The loop uses up a queue that ends with a byte. -/
theorem writeLoop_returns (bound : Nat) (s : World) (some_ : s.connection.io_vec_li_ ≠ [])
    (ends : Ends s.connection.io_vec_li_) (small : total s.connection.io_vec_li_ < bound)
    {k : List (Frame World Query Result Callback Method)}
    (below : ∀ after, Returns (system memory) progressing [] ⟨after,k⟩) :
    Returns (system memory) progressing [] ⟨s,.code (TcpConnection.writeLoop host) :: k⟩ := by
  induction bound generalizing s k with
  | zero => omega
  | succ bound ih =>
    have pending := ends.total_pos some_
    refine Returns.get (Returns.ask (progressing_answers _ _ _) fun a admitted => ?_)
    have possible : (a.ret = -1 ∨ 0 ≤ a.ret ∧ a.ret ≤ total s.connection.io_vec_li_) ∧ (a.ret = -1 ∨ 0 < a.ret) := by
      simp only [progressing,outcome,Bool.and_eq_true,Bool.or_eq_true,beq_iff_eq,decide_eq_true_eq] at admitted
      refine ⟨admitted.1,?_⟩
      rcases admitted.2 with (failed | none) | taken
      · exact .inl failed
      · omega
      · exact .inr taken
    change Returns (system memory) progressing [] ⟨_,.code (if a.ret ≥ 0 then _ else _) :: k⟩
    by_cases written : a.ret ≥ 0
    · rw [if_pos written]
      have fits : a.ret.toNat ≤ total s.connection.io_vec_li_ := by omega
      obtain ⟨rest,consumed⟩ := consume_total s.connection.io_vec_li_ a.ret.toNat fits
      have left := consume_left fits consumed
      rw [consumed]
      refine Returns.get (Returns.set ?_)
      change Returns (system memory) progressing [] ⟨_,.code (if rest = [] then _ else _) :: k⟩
      by_cases drained : rest = []
      · rw [if_pos drained]
        exact finish_straight.goes_on progressing_answers below _
      · rw [if_neg drained]
        apply Returns.call
        apply ih _ drained (consume_ends _ _ _ ends consumed)
        · change total rest < bound
          omega
        · exact fun after => .done (below after)
    · rw [if_neg written]
      by_cases fails : fatal a.errno = true
      · rw [if_pos fails]
        exact .call (onClose_straight.goes_on progressing_answers (fun after => .done (below after)) _)
      · rw [if_neg fails]
        exact .done (below _)

theorem onWrite_returns (s : World) (drains : s.connection.closed_ = true ∨ Ends s.connection.io_vec_li_) :
    Returns (system memory) progressing [] ⟨s,[.code (TcpConnection.onWrite host)]⟩ := by
  refine Returns.get ?_
  change Returns (system memory) progressing [] ⟨s,[.code (if s.connection.closed_ = true then _ else _)]⟩
  by_cases closed : s.connection.closed_ = true
  · rw [if_pos closed]
    exact .done (.back s)
  · rw [if_neg closed]
    by_cases some_ : s.connection.io_vec_li_ ≠ []
    · rw [if_pos some_]
      have ends := drains.resolve_left closed
      exact .call (writeLoop_returns memory _ s some_ ends (Nat.lt_succ_self _) fun after => .done (.back after))
    · rw [if_neg some_]
      exact finish_straight.returns progressing_answers s

/-- The queue ends with a node of no size, which no call of `writev` can use up. -/
def Stuck (s : World) : Prop := ∃ vec, s.connection.io_vec_li_.getLast? = some vec ∧ vec.iov_len = 0

def stuckContract : Contract World Query Callback Method where
  inv := fun _ _ => True
  rely := fun _ _ _ => True
  pre := fun _ m s =>
    match m with
    | .writeLoop => Stuck s
    | _ => False
  post := fun _ _ _ _ => False
  asks := fun _ _ _ => True
  mayFault := True

/-- A turn leaves the node where it is. -/
theorem writeLoop_stuck (ctx : List Callback) (s : World) (stuck : Stuck s) :
    wp (system memory) unfailing stuckContract ctx (TcpConnection.writeLoop host) (fun _ _ => False) s := by
  obtain ⟨vec,last,empty⟩ := stuck
  refine wp_writeLoop.mpr ⟨trivial,fun a admitted => ?_⟩
  have bound : 0 ≤ a.ret ∧ a.ret.toNat ≤ total s.connection.io_vec_li_ := by
    simp only [unfailing,progressing,Bool.and_eq_true,decide_eq_true_eq] at admitted
    have := outcome_le admitted.1.1
    omega
  refine ⟨fun _ => ⟨fun _ => trivial,fun rest consumed => ?_⟩,fun failed => absurd bound.1 failed⟩
  have kept := consume_empty_last _ rest _ vec last empty bound.2 consumed
  refine ⟨fun none => ?_,fun _ => ⟨⟨vec,kept,empty⟩,fun _ done => done⟩⟩
  rw [none] at kept
  cases kept

theorem onWrite_stuck (s : World) (opened : s.connection.closed_ = false) (stuck : Stuck s) :
    wp (system memory) unfailing stuckContract [] (TcpConnection.onWrite host) (fun _ _ => False) s := by
  have some_ : s.connection.io_vec_li_ ≠ [] := by
    obtain ⟨vec,last,_⟩ := stuck
    intro none
    rw [none] at last
    cases last
  refine wp_onWrite.mpr ⟨fun closed => ?_,fun _ => ⟨fun _ => ⟨stuck,fun _ done => done⟩,?_⟩⟩
  · rw [opened] at closed
    cases closed
  · exact fun none => absurd some_ none

theorem stuck_sound : stuckContract.Sound (system memory) unfailing where
  rely_refl := fun _ _ => trivial
  rely_trans := fun _ _ _ _ _ _ => trivial
  body := by
    intro ctx m s pre
    cases m with
    | writeLoop => exact writeLoop_stuck memory ctx s pre
    | _ => exact pre.elim
  enter := fun _ _ _ _ allowed => by cases allowed
  leave := fun _ _ _ _ _ allowed => by cases allowed

theorem onWrite_stays (s after : World) (opened : s.connection.closed_ = false) (stuck : Stuck s)
    (moves : List (Move World Query Result Callback Method)) :
    (system memory).exec unfailing moves ⟨s,[.code (TcpConnection.onWrite host)]⟩ ≠ some ⟨after,[]⟩ :=
  fun ran => exec_returned (stuck_sound memory) (fun _ _ => rfl) (onWrite_stuck memory s opened stuck) ran

theorem not_ends_iff (s : World) : ¬Ends s.connection.io_vec_li_ ↔ Stuck s := by
  simp only [Ends,Stuck,not_forall,Nat.pos_iff_ne_zero,not_not,exists_prop]

end Termination

/-- Where each `writev` fails or takes a byte as long as there is one, `OnWrite` comes back, whatever
they come to, if and only if the connection is closed, or its queue is empty or ends with a node
that is not of size 0. Otherwise it comes back only where a call fails. -/
theorem onWrite_returns_iff (memory : Nat → UInt8) (s : World) :
    (Returns (system memory) progressing [] ⟨s,[.code (TcpConnection.onWrite host)]⟩ ↔
      s.connection.closed_ = true ∨ Ends s.connection.io_vec_li_) ∧
    (¬(s.connection.closed_ = true ∨ Ends s.connection.io_vec_li_) → ∀ moves after,
      (system memory).exec unfailing moves ⟨s,[.code (TcpConnection.onWrite host)]⟩ ≠ some ⟨after,[]⟩) := by
  have stays : ¬(s.connection.closed_ = true ∨ Ends s.connection.io_vec_li_) → ∀ moves after,
      (system memory).exec unfailing moves ⟨s,[.code (TcpConnection.onWrite host)]⟩ ≠ some ⟨after,[]⟩ := by
    intro endless moves after
    obtain ⟨opened,empty⟩ := not_or.mp endless
    exact onWrite_stays memory s after (Bool.eq_false_of_not_eq_true opened) ((not_ends_iff s).mp empty) moves
  refine ⟨⟨fun returns => ?_,onWrite_returns memory s⟩,stays⟩
  by_contra endless
  obtain ⟨moves,after,ran⟩ := returns.run unfailing_fewer unfailing_answers
  exact stays endless moves after ran

/-- A node of size 0, queued alone by `SendInLoop(list)`. -/
theorem empty_node_spins :
    ∃ c, (system letters).Reachable anyUse idle c ∧ c.stack = [] ∧ c.state.connection.io_vec_li_ = [⟨0,0⟩] ∧
      ∀ moves after, (system letters).exec unfailing moves ⟨c.state,[.code (TcpConnection.onWrite host)]⟩ ≠
        some ⟨after,[]⟩ := by
  have reached := (system letters).play_reachable anyUse 20 [.enter (.sendList [⟨0,0⟩])] idle _ rfl
  refine ⟨_,reached,rfl,rfl,fun moves after => ?_⟩
  exact onWrite_stays letters _ after rfl ⟨⟨0,0⟩,rfl,rfl⟩ moves

end Tmms.Network.Connection
