import Tmms.TestContext

/-! When the loop of `ParseMessage` ends, and what it leaves undone. A body of which a part is
there neither consumes a byte nor leaves the loop; and a body without bytes is only looked at
where there are bytes behind it. -/
namespace Tmms.Network.TestContext

/-- What a buffer, however it has been used, and a 32-bit length satisfy. -/
structure Proper (this : TestContext) (buf : MsgBuffer) : Prop where
  ordered : buf.Ordered
  size : buf.buffer_.length ≤ kMaxSize
  length : -2^31 ≤ this.message_length_ ∧ this.message_length_ < 2^31

/-- All that one turn of the loop can do. -/
inductive Turns (this : TestContext) (buf : MsgBuffer) : Turn → Prop where
  | drained (none : buf.readable = []) : Turns this buf (.returned 0)
  | short (state : this.state_ = .kTestContextHeader) (part : buf.readable.length < 4) :
    Turns this buf (.returned 1)
  | header (state : this.state_ = .kTestContextHeader) (after : MsgBuffer) (whole : 4 ≤ buf.readable.length)
    (ordered : after.Ordered) (same : after.buffer_ = buf.buffer_) (rest : after.readable = buf.readable.drop 4) :
    Turns this buf (.again
      { this with message_length_ := MsgBuffer.signed (buf.readable.take 4), state_ := .kTestContextBody } after [])
  | body (state : this.state_ = .kTestContextBody) (context : TestContext) (after : MsgBuffer)
    (handed : List (List UInt8)) (filled : buf.readable ≠ []) (nonneg : 0 ≤ this.message_length_)
    (whole : this.message_length_.toNat ≤ buf.readable.length) (ordered : after.Ordered)
    (same : after.buffer_ = buf.buffer_) (rest : after.readable = buf.readable.drop this.message_length_.toNat)
    (next : context.state_ = .kTestContextHeader) (length : context.message_length_ = 0)
    (delivers : this.cb_ = true → this.message_body_ = [] → context.cb_ = true ∧ context.message_body_ = [] ∧
      handed = [buf.readable.take this.message_length_.toNat]) :
    Turns this buf (.again context after handed)
  | spins (state : this.state_ = .kTestContextBody) (filled : buf.readable ≠ [])
    (part : this.message_length_ < 0 ∨ buf.readable.length < this.message_length_.toNat) :
    Turns this buf (.again this buf [])

def goneOn (s : World) (context : TestContext) (buf : MsgBuffer) (handed : List (List UInt8)) : World :=
  { s with context := context, buf := buf, delivered := s.delivered ++ handed }

/-- The comparison with a negative length fails, as with one that is too long. -/
theorem body_whole_iff {this : TestContext} {buf : MsgBuffer} (proper : Proper this buf) :
    toSize this.message_length_ ≤ buf.readableBytes ↔
      0 ≤ this.message_length_ ∧ this.message_length_.toNat ≤ buf.readable.length := by
  have length := proper.ordered.readable_length
  have writer := proper.ordered.writer
  have size := proper.size
  by_cases negative : this.message_length_ < 0
  · have huge := toSize_negative proper.length.1 negative
    simp only [MsgBuffer.readableBytes] at length ⊢
    omega
  · have nonneg : 0 ≤ this.message_length_ := Int.not_lt.mp negative
    rw [toSize_nonneg nonneg proper.length.2,length]
    simp only [nonneg,true_and]

theorem turn_spec {this : TestContext} {buf : MsgBuffer} (proper : Proper this buf) : Turns this buf (turn this buf) := by
  have length := proper.ordered.readable_length
  unfold turn
  by_cases filled : buf.readableBytes > 0
  · rw [if_pos filled]
    have some_ : buf.readable ≠ [] := by
      rintro none
      rw [none] at length
      exact absurd length.symm (Nat.pos_iff_ne_zero.mp filled)
    cases state : this.state_ with
    | kTestContextHeader =>
      by_cases whole : buf.readableBytes ≥ 4
      · obtain ⟨after,read,ordered,rest,same⟩ := proper.ordered.readInt 4 whole
        have read : buf.readInt32 = some (MsgBuffer.signed (buf.readable.take 4),after) := read
        simp only [if_pos whole,read]
        exact .header state after (by omega) ordered same rest
      · simp only [if_neg whole]
        exact .short state (by omega)
    | kTestContextBody =>
      by_cases whole : buf.readableBytes ≥ toSize this.message_length_
      · obtain ⟨nonneg,fits⟩ := (body_whole_iff proper).mp whole
        obtain ⟨after,taken,ordered,rest⟩ := proper.ordered.retrieve _ whole
        have same := MsgBuffer.retrieve_buffer taken
        rw [toSize_nonneg nonneg proper.length.2] at whole taken rest ⊢
        simp only [if_pos whole,taken]
        by_cases set : this.cb_ = true
        · simp only [if_pos set]
          refine .body state _ after _ some_ nonneg fits ordered same rest rfl rfl fun _ none => ⟨set,rfl,?_⟩
          rw [none,List.nil_append]
        · simp only [if_neg set]
          exact .body state _ after _ some_ nonneg fits ordered same rest rfl rfl fun set' => absurd set' set
      · simp only [if_neg whole]
        refine .spins state some_ ?_
        rw [ge_iff_le,body_whole_iff proper] at whole
        omega
  · rw [if_neg filled]
    refine .drained (List.eq_nil_of_length_eq_zero ?_)
    omega

theorem frames_size {bytes : List UInt8} {n : Nat} :
    frames.size bytes = some n ↔ 0 ≤ MsgBuffer.signed bytes ∧ (MsgBuffer.signed bytes).toNat = n := by
  change (if MsgBuffer.signed bytes < 0 then none else some (MsgBuffer.signed bytes).toNat) = some n ↔ _
  split
  · simp only [reduceCtorEq,false_iff]
    omega
  · simp only [Option.some.injEq]
    omega

/-- Whole frames, and at most a header behind them. -/
def Whole (bytes : List UInt8) : Prop :=
  ∃ bodies front tail, bytes = front ++ tail ∧ frames.Framed bodies front ∧ tail.length ≤ 4

/-- No part of a body is there without the rest of it. -/
def Settles (this : TestContext) (bytes : List UInt8) : Prop :=
  match this.state_ with
  | .kTestContextHeader => Whole bytes
  | .kTestContextBody => bytes = [] ∨
      ∃ body rest, bytes = body ++ rest ∧ (body.length : Int) = this.message_length_ ∧ Whole rest

def Returns (s : World) : Prop :=
  ∃ n final, exec (List.replicate n .turn) s = some final ∧ final.running = false

section Termination
variable {s : World}

theorem settles_header (state : s.context.state_ = .kTestContextHeader) {bytes : List UInt8} :
    Settles s.context bytes ↔ Whole bytes := by
  rw [Settles,state]

theorem settles_body (state : s.context.state_ = .kTestContextBody) {bytes : List UInt8} :
    Settles s.context bytes ↔ bytes = [] ∨
      ∃ body rest, bytes = body ++ rest ∧ (body.length : Int) = s.context.message_length_ ∧ Whole rest := by
  rw [Settles,state]

theorem whole_short {bytes : List UInt8} (short : bytes.length ≤ 4) : Whole bytes :=
  ⟨[],[],bytes,rfl,.nil,short⟩

/-- A header and what settles behind it. -/
theorem whole_header {bytes : List UInt8} (long : 4 ≤ bytes.length) : Whole bytes ↔
    bytes.drop 4 = [] ∨ ∃ body rest, bytes.drop 4 = body ++ rest ∧
      (body.length : Int) = MsgBuffer.signed (bytes.take 4) ∧ Whole rest := by
  constructor
  · rintro ⟨bodies,front,tail,rfl,framed,short⟩
    cases framed with
    | nil =>
      left
      rw [List.nil_append]
      exact List.drop_eq_nil_of_le short
    | @cons head body more bodies length size framed =>
      have four : head.length = 4 := length
      obtain ⟨nonneg,exact_⟩ := frames_size.mp size
      right
      rw [List.append_assoc,List.append_assoc,List.drop_left' four,List.take_left' four]
      exact ⟨body,more ++ tail,rfl,by omega,bodies,more,tail,rfl,framed,short⟩
  · rintro (none | ⟨body,rest,split,length,bodies,front,tail,rfl,framed,short⟩)
    · exact whole_short (List.drop_eq_nil_iff.mp none)
    · refine ⟨body :: bodies,bytes.take 4 ++ (body ++ front),tail,?_,.cons ?_ ?_ framed,short⟩
      · rw [List.append_assoc,List.append_assoc,← split,List.take_append_drop]
      · exact List.length_take_of_le long
      · exact frames_size.mpr ⟨by omega,by omega⟩

/-- A turn that goes on keeps what decides whether the call comes back. -/
theorem settles_again {this context : TestContext} {buf after : MsgBuffer} {handed : List (List UInt8)}
    (turned : Turns this buf (.again context after handed)) :
    Settles this buf.readable ↔ Settles context after.readable := by
  cases turned with
  | header state _ whole _ _ rest =>
    rw [Settles,state,whole_header whole,← rest]
    rfl
  | body state _ _ _ filled nonneg whole _ _ rest next =>
    rw [Settles,state,Settles,next,rest]
    have cut := List.take_append_drop this.message_length_.toNat buf.readable
    have exact_ : (buf.readable.take this.message_length_.toNat).length = this.message_length_.toNat :=
      List.length_take_of_le whole
    constructor
    · rintro (none | ⟨body,tail,split,length,settled⟩)
      · exact absurd none filled
      · have same : this.message_length_.toNat = body.length := by omega
        rw [split,same,List.drop_left]
        exact settled
    · intro settled
      exact .inr ⟨_,_,cut.symm,by omega,settled⟩
  | spins => exact Iff.rfl

theorem Turns.proper {this context : TestContext} {buf after : MsgBuffer} {handed : List (List UInt8)}
    (proper : Proper this buf) (turned : Turns this buf (.again context after handed)) : Proper context after := by
  cases turned with
  | header _ _ whole ordered same _ =>
    refine ⟨ordered,by rw [same]; exact proper.size,MsgBuffer.signed_range _ ?_⟩
    exact List.length_take_of_le whole
  | body _ _ _ _ _ _ _ ordered same _ _ length =>
    exact ⟨ordered,by rw [same]; exact proper.size,by rw [length]; decide⟩
  | spins => exact proper

theorem turn_step (proper : Proper s.context s.buf) (running : s.running = true) :
    (∃ value, Turns s.context s.buf (.returned value) ∧ step s .turn = some { s with running := false }) ∨
      ∃ context buf handed, Turns s.context s.buf (.again context buf handed) ∧ Proper context buf ∧
        step s .turn = some (goneOn s context buf handed) := by
  have turned := turn_spec proper
  rw [step,if_pos running]
  cases came : turn s.context s.buf with
  | returned value => exact .inl ⟨value,came ▸ turned,rfl⟩
  | again context buf handed =>
    rw [came] at turned
    exact .inr ⟨context,buf,handed,turned,turned.proper proper,rfl⟩
  | failed =>
    rw [came] at turned
    cases turned

theorem settles_returned {value : Int} (turned : Turns s.context s.buf (.returned value)) :
    Settles s.context s.buf.readable := by
  cases turned with
  | drained none =>
    rw [none]
    cases state : s.context.state_ with
    | kTestContextHeader => exact (settles_header state).mpr (whole_short (Nat.zero_le _))
    | kTestContextBody => exact (settles_body state).mpr (.inl rfl)
  | short state part => exact (settles_header state).mpr (whole_short (Nat.le_of_lt part))

theorem settles_of_returns (n : Nat) (s final : World) (proper : Proper s.context s.buf) (running : s.running = true)
    (ran : exec (List.replicate n .turn) s = some final) (stopped : final.running = false) :
    Settles s.context s.buf.readable := by
  induction n generalizing s with
  | zero =>
    cases ran
    rw [running] at stopped
    cases stopped
  | succ n ih =>
    obtain ⟨next,stepped,rest⟩ := Option.bind_eq_some_iff.mp ran
    rcases turn_step proper running with ⟨value,turned,took⟩ | ⟨context,buf,handed,turned,kept,took⟩
    · exact settles_returned turned
    · rw [took] at stepped
      cases stepped
      exact (settles_again turned).mpr (ih (goneOn s context buf handed) kept running rest)

theorem Returns.step {next : World} (stepped : step s .turn = some next) (returns : Returns next) : Returns s := by
  obtain ⟨n,final,ran,stopped⟩ := returns
  refine ⟨n + 1,final,?_,stopped⟩
  rw [List.replicate_succ,exec,stepped]
  exact ran

def work (s : World) : Nat :=
  2 * s.buf.readable.length + if s.context.state_ = .kTestContextBody then 1 else 0

/-- A turn that goes on uses up a header or a body, unless it waits for the rest of one. -/
theorem work_decreases {context : TestContext} {buf : MsgBuffer} {handed : List (List UInt8)}
    (turned : Turns s.context s.buf (.again context buf handed)) (settles : Settles s.context s.buf.readable) :
    2 * buf.readable.length + (if context.state_ = .kTestContextBody then 1 else 0) < work s := by
  rw [work]
  cases turned with
  | header state _ whole _ _ rest =>
    simp only [state,rest,List.length_drop,if_true,reduceCtorEq,if_false]
    omega
  | body state _ _ _ filled nonneg whole _ _ rest next =>
    simp only [state,next,rest,List.length_drop,if_true,reduceCtorEq,if_false]
    omega
  | spins state filled part =>
    exfalso
    rcases (settles_body state).mp settles with none | ⟨body,rest,split,length,_⟩
    · exact filled none
    · rw [split,List.length_append] at part
      omega

theorem returns_of_settles (bound : Nat) (s : World) (proper : Proper s.context s.buf) (running : s.running = true)
    (settles : Settles s.context s.buf.readable) (small : work s < bound) : Returns s := by
  induction bound generalizing s with
  | zero => omega
  | succ bound ih =>
    rcases turn_step proper running with ⟨value,turned,took⟩ | ⟨context,buf,handed,turned,kept,took⟩
    · exact .step took ⟨0,_,rfl,rfl⟩
    · have less := work_decreases turned settles
      apply Returns.step took
      apply ih (goneOn s context buf handed) kept running ((settles_again turned).mp settles)
      exact Nat.lt_of_lt_of_le less (Nat.le_of_lt_succ small)

end Termination

/-- A call comes back if and only if the bytes it finds, from the parser's state on, are whole
frames with at most a header behind them: no body is there in part, and none has a negative length
but one of which nothing is there. -/
theorem parse_returns_iff (s : World) (running : s.running = true) (ordered : s.buf.Ordered)
    (size : s.buf.buffer_.length ≤ kMaxSize)
    (length : -2^31 ≤ s.context.message_length_ ∧ s.context.message_length_ < 2^31) :
    Returns s ↔ Settles s.context s.buf.readable := by
  have proper : Proper s.context s.buf := ⟨ordered,size,length⟩
  constructor
  · rintro ⟨n,final,ran,stopped⟩
    exact settles_of_returns n s final proper running ran stopped
  · exact fun settles => returns_of_settles (work s + 1) s proper running settles (Nat.lt_succ_self _)

def called (bytes : List UInt8) : World :=
  ⟨initial true,((MsgBuffer.initial 8).append bytes).getD (MsgBuffer.initial 8),true,bytes,[]⟩

/-- A frame and half a header. -/
theorem parse_returns_iff_frame : (called [0,0,0,1,65,0,0]).buf.readable = [0,0,0,1,65,0,0] ∧
    Returns (called [0,0,0,1,65,0,0]) := by
  refine ⟨rfl,(parse_returns_iff _ rfl ⟨?_,?_,?_⟩ ?_ zero_range).mpr ?_⟩
  · decide
  · decide
  · decide
  · exact (by decide : 16 ≤ kMaxSize)
  · have framed : frames.Framed [[65]] ([0,0,0,1] ++ ([65] ++ [])) :=
      .cons rfl (frames_size.mpr (by decide)) .nil
    exact ⟨[[65]],_,[0,0],rfl,framed,by decide⟩

/-- One of two bytes of a body is there: the call does not come back. -/
theorem parse_spins : (called [0,0,0,2,65]).buf.readable = [0,0,0,2,65] ∧ ¬Returns (called [0,0,0,2,65]) := by
  refine ⟨rfl,?_⟩
  rintro ⟨n,final,ran,stopped⟩
  have proper : Proper (called [0,0,0,2,65]).context (called [0,0,0,2,65]).buf :=
    ⟨⟨by decide,by decide,by decide⟩,(by decide : 16 ≤ kMaxSize),zero_range⟩
  have whole : Whole [0,0,0,2,65] := settles_of_returns n _ final proper rfl ran stopped
  rcases (whole_header (by decide)).mp whole with none | ⟨body,rest,split,length,_⟩
  · cases none
  · have two : MsgBuffer.signed (List.take 4 [0,0,0,2,65]) = 2 := by decide
    rw [two] at length
    have one := congrArg List.length split
    rw [List.length_append] at one
    simp at one
    omega

/-- What has been appended is what the callback was given in its frames, the header that has been
read of the next one, and what the buffer holds. -/
structure Received (s : World) (front held : List UInt8) : Prop where
  stream : s.stream = front ++ (held ++ s.buf.readable)
  framed : frames.Framed s.delivered front
  header : s.context.state_ = .kTestContextHeader → held = []
  body : s.context.state_ = .kTestContextBody → held.length = 4 ∧ MsgBuffer.signed held = s.context.message_length_

/-- A parser with a callback, in any run from an empty buffer. -/
structure Parses (s : World) : Prop where
  proper : Proper s.context s.buf
  cb_ : s.context.cb_ = true
  message_body_ : s.context.message_body_ = []
  received : ∃ front held, Received s front held
  -- an empty body is given only where there are bytes behind it
  behind : s.context.state_ = .kTestContextHeader → s.delivered.getLast? = some [] → s.buf.readable ≠ []
  returned : s.running = false →
    s.buf.readable = [] ∨ s.context.state_ = .kTestContextHeader ∧ s.buf.readable.length < 4

section Completeness
variable {s next : World}

theorem parses_start (size : Nat) (fits : kCheapPrepend + size ≤ kMaxSize) : Parses (start size) := by
  have sound := start_sound size fits
  refine ⟨⟨sound.ordered,sound.size,sound.length⟩,rfl,rfl,⟨[],[],?_,.nil,fun _ => rfl,?_⟩,?_,?_⟩
  · simp [start]
  · exact fun state => by cases state
  · exact fun _ none => by cases none
  · exact fun _ => .inl (MsgBuffer.initial_readable size)

theorem parses_chunk (data : List UInt8) (parses : Parses s) (stepped : step s (.chunk data) = some next) :
    Parses next := by
  obtain ⟨front,held,received⟩ := parses.received
  rw [step] at stepped
  split at stepped
  · cases stepped
  split at stepped
  · cases stepped
  · next after appended =>
    obtain ⟨fits,stepped⟩ := Option.ite_none_right_eq_some.mp stepped
    cases stepped
    obtain ⟨ordered,readable⟩ := parses.proper.ordered.append appended
    refine ⟨⟨ordered,fits,parses.proper.length⟩,parses.cb_,parses.message_body_,⟨front,held,?_,received.framed,
      received.header,received.body⟩,?_,fun stopped => by cases stopped⟩
    · rw [received.stream,readable]
      simp only [List.append_assoc]
    · intro state last
      rw [readable]
      exact List.append_ne_nil_of_left_ne_nil (parses.behind state last) _

theorem parses_again {context : TestContext} {buf : MsgBuffer} {handed : List (List UInt8)} (parses : Parses s)
    (running : s.running = true) (kept : Proper context buf)
    (turned : Turns s.context s.buf (.again context buf handed)) : Parses (goneOn s context buf handed) := by
  obtain ⟨front,held,received⟩ := parses.received
  have goes : ∀ {goal : Prop}, s.running = false → goal := fun stopped => by
    rw [running] at stopped
    cases stopped
  cases turned with
  | header state _ whole _ _ rest =>
    refine ⟨kept,parses.cb_,parses.message_body_,⟨front,s.buf.readable.take 4,?_,?_,?_,?_⟩,?_,goes⟩
    · change s.stream = front ++ (s.buf.readable.take 4 ++ buf.readable)
      rw [received.stream,received.header state,rest,List.take_append_drop,List.nil_append]
    · change frames.Framed (s.delivered ++ []) front
      rw [List.append_nil]
      exact received.framed
    · exact fun state => by cases state
    · exact fun _ => ⟨List.length_take_of_le whole,rfl⟩
    · exact fun state => by cases state
  | body state _ _ _ filled nonneg whole _ _ rest header length delivers =>
    obtain ⟨set,none,given⟩ := delivers parses.cb_ parses.message_body_
    obtain ⟨four,value⟩ := received.body state
    subst given
    have exact_ : (s.buf.readable.take s.context.message_length_.toNat).length = s.context.message_length_.toNat :=
      List.length_take_of_le whole
    refine ⟨kept,set,none,
      ⟨front ++ (held ++ (s.buf.readable.take s.context.message_length_.toNat ++ [])),[],?_,?_,fun _ => rfl,?_⟩,?_,goes⟩
    · change s.stream = _ ++ ([] ++ buf.readable)
      rw [received.stream,rest]
      simp only [List.append_nil,List.nil_append,List.append_assoc,List.take_append_drop]
    · refine received.framed.append (.cons four (frames_size.mpr ?_) .nil)
      rw [value,exact_]
      exact ⟨nonneg,rfl⟩
    · intro state
      rw [show (goneOn s context buf _).context.state_ = context.state_ from rfl,header] at state
      cases state
    · intro _ last
      change buf.readable ≠ []
      have last : (s.delivered ++ [s.buf.readable.take s.context.message_length_.toNat]).getLast? = some [] := last
      rw [List.getLast?_append_of_ne_nil _ (List.cons_ne_nil _ _)] at last
      have empty : s.buf.readable.take s.context.message_length_.toNat = [] := Option.some.inj last
      rw [empty] at exact_
      rw [rest,← exact_]
      exact filled
  | spins state filled _ =>
    have same : goneOn s s.context s.buf [] = s := by
      rw [goneOn,List.append_nil]
    rw [same]
    exact parses

theorem parses_turn (parses : Parses s) (stepped : step s .turn = some next) : Parses next := by
  by_cases running : s.running = true
  · rcases turn_step parses.proper running with ⟨value,turned,took⟩ | ⟨context,buf,handed,turned,kept,took⟩
    · rw [took] at stepped
      cases stepped
      obtain ⟨front,held,received⟩ := parses.received
      refine ⟨parses.proper,parses.cb_,parses.message_body_,
        ⟨front,held,received.stream,received.framed,received.header,received.body⟩,parses.behind,fun _ => ?_⟩
      cases turned with
      | drained none => exact .inl none
      | short state part => exact .inr ⟨state,part⟩
    · rw [took] at stepped
      cases stepped
      exact parses_again parses running kept turned
  · rw [step,if_neg running] at stepped
    cases stepped

theorem exec_parses (moves : List Move) (s final : World) (parses : Parses s) (ran : exec moves s = some final) :
    Parses final := by
  induction moves generalizing s with
  | nil =>
    cases ran
    exact parses
  | cons move moves ih =>
    obtain ⟨next,stepped,rest⟩ := Option.bind_eq_some_iff.mp ran
    apply ih next _ rest
    cases move with
    | chunk data => exact parses_chunk data parses stepped
    | turn => exact parses_turn parses stepped

/-- Every frame whose last byte has been appended has been given to the callback, and nothing of
it is left in the buffer. -/
def Complete (s : World) : Prop :=
  s.delivered = frames.decode s.stream ∧ ∃ front tail, s.stream = front ++ tail ∧
    frames.Framed (frames.decode s.stream) front ∧ s.buf.readable <:+ tail

/-- What has been appended so far ends with the header of an empty frame. -/
def EndsEmpty (stream : List UInt8) : Prop := ∃ before, frames.Framed (before ++ [[]]) stream

/-- Where nothing more is decoded, nothing is missing. -/
theorem complete_of_decode {front held : List UInt8} (received : Received s front held)
    (nothing : frames.decode (held ++ s.buf.readable) = []) : Complete s := by
  have decoded := received.framed.decode (held ++ s.buf.readable)
  rw [nothing,List.append_nil,← received.stream] at decoded
  refine ⟨decoded.symm,front,held ++ s.buf.readable,received.stream,?_,List.suffix_append _ _⟩
  rw [decoded]
  exact received.framed

/-- A stream that ends with an empty frame, all frames of which have been given, is used up. -/
theorem used_up {front held : List UInt8} (received : Received s front held) (complete : Complete s)
    (ends : EndsEmpty s.stream) : held ++ s.buf.readable = [] ∧ s.delivered.getLast? = some [] := by
  obtain ⟨before,framed⟩ := ends
  have delivered : s.delivered = before ++ [[]] := complete.1.trans framed.decode_all
  constructor
  · have whole := framed.length
    have given := received.framed.length
    rw [delivered,← whole,received.stream,List.length_append] at given
    exact List.eq_nil_of_length_eq_zero (by omega)
  · rw [delivered,List.getLast?_append_of_ne_nil _ (List.cons_ne_nil _ _)]
    rfl

theorem header_complete (parses : Parses s) (state : s.context.state_ = .kTestContextHeader)
    (short : s.buf.readable.length < 4) : Complete s ∧ ¬EndsEmpty s.stream := by
  obtain ⟨front,held,received⟩ := parses.received
  have complete : Complete s := by
    apply complete_of_decode received
    rw [received.header state,List.nil_append]
    exact frames.decode_short _ short
  refine ⟨complete,fun ends => ?_⟩
  obtain ⟨none,last⟩ := used_up received complete ends
  exact parses.behind state last (List.append_eq_nil_iff.mp none).2

theorem body_complete_iff (parses : Parses s) (state : s.context.state_ = .kTestContextBody)
    (drained : s.buf.readable = []) : Complete s ↔ ¬EndsEmpty s.stream := by
  obtain ⟨front,held,received⟩ := parses.received
  obtain ⟨four,value⟩ := received.body state
  by_cases empty : s.context.message_length_ = 0
  · -- the empty body has not been looked at
    rw [empty] at value
    have frame : frames.Framed (s.delivered ++ [[]]) s.stream := by
      rw [received.stream,drained]
      refine received.framed.append (.cons four (frames_size.mpr ?_) .nil)
      rw [value]
      decide
    refine ⟨fun complete => ?_,fun proper => absurd ⟨_,frame⟩ proper⟩
    have same := complete.1.trans frame.decode_all
    exact absurd (congrArg List.length same) (by simp)
  · have whole : held.length = frames.header := four
    have complete : Complete s := by
      apply complete_of_decode received
      rw [frames.decode_header held _ (Nat.le_of_eq whole.symm),List.take_of_length_le (Nat.le_of_eq whole),
        List.drop_eq_nil_of_le (Nat.le_of_eq whole),drained]
      cases size : frames.size held with
      | none => rfl
      | some n =>
        obtain ⟨nonneg,exact_⟩ := frames_size.mp size
        have some_ : 0 < n := by omega
        change frames.decodeBody n [] = []
        rw [Framing.Format.decodeBody]
        exact if_pos some_
    refine ⟨fun _ ends => ?_,fun _ => complete⟩
    have none := (used_up received complete ends).1
    rw [(List.append_eq_nil_iff.mp none).1] at four
    cases four

end Completeness

/-- Whenever a call has come back, every complete frame has been given to the callback and taken
from the buffer, if and only if what has been appended does not end with an empty frame. -/
theorem parse_complete_iff (size : Nat) (fits : kCheapPrepend + size ≤ kMaxSize) (moves : List Move) (s : World)
    (ran : exec moves (start size) = some s) (returned : s.running = false) :
    Complete s ↔ ¬EndsEmpty s.stream := by
  have parses := exec_parses moves (start size) s (parses_start size fits) ran
  cases state : s.context.state_ with
  | kTestContextHeader =>
    have short : s.buf.readable.length < 4 := by
      rcases parses.returned returned with none | ⟨_,part⟩
      · rw [none]
        decide
      · exact part
    obtain ⟨complete,ends⟩ := header_complete parses state short
    exact ⟨fun _ => ends,fun _ => complete⟩
  | kTestContextBody =>
    rcases parses.returned returned with none | ⟨header,_⟩
    · exact body_complete_iff parses state none
    · rw [state] at header
      cases header

def emptyFirst : List Move :=
  [.chunk [0,0],.turn,.chunk [0,0,0,0,0,1,65],.turn,.turn,.turn,.turn,.turn]

theorem parse_complete_iff_first :
    ∃ s, exec emptyFirst (start 16) = some s ∧ s.running = false ∧ s.delivered = [[],[65]] ∧
      (Complete s ↔ ¬EndsEmpty s.stream) :=
  ⟨_,rfl,rfl,rfl,parse_complete_iff 16 (by decide) emptyFirst _ rfl rfl⟩

/-- An empty frame alone: the call comes back without having given it to the callback. -/
theorem empty_frame_held :
    ∃ moves s, exec moves (start 16) = some s ∧ s.running = false ∧ s.stream = [0,0,0,0] ∧
      frames.Framed [[]] s.stream ∧ s.delivered = [] ∧ ¬Complete s := by
  have framed : frames.Framed [[]] ([0,0,0,0] ++ ([] ++ [])) := .cons rfl (frames_size.mpr (by decide)) .nil
  refine ⟨[.chunk [0,0,0,0],.turn,.turn],_,rfl,rfl,rfl,framed,rfl,?_⟩
  rintro ⟨same,_⟩
  have decoded : frames.decode [0,0,0,0] = [[]] := framed.decode_all
  have none : ([] : List (List UInt8)) = frames.decode [0,0,0,0] := same
  rw [decoded] at none
  cases none

end Tmms.Network.TestContext
