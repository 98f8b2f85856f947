import Tmms.Framing
import Tmms.MsgBuffer
import Tmms.TcpConnection

/-! The parser of length-prefixed messages. Its state survives between calls, each of which
loops while there are bytes: for a body that is not complete, or whose length is negative,
the loop goes on without getting anywhere. -/
namespace Tmms.Network

inductive TestContextState where
  | kTestContextHeader
  | kTestContextBody
  deriving DecidableEq

structure TestContext where
  state_ : TestContextState
  message_length_ : Int
  message_body_ : List UInt8
  cb_ : Bool
  deriving DecidableEq

namespace TestContext

def initial (cb : Bool) : TestContext := ⟨.kTestContextHeader,0,[],cb⟩

/-- What a turn of the loop comes to. -/
inductive Turn where
  | returned (value : Int)
  -- the callback was given these bodies, one at most
  | again (context : TestContext) (buf : MsgBuffer) (handed : List (List UInt8))
  -- an assertion of the buffer
  | failed

/-- The condition and one turn of the loop of `ParseMessage`. The signed length is converted
to `size_t` where it is compared with `readableBytes`. -/
def turn (this : TestContext) (buf : MsgBuffer) : Turn :=
  if buf.readableBytes > 0 then
    match this.state_ with
    | .kTestContextHeader =>
      if buf.readableBytes ≥ 4 then
        match buf.readInt32 with
        | none => .failed
        | some (length,buf) =>
          .again { this with message_length_ := length, state_ := .kTestContextBody } buf []
      else .returned 1
    | .kTestContextBody =>
      if buf.readableBytes ≥ toSize this.message_length_ then
        let tmp := buf.readable.take (toSize this.message_length_)
        let message_body_ := this.message_body_ ++ tmp
        match buf.retrieve (toSize this.message_length_) with
        | none => .failed
        | some buf =>
          if this.cb_ then
            .again { this with message_length_ := 0, message_body_ := [], state_ := .kTestContextHeader }
              buf [message_body_]
          else
            .again { this with
              message_length_ := 0, message_body_ := message_body_, state_ := .kTestContextHeader } buf []
      else .again this buf []
  else .returned 0

/-- The parser and its buffer between and within calls, what has been appended, and what the
callback has been given, oldest first. -/
structure World where
  context : TestContext
  buf : MsgBuffer
  running : Bool
  stream : List UInt8
  delivered : List (List UInt8)

inductive Move where
  | chunk (data : List UInt8)
  | turn

def step (s : World) : Move → Option World
  | .chunk data =>
    if s.running then none
    else
      match s.buf.append data with
      | none => none
      | some buf =>
        if buf.buffer_.length ≤ kMaxSize then
          some { s with buf := buf, running := true, stream := s.stream ++ data }
        else none
  | .turn =>
    if s.running then
      match turn s.context s.buf with
      | .returned _ => some { s with running := false }
      | .again context buf handed =>
        some { s with context := context, buf := buf, delivered := s.delivered ++ handed }
      | .failed => none
    else none

def exec : List Move → World → Option World
  | [],s => some s
  | move :: moves,s => (step s move).bind (exec moves)

def start (size : Nat) : World := ⟨initial true,.initial size,false,[],[]⟩

/-- Four bytes in network order, signed; a negative length ends the decoding. -/
def frames : Framing.Format UInt8 where
  header := 4
  size := fun bytes =>
    let length := MsgBuffer.signed bytes
    if length < 0 then none else some length.toNat
  positive := by decide

/-- What is still to be decoded, given what has been read of the frame at hand. -/
def remaining (this : TestContext) (bytes : List UInt8) : List (List UInt8) :=
  match this.state_ with
  | .kTestContextHeader => frames.decode bytes
  | .kTestContextBody =>
    if this.message_length_ < 0 then [] else frames.decodeBody this.message_length_.toNat bytes

structure Sound (s : World) : Prop where
  ordered : s.buf.Ordered
  size : s.buf.buffer_.length ≤ kMaxSize
  cb_ : s.context.cb_ = true
  body : s.context.message_body_ = []
  length : -2^31 ≤ s.context.message_length_ ∧ s.context.message_length_ < 2^31
  decoded : ∀ rest, frames.decode (s.stream ++ rest) =
    s.delivered ++ remaining s.context (s.buf.readable ++ rest)

theorem toSize_nonneg {value : Int} (nonneg : 0 ≤ value) (bound : value < 2^31) :
    toSize value = value.toNat := by
  rw [toSize,Int.emod_eq_of_lt nonneg (by omega)]

/-- No buffer is as large as a negative length looks. -/
theorem toSize_negative {value : Int} (bound : -2^31 ≤ value) (negative : value < 0) :
    kMaxSize < toSize value := by
  rw [toSize,kMaxSize]
  omega

theorem chunk_sound (s next : World) (data : List UInt8) (sound : Sound s)
    (stepped : step s (.chunk data) = some next) : Sound next := by
  rw [step] at stepped
  split at stepped
  · cases stepped
  · split at stepped
    · cases stepped
    · next after appended =>
      obtain ⟨fits,stepped⟩ := Option.ite_none_right_eq_some.mp stepped
      cases stepped
      obtain ⟨ordered,readable⟩ := sound.ordered.append appended
      refine ⟨ordered,fits,sound.cb_,sound.body,sound.length,fun rest => ?_⟩
      rw [readable,List.append_assoc,List.append_assoc]
      exact sound.decoded (data ++ rest)

/-- A header is read: what is still to be decoded is its body and what follows. -/
theorem header_sound (s : World) (sound : Sound s) (state : s.context.state_ = .kTestContextHeader)
    (complete : 4 ≤ s.buf.readableBytes) :
    ∃ length buf, s.buf.readInt32 = some (length,buf) ∧
      Sound { s with
        context := { s.context with message_length_ := length, state_ := .kTestContextBody }, buf := buf } := by
  obtain ⟨after,read,ordered,readable,same⟩ := sound.ordered.readInt 4 complete
  have length := sound.ordered.readable_length
  have four : (s.buf.readable.take 4).length = 4 := by
    rw [List.length_take]
    omega
  refine ⟨_,after,read,ordered,?_,sound.cb_,sound.body,MsgBuffer.signed_range _ four,fun rest => ?_⟩
  · rw [same]
    exact sound.size
  · have before := sound.decoded rest
    rw [remaining,state] at before
    have decoded := frames.decode_header s.buf.readable rest (by rw [length]; exact complete)
    rw [before,readable]
    apply congrArg (s.delivered ++ ·)
    simp only [remaining]
    by_cases negative : MsgBuffer.signed (s.buf.readable.take 4) < 0
    · have size : frames.size (s.buf.readable.take frames.header) = none := if_pos negative
      rw [decoded,size,if_pos negative]
    · have size : frames.size (s.buf.readable.take frames.header) =
          some (MsgBuffer.signed (s.buf.readable.take 4)).toNat := if_neg negative
      rw [decoded,size,if_neg negative]
      rfl

theorem zero_range : -2^31 ≤ (0 : Int) ∧ (0 : Int) < 2^31 := by decide

/-- A body that is complete is the next one decoded. -/
theorem body_sound (s : World) (sound : Sound s) (state : s.context.state_ = .kTestContextBody)
    (complete : toSize s.context.message_length_ ≤ s.buf.readableBytes) :
    ∃ buf, s.buf.retrieve (toSize s.context.message_length_) = some buf ∧
      Sound { s with
        context := { s.context with
          message_length_ := 0, message_body_ := [], state_ := .kTestContextHeader },
        buf := buf,
        delivered := s.delivered ++ [s.buf.readable.take (toSize s.context.message_length_)] } := by
  obtain ⟨after,taken,ordered,readable⟩ := sound.ordered.retrieve _ complete
  have length := sound.ordered.readable_length
  have writer := sound.ordered.writer
  have size := sound.size
  have nonneg : ¬s.context.message_length_ < 0 := by
    intro negative
    have huge := toSize_negative sound.length.1 negative
    simp only [MsgBuffer.readableBytes] at complete
    omega
  have exact_ := toSize_nonneg (Int.not_lt.mp nonneg) sound.length.2
  refine ⟨after,taken,ordered,?_,sound.cb_,rfl,zero_range,fun rest => ?_⟩
  · rw [MsgBuffer.retrieve_buffer taken]
    exact size
  · have before := sound.decoded rest
    rw [remaining,state] at before
    simp only [if_neg nonneg] at before
    rw [before,frames.decodeBody_complete _ _ rest (by rw [length,← exact_]; exact complete),
      readable,exact_]
    simp [remaining]

theorem turn_sound (s next : World) (sound : Sound s) (stepped : step s .turn = some next) :
    Sound next := by
  simp only [step] at stepped
  split at stepped
  · unfold turn at stepped
    by_cases some_ : s.buf.readableBytes > 0
    · rw [if_pos some_] at stepped
      cases state : s.context.state_ with
      | kTestContextHeader =>
        rw [state] at stepped
        by_cases complete : s.buf.readableBytes ≥ 4
        · obtain ⟨length,buf,read,kept⟩ := header_sound s sound state complete
          simp only [if_pos complete,read,List.append_nil] at stepped
          cases stepped
          exact kept
        · simp only [if_neg complete] at stepped
          cases stepped
          exact ⟨sound.ordered,sound.size,sound.cb_,sound.body,sound.length,sound.decoded⟩
      | kTestContextBody =>
        rw [state] at stepped
        by_cases complete : s.buf.readableBytes ≥ toSize s.context.message_length_
        · obtain ⟨buf,taken,kept⟩ := body_sound s sound state complete
          simp only [if_pos complete,taken,if_pos sound.cb_,sound.body,List.nil_append] at stepped
          cases stepped
          exact kept
        · simp only [if_neg complete,List.append_nil] at stepped
          cases stepped
          exact sound
    · rw [if_neg some_] at stepped
      cases stepped
      exact ⟨sound.ordered,sound.size,sound.cb_,sound.body,sound.length,sound.decoded⟩
  · cases stepped

theorem start_sound (size : Nat) (fits : kCheapPrepend + size ≤ kMaxSize) : Sound (start size) := by
  refine ⟨MsgBuffer.initial_ordered size,?_,rfl,rfl,zero_range,fun rest => ?_⟩
  · simpa [start,MsgBuffer.initial] using fits
  · simp [start,remaining,initial]

theorem exec_sound (moves : List Move) (s final : World) (sound : Sound s)
    (ran : exec moves s = some final) : Sound final := by
  induction moves generalizing s with
  | nil =>
    cases ran
    exact sound
  | cons move moves ih =>
    obtain ⟨next,stepped,rest⟩ := Option.bind_eq_some_iff.mp ran
    apply ih next _ rest
    cases move with
    | chunk data => exact chunk_sound s next data sound stepped
    | turn => exact turn_sound s next sound stepped

/-- At any moment of any run, between calls or in the middle of one, what the callback has
been given is a prefix of what the whole stream decodes to, however it goes on. -/
theorem framing_sound (size : Nat) (fits : kCheapPrepend + size ≤ kMaxSize) (moves : List Move)
    (s : World) (ran : exec moves (start size) = some s) (rest : List UInt8) :
    s.delivered <+: frames.decode (s.stream ++ rest) := by
  rw [(exec_sound moves (start size) s (start_sound size fits) ran).decoded rest]
  exact List.prefix_append _ _

def cut : List Move :=
  [.chunk [0,0,0],.turn,.chunk [2,65,66,0,0,0,2,67],.turn,.turn,.turn,.turn]

theorem framing_sound_cut :
    ∃ s, exec cut (start 8) = some s ∧ s.delivered = [[65,66]] ∧
      s.delivered <+: frames.decode (s.stream ++ [68]) :=
  ⟨_,rfl,rfl,framing_sound 8 (by decide) cut _ rfl [68]⟩

end TestContext
end Tmms.Network
