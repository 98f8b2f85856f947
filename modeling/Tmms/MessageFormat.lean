import Mathlib.Tactic.Zify
import Tmms.ByteQueue
import Tmms.ParseMessage

/-! Messages as a sender builds them, in a buffer of its own: the body is appended and its length put
in front of it. Numbers in network order are read back as they were written, at every width. -/
namespace Tmms.Network

open TestContext

namespace MsgBuffer

/-- The first bytes of a number in network order are the number without its last ones. -/
theorem foldl_network (n size k : Nat) (within : k ≤ size) (bound : n < 256^size) :
    ((List.range k).map fun i => UInt8.ofNat (n / 256^(size - 1 - i))).foldl
      (fun value byte => value * 256 + byte.toNat) 0 = n / 256^(size - k) := by
  induction k with
  | zero => simp [Nat.div_eq_of_lt bound]
  | succ k ih =>
    have next : size - k = size - 1 - k + 1 := by omega
    have last : size - (k + 1) = size - 1 - k := by omega
    rw [List.range_succ,List.map_append,List.foldl_append,ih (by omega),next,last,Nat.pow_succ,
      ← Nat.div_div_eq_div_mul]
    simp only [List.map_cons,List.map_nil,List.foldl_cons,List.foldl_nil,UInt8.toNat_ofNat']
    omega

theorem signed_network (size : Nat) (x : Int) (some_ : 0 < size) (least : -2^(8 * size - 1) ≤ x)
    (most : x < 2^(8 * size - 1)) : signed (network size x) = x := by
  have double : (2 : Int)^(8 * size) = 2 * 2^(8 * size - 1) := by
    rw [← pow_succ',Nat.sub_add_cancel (by omega)]
  have positive : (0 : Int) < 2^(8 * size - 1) := Int.pow_pos (by decide)
  have bytes : (2 : Nat)^(8 * size) = 256^size := by rw [Nat.pow_mul]
  generalize half : (2 : Int)^(8 * size - 1) = h at *
  have value : (x % 2^(8 * size)).toNat < 256^size := by
    rw [← bytes]
    have small := Int.emod_lt_of_pos x (b := 2^(8 * size)) (by omega)
    have nonneg := Int.emod_nonneg x (b := 2^(8 * size)) (by omega)
    zify
    omega
  have whole := foldl_network _ size size (Nat.le_refl _) value
  rw [Nat.sub_self,Nat.pow_zero,Nat.div_one] at whole
  rw [signed,network_length,network,whole]
  have halfNat : ((2^(8 * size - 1) : Nat) : Int) = h := by rw [← half]; norm_cast
  have wholeNat : ((2^(8 * size) : Nat) : Int) = 2 * h := by rw [← double]; norm_cast
  have nonneg := Int.emod_nonneg x (b := 2^(8 * size)) (by omega)
  by_cases negative : x < 0
  · have wrapped : x % 2^(8 * size) = x + 2^(8 * size) := by
      rw [← Int.add_emod_right,Int.emod_eq_of_lt (by omega) (by omega)]
    rw [if_neg (by zify; omega)]
    omega
  · have same : x % 2^(8 * size) = x := Int.emod_eq_of_lt (by omega) (by omega)
    rw [if_pos (by zify; omega)]
    omega

end MsgBuffer

namespace MessageFormat

open ByteQueue

def encode (body : List UInt8) : List UInt8 := MsgBuffer.network 4 body.length ++ body

def build (body : List UInt8) : List Op := [.append body,.prependInt 4 body.length]

theorem encode_framed (body : List UInt8) (short : body.length < 2^31) : frames.Framed [body] (encode body) := by
  have length := MsgBuffer.signed_network 4 body.length (by decide) (by omega) (by omega)
  have framed : frames.Framed [body] (MsgBuffer.network 4 body.length ++ (body ++ [])) := by
    refine .cons (MsgBuffer.network_length 4 _) (frames_size.mpr ?_) .nil
    rw [length]
    exact ⟨Int.natCast_nonneg _,Int.toNat_natCast _⟩
  rw [List.append_nil] at framed
  exact framed

theorem build_sized (body : List UInt8) (short : body.length < 2^31) : ∀ op ∈ build body, op.room ≤ kMaxSize := by
  intro op among
  have large : 2^31 ≤ kMaxSize := by decide
  rcases List.mem_pair.mp among with rfl|rfl
  · exact Nat.le_trans (Nat.le_of_lt short) large
  · exact Nat.zero_le _

/-- There is room for the length in front of the body, in a buffer of any size. -/
theorem build_runs (size : Nat) (body : List UInt8) (short : body.length < 2^31) :
    ∃ b, runs run (build body) (.initial size) = some ([.done,.done],b) ∧ b.readable = encode body := by
  have queue : ∃ last, runs spec (build body) empty = some ([.done,.done],last) ∧ last.contents = encode body := by
    have room : (MsgBuffer.network 4 (body.length : Int)).length ≤ (empty.push body).reserve := by
      rw [MsgBuffer.network_length]
      change 4 ≤ kCheapPrepend
      decide
    simp only [build,runs,spec,Option.bind_some,unshift,if_pos room,Option.map_some]
    exact ⟨_,rfl,rfl⟩
  obtain ⟨last,ran,contents⟩ := queue
  obtain ⟨b,built,represents⟩ := runs_forward _ (build_sized body short) (initial_represents size) _ _ ran
  exact ⟨b,built,represents.contents.trans contents⟩

/-- A message can be built in a vector: the body takes no more room than there is or than it needs. -/
theorem build_fits (size : Nat) (fits : kCheapPrepend + size ≤ kMaxSize) (body : List UInt8) (short : body.length < 2^31)
    {outs : List Out} {b : MsgBuffer} (built : runs run (build body) (.initial size) = some (outs,b)) :
    b.buffer_.length ≤ kMaxSize := by
  obtain ⟨⟨out,first⟩,appended,more⟩ := Option.bind_eq_some_iff.mp built
  obtain ⟨⟨rest,last⟩,further,same⟩ := Option.map_eq_some_iff.mp more
  cases same
  obtain ⟨⟨out',second⟩,prepended,done⟩ := Option.bind_eq_some_iff.mp further
  cases done
  have start := MsgBuffer.initial_ordered size
  have behind := run_capacity start appended
  obtain ⟨made,how,same⟩ := Option.map_eq_some_iff.mp prepended
  cases same
  rw [(prepend_capacity (run_ordered start appended) how).2]
  have length : (MsgBuffer.initial size).buffer_.length = kCheapPrepend + size := List.length_replicate
  have unread : (MsgBuffer.initial size).readableBytes = 0 := Nat.sub_self _
  have room : (Op.append body).room = body.length := rfl
  rw [length,unread,room] at behind
  simp only [kMaxSize] at fits ⊢
  omega

theorem stream_framed (bodies : List (List UInt8)) (short : ∀ body ∈ bodies, body.length < 2^31) :
    frames.Framed bodies (bodies.flatMap encode) := by
  induction bodies with
  | nil => exact .nil
  | cons body bodies ih =>
    have rest := ih fun other among => short other (List.mem_cons_of_mem _ among)
    exact (encode_framed body (short body List.mem_cons_self)).append rest

/-- Messages of any bodies built in buffers of any size that a vector has, which they do not outgrow:
laid one behind the other they decode to these bodies, and a parser that is given the stream, in
pieces cut anywhere, gives its callback the bodies in order, each once and none of them changed. -/
theorem built_parsed (size : Nat) (fits : kCheapPrepend + size ≤ kMaxSize) (bodies : List (List UInt8))
    (short : ∀ body ∈ bodies, body.length < 2^31) :
    (∀ body ∈ bodies, ∃ b, runs run (build body) (.initial size) = some ([.done,.done],b) ∧
      b.readable = encode body ∧ b.buffer_.length ≤ kMaxSize) ∧
    frames.decode (bodies.flatMap encode) = bodies ∧
    ∀ room moves s, kCheapPrepend + room ≤ kMaxSize → exec moves (start room) = some s →
      s.stream <+: bodies.flatMap encode → s.delivered <+: bodies := by
  have framed := stream_framed bodies short
  refine ⟨fun body among => ?_,framed.decode_all,?_⟩
  · obtain ⟨b,built,readable⟩ := build_runs size body (short body among)
    exact ⟨b,built,readable,build_fits size fits body (short body among) built⟩
  rintro room moves s fits ran ⟨rest,whole⟩
  have decoded := (exec_sound moves (start room) s (start_sound room fits) ran).decoded rest
  rw [whole,framed.decode_all] at decoded
  rw [decoded]
  exact List.prefix_append _ _

theorem built_parsed_two : frames.decode ([[65,66],[67]].flatMap encode) = [[65,66],[67]] :=
  (built_parsed 8 (by decide) [[65,66],[67]] (by decide)).2.1

end MessageFormat
end Tmms.Network
