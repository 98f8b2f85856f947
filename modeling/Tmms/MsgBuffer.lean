import Mathlib.Algebra.Ring.Int.Defs
import Mathlib.Algebra.Ring.Nat
import Mathlib.Data.List.Basic
import Mathlib.Tactic.Common
import Tmms.StringUtils

/-! The input buffer: a vector of bytes with a reader and a writer index, which says less
than it does, namely to be a queue of bytes. A failed assertion is `none`. -/
namespace Tmms.Network

def kCheapPrepend : Nat := 8
def kInitialSize : Nat := 1024

/-- The largest size of a `std::vector<char>`; growing beyond it throws. -/
def kMaxSize : Nat := 2^63 - 1

structure MsgBuffer where
  buffer_ : List UInt8
  readerIndex_ : Nat
  writerIndex_ : Nat
  deriving DecidableEq

namespace MsgBuffer

def initial (initialSize : Nat) : MsgBuffer :=
  ⟨List.replicate (kCheapPrepend + initialSize) 0,kCheapPrepend,kCheapPrepend⟩

/-- The differences of `size_t` values are exact while the indices are in order. -/
def readableBytes (b : MsgBuffer) : Nat := b.writerIndex_ - b.readerIndex_
def writableBytes (b : MsgBuffer) : Nat := b.buffer_.length - b.writerIndex_
def prependableBytes (b : MsgBuffer) : Nat := b.readerIndex_

/-- The bytes from `peek()` up to `beginWrite()`. -/
def readable (b : MsgBuffer) : List UInt8 := (b.buffer_.drop b.readerIndex_).take b.readableBytes

def retrieveAll (b : MsgBuffer) : MsgBuffer :=
  { b with readerIndex_ := kCheapPrepend, writerIndex_ := kCheapPrepend }

def retrieve (len : Nat) (b : MsgBuffer) : Option MsgBuffer :=
  if len ≤ b.readableBytes then
    if len < b.readableBytes then some { b with readerIndex_ := b.readerIndex_ + len }
    else some b.retrieveAll
  else none

def retrieveInt64 : MsgBuffer → Option MsgBuffer := retrieve 8
def retrieveInt32 : MsgBuffer → Option MsgBuffer := retrieve 4
def retrieveInt16 : MsgBuffer → Option MsgBuffer := retrieve 2
def retrieveInt8 : MsgBuffer → Option MsgBuffer := retrieve 1

/-- The pointer `end` is given by its place in the vector. -/
def retrieveUntil (end_ : Nat) (b : MsgBuffer) : Option MsgBuffer :=
  if b.readerIndex_ ≤ end_ ∧ end_ ≤ b.writerIndex_ then b.retrieve (end_ - b.readerIndex_) else none

def retrieveAsString (len : Nat) (b : MsgBuffer) : Option (List UInt8 × MsgBuffer) :=
  if len ≤ b.readableBytes then
    (b.retrieve len).map fun after => ((b.buffer_.drop b.readerIndex_).take len,after)
  else none

def retrieveAllAsString (b : MsgBuffer) : Option (List UInt8 × MsgBuffer) :=
  b.retrieveAsString b.readableBytes

/-- Bytes in network order, read as a signed number. -/
def signed (bytes : List UInt8) : Int :=
  let value : Nat := bytes.foldl (fun value byte => value * 256 + byte.toNat) 0
  if value < 2^(8 * bytes.length - 1) then value else value - 2^(8 * bytes.length)

/-- `peekInt64` to `peekInt8`, by their size in bytes. -/
def peekInt (size : Nat) (b : MsgBuffer) : Option Int :=
  if size ≤ b.readableBytes then some (signed ((b.buffer_.drop b.readerIndex_).take size)) else none

def readInt (size : Nat) (b : MsgBuffer) : Option (Int × MsgBuffer) := do
  let result ← b.peekInt size
  let after ← b.retrieve size
  return (result,after)

def peekInt32 : MsgBuffer → Option Int := peekInt 4
def readInt64 : MsgBuffer → Option (Int × MsgBuffer) := readInt 8
def readInt32 : MsgBuffer → Option (Int × MsgBuffer) := readInt 4
def readInt16 : MsgBuffer → Option (Int × MsgBuffer) := readInt 2
def readInt8 : MsgBuffer → Option (Int × MsgBuffer) := readInt 1

def resize (size : Nat) (buffer : List UInt8) : List UInt8 :=
  buffer.take size ++ List.replicate (size - buffer.length) 0

def copy (data : List UInt8) (at_ : Nat) (buffer : List UInt8) : List UInt8 :=
  buffer.take at_ ++ data ++ buffer.drop (at_ + data.length)

def hasWritten (len : Nat) (b : MsgBuffer) : Option MsgBuffer :=
  if len ≤ b.writableBytes then some { b with writerIndex_ := b.writerIndex_ + len } else none

/-- The sum compared is one of `size_t` values. Growing by more than any vector holds is refused:
`resize` throws, or is given a sum that has wrapped and cuts the vector off. -/
def makeSpace (len : Nat) (b : MsgBuffer) : Option MsgBuffer :=
  if b.writableBytes + b.prependableBytes < (len + kCheapPrepend) % 2^64 then
    if len ≤ kMaxSize then some { b with buffer_ := resize (b.writerIndex_ + len) b.buffer_ } else none
  else if kCheapPrepend < b.readerIndex_ then
    some {
      buffer_ := copy b.readable kCheapPrepend b.buffer_
      readerIndex_ := kCheapPrepend
      writerIndex_ := kCheapPrepend + b.readableBytes }
  else none

def ensureWritableBytes (len : Nat) (b : MsgBuffer) : Option MsgBuffer := do
  let b ← if b.writableBytes < len then b.makeSpace len else some b
  if len ≤ b.writableBytes then some b else none

def append (data : List UInt8) (b : MsgBuffer) : Option MsgBuffer := do
  let b ← b.ensureWritableBytes data.length
  hasWritten data.length { b with buffer_ := copy data b.writerIndex_ b.buffer_ }

def unwrite (len : Nat) (b : MsgBuffer) : Option MsgBuffer :=
  if len ≤ b.readableBytes then some { b with writerIndex_ := b.writerIndex_ - len } else none

def prepend (data : List UInt8) (b : MsgBuffer) : Option MsgBuffer :=
  if data.length ≤ b.prependableBytes then
    let start := b.readerIndex_ - data.length
    some { b with buffer_ := copy data start b.buffer_, readerIndex_ := start }
  else none

/-- `hostToNetwork64` to `hostToNetwork16`, as the bytes in memory. -/
def network (size : Nat) (x : Int) : List UInt8 :=
  (List.range size).map fun i => UInt8.ofNat ((x % 2^(8 * size)).toNat / 256^(size - 1 - i))

def appendInt8 (x : Int) : MsgBuffer → Option MsgBuffer := append (network 1 x)
def prependInt64 (x : Int) : MsgBuffer → Option MsgBuffer := prepend (network 8 x)
def prependInt32 (x : Int) : MsgBuffer → Option MsgBuffer := prepend (network 4 x)
def prependInt16 (x : Int) : MsgBuffer → Option MsgBuffer := prepend (network 2 x)
def prependInt8 (x : Int) : MsgBuffer → Option MsgBuffer := prepend (network 1 x)

def kCRLF : List UInt8 := [13,10]

/-- `std::search` between `start` and `beginWrite()`. Pointers are given by their places in the vector. -/
def search (pat : List UInt8) (start : Nat) (b : MsgBuffer) : Option Nat :=
  (Base.StringUtils.find pat ((b.buffer_.drop start).take (b.writerIndex_ - start)) 0).map (start + ·)

/-- `findCRLF(const char *)` and, for one character, `findEOL(const char *)`. -/
def findFrom (pat : List UInt8) (start : Nat) (b : MsgBuffer) : Option (Option Nat) :=
  if b.readerIndex_ ≤ start ∧ start ≤ b.writerIndex_ then some (b.search pat start) else none

def findCRLF (b : MsgBuffer) : Option Nat := b.search kCRLF b.readerIndex_
def findCRLFFrom : Nat → MsgBuffer → Option (Option Nat) := findFrom kCRLF
def findEOL (b : MsgBuffer) : Option Nat := b.search [10] b.readerIndex_
def findEOLFrom : Nat → MsgBuffer → Option (Option Nat) := findFrom [10]

/-- Bytes that are put behind `beginWrite()` without a move of the writer index. -/
def store (data : List UInt8) (b : MsgBuffer) : Option MsgBuffer :=
  if data.length ≤ b.writableBytes then some { b with buffer_ := copy data b.writerIndex_ b.buffer_ } else none

def kExtraSize : Nat := 65536

/-- How many bytes `readv` may deliver. -/
def room (b : MsgBuffer) : Nat :=
  if b.writableBytes < kExtraSize then b.writableBytes + kExtraSize else b.writableBytes

/-- `readFd`, after `readv` has delivered `data`: first into the vector behind the writer
index, the rest into `extrabuf`. -/
def readFd (data : List UInt8) (b : MsgBuffer) : Option MsgBuffer :=
  let writable := b.writableBytes
  let filled := { b with buffer_ := copy (data.take writable) b.writerIndex_ b.buffer_ }
  if data.length ≤ writable then some { filled with writerIndex_ := b.writerIndex_ + data.length }
  else append (data.drop writable) { filled with writerIndex_ := filled.buffer_.length }

/-- The indices are in order and there is room for a header in front. -/
structure Ordered (b : MsgBuffer) : Prop where
  prepend : kCheapPrepend ≤ b.buffer_.length
  reader : b.readerIndex_ ≤ b.writerIndex_
  writer : b.writerIndex_ ≤ b.buffer_.length

section Queue
variable {b after : MsgBuffer}

theorem initial_ordered (size : Nat) : (initial size).Ordered := by
  constructor
  · simp [initial]
  · exact Nat.le_refl _
  · simp [initial]

@[simp] theorem initial_readable (size : Nat) : (initial size).readable = [] := by
  simp [initial,readable,readableBytes]

theorem Ordered.readable_length (ordered : b.Ordered) : b.readable.length = b.readableBytes := by
  have := ordered.writer
  simp only [readable,List.length_take,List.length_drop,readableBytes]
  omega

theorem Ordered.retrieveAll (ordered : b.Ordered) : b.retrieveAll.Ordered :=
  ⟨ordered.prepend,Nat.le_refl _,ordered.prepend⟩

@[simp] theorem retrieveAll_readable (b : MsgBuffer) : b.retrieveAll.readable = [] := by
  simp [retrieveAll,readable,readableBytes]

/-- Taking `len` bytes succeeds where there are that many, and takes them from the front. -/
theorem Ordered.retrieve (ordered : b.Ordered) (len : Nat) (bound : len ≤ b.readableBytes) :
    ∃ after, b.retrieve len = some after ∧ after.Ordered ∧ after.readable = b.readable.drop len := by
  have length := ordered.readable_length
  rw [MsgBuffer.retrieve,if_pos bound]
  by_cases part : len < b.readableBytes
  · rw [if_pos part]
    refine ⟨_,rfl,⟨ordered.prepend,?_,ordered.writer⟩,?_⟩
    · simp only [readableBytes] at part ⊢
      omega
    · simp only [readable,readableBytes,List.drop_take,List.drop_drop,Nat.sub_sub]
  · rw [if_neg part]
    refine ⟨_,rfl,ordered.retrieveAll,?_⟩
    rw [retrieveAll_readable,List.drop_eq_nil_of_le]
    omega

theorem retrieve_buffer {len : Nat} (taken : b.retrieve len = some after) : after.buffer_ = b.buffer_ := by
  rw [MsgBuffer.retrieve] at taken
  split at taken
  · split at taken
    · cases taken
      rfl
    · cases taken
      rfl
  · cases taken

/-- A number is read from the front of the queue. -/
theorem Ordered.readInt (ordered : b.Ordered) (size : Nat) (bound : size ≤ b.readableBytes) :
    ∃ after, b.readInt size = some (signed (b.readable.take size),after) ∧ after.Ordered ∧
      after.readable = b.readable.drop size ∧ after.buffer_ = b.buffer_ := by
  obtain ⟨after,taken,sorted,rest⟩ := ordered.retrieve size bound
  refine ⟨after,?_,sorted,rest,retrieve_buffer taken⟩
  have front : b.readable.take size = (b.buffer_.drop b.readerIndex_).take size := by
    rw [readable,List.take_take,Nat.min_eq_left bound]
  simp [MsgBuffer.readInt,peekInt,bound,taken,front]

theorem foldl_bound (bytes : List UInt8) (value : Nat) :
    bytes.foldl (fun value byte => value * 256 + byte.toNat) value < (value + 1) * 256^bytes.length := by
  induction bytes generalizing value with
  | nil => simp
  | cons byte bytes ih =>
    have small := byte.toNat_lt
    have step : value * 256 + byte.toNat + 1 ≤ (value + 1) * 256 := by omega
    calc (byte :: bytes).foldl (fun value byte => value * 256 + byte.toNat) value
        < (value * 256 + byte.toNat + 1) * 256^bytes.length := ih _
      _ ≤ (value + 1) * 256 * 256^bytes.length := Nat.mul_le_mul_right _ step
      _ = (value + 1) * 256^(byte :: bytes).length := by
        rw [List.length_cons,Nat.pow_succ,Nat.mul_assoc,Nat.mul_comm 256]

theorem signed_range (bytes : List UInt8) (four : bytes.length = 4) :
    -2^31 ≤ signed bytes ∧ signed bytes < 2^31 := by
  have bound := foldl_bound bytes 0
  simp only [signed,four] at bound ⊢
  split
  · omega
  · omega

@[simp] theorem network_length (size : Nat) (x : Int) : (network size x).length = size := by
  simp [network]

theorem resize_length (size : Nat) (buffer : List UInt8) : (resize size buffer).length = size := by
  simp only [resize,List.length_append,List.length_take,List.length_replicate]
  omega

theorem copy_length (data buffer : List UInt8) (at_ : Nat) (fits : at_ + data.length ≤ buffer.length) :
    (copy data at_ buffer).length = buffer.length := by
  simp only [copy,List.length_append,List.length_take,List.length_drop]
  omega

/-- Between the reader index and a place behind it: what is there does not change when the
vector grows or is written to further back. -/
theorem slice_copy (data buffer : List UInt8) (from_ at_ : Nat) (bound : at_ ≤ buffer.length)
    (order : from_ ≤ at_) :
    ((copy data at_ buffer).drop from_).take (at_ + data.length - from_) =
      (buffer.drop from_).take (at_ - from_) ++ data := by
  have front : (buffer.take at_).length = at_ := by
    rw [List.length_take]
    omega
  rw [copy,List.append_assoc,List.drop_append_of_le_length (by omega),← List.append_assoc,
    List.take_append_of_le_length]
  · rw [List.take_of_length_le,List.drop_take]
    simp only [List.length_append,List.length_drop]
    omega
  · simp only [List.length_append,List.length_drop]
    omega

/-- The vector grows at its end, or its bytes move to the front. -/
theorem makeSpace_cases {len : Nat} (made : b.makeSpace len = some after) :
    (b.writableBytes + b.prependableBytes < (len + kCheapPrepend) % 2^64 ∧
      after = { b with buffer_ := resize (b.writerIndex_ + len) b.buffer_ }) ∨
    (kCheapPrepend < b.readerIndex_ ∧
      after = ⟨copy b.readable kCheapPrepend b.buffer_,kCheapPrepend,kCheapPrepend + b.readableBytes⟩) := by
  rw [MsgBuffer.makeSpace] at made
  split at made
  · next tight =>
    obtain ⟨_,made⟩ := Option.ite_none_right_eq_some.mp made
    exact .inl ⟨tight,(Option.some.inj made).symm⟩
  · obtain ⟨moved,made⟩ := Option.ite_none_right_eq_some.mp made
    exact .inr ⟨moved,(Option.some.inj made).symm⟩

theorem ensureWritableBytes_cases {len : Nat} (ensured : b.ensureWritableBytes len = some after) :
    (after = b ∨ b.writableBytes < len ∧ b.makeSpace len = some after) ∧ len ≤ after.writableBytes := by
  rw [MsgBuffer.ensureWritableBytes] at ensured
  split at ensured
  · next small =>
    obtain ⟨made,how,enough⟩ := Option.bind_eq_some_iff.mp ensured
    obtain ⟨room,same⟩ := Option.ite_none_right_eq_some.mp enough
    cases same
    exact ⟨.inr ⟨small,how⟩,room⟩
  · obtain ⟨room,same⟩ := Option.ite_none_right_eq_some.mp ensured
    cases same
    exact ⟨.inl rfl,room⟩

theorem append_cases {data : List UInt8} (appended : b.append data = some after) :
    ∃ roomy, b.ensureWritableBytes data.length = some roomy ∧
      after = ⟨copy data roomy.writerIndex_ roomy.buffer_,roomy.readerIndex_,roomy.writerIndex_ + data.length⟩ := by
  obtain ⟨roomy,ensured,written⟩ := Option.bind_eq_some_iff.mp appended
  obtain ⟨_,made⟩ := Option.ite_none_right_eq_some.mp written
  exact ⟨roomy,ensured,(Option.some.inj made).symm⟩

/-- The bytes may move, over bytes that have been taken, but none is lost. -/
theorem Ordered.makeSpace (ordered : b.Ordered) {len : Nat} (small : b.writableBytes < len)
    (made : b.makeSpace len = some after) : after.Ordered ∧ after.readable = b.readable := by
  have length := ordered.readable_length
  obtain ⟨prepend,reader,writer⟩ := ordered
  simp only [writableBytes] at small
  obtain ⟨_,rfl⟩ | ⟨moved,rfl⟩ := makeSpace_cases made
  · have length := resize_length (b.writerIndex_ + len) b.buffer_
    refine ⟨⟨?_,reader,?_⟩,?_⟩
    · rw [length]
      omega
    · rw [length]
      exact Nat.le_add_right _ _
    · have whole : b.buffer_.take (b.writerIndex_ + len) = b.buffer_ :=
        List.take_of_length_le (by omega)
      simp only [readable,readableBytes,resize,whole]
      rw [List.drop_append_of_le_length (by omega),List.take_append_of_le_length]
      rw [List.length_drop]
      omega
  · have fits : kCheapPrepend + b.readable.length ≤ b.buffer_.length := by
      rw [length,readableBytes]
      omega
    have same := copy_length b.readable b.buffer_ kCheapPrepend fits
    refine ⟨⟨?_,?_,?_⟩,?_⟩
    · rw [same]
      exact prepend
    · exact Nat.le_add_right _ _
    · rw [same,← length]
      exact fits
    · have slice := slice_copy b.readable b.buffer_ kCheapPrepend kCheapPrepend prepend (Nat.le_refl _)
      rw [length,Nat.sub_self,List.take_zero,List.nil_append] at slice
      exact slice

/-- There is room for `len` bytes behind the writer index afterwards. -/
theorem Ordered.makeSpace_room (ordered : b.Ordered) (len : Nat) (sized : len ≤ kMaxSize)
    (small : b.writableBytes < len) : ∃ after, b.makeSpace len = some after ∧ len ≤ after.writableBytes := by
  have length := ordered.readable_length
  obtain ⟨prepend,reader,writer⟩ := ordered
  simp only [writableBytes] at small
  have counted : len + kCheapPrepend < 2^64 := by
    simp only [kMaxSize,kCheapPrepend] at sized ⊢
    omega
  rw [MsgBuffer.makeSpace,Nat.mod_eq_of_lt counted]
  by_cases grow : b.writableBytes + b.prependableBytes < len + kCheapPrepend
  · rw [if_pos grow,if_pos sized]
    refine ⟨_,rfl,?_⟩
    simp only [writableBytes,resize_length]
    omega
  · rw [if_neg grow]
    simp only [writableBytes,prependableBytes] at grow
    have moved : kCheapPrepend < b.readerIndex_ := by omega
    rw [if_pos moved]
    have same := copy_length b.readable b.buffer_ kCheapPrepend (by rw [length,readableBytes]; omega)
    refine ⟨_,rfl,?_⟩
    simp only [writableBytes,same,readableBytes]
    omega

theorem Ordered.ensureWritableBytes (ordered : b.Ordered) {len : Nat}
    (ensured : b.ensureWritableBytes len = some after) :
    after.Ordered ∧ after.readable = b.readable ∧ len ≤ after.writableBytes := by
  obtain ⟨rfl | ⟨small,made⟩,room⟩ := ensureWritableBytes_cases ensured
  · exact ⟨ordered,rfl,room⟩
  · obtain ⟨sorted,same⟩ := ordered.makeSpace small made
    exact ⟨sorted,same,room⟩

theorem Ordered.ensureWritableBytes_room (ordered : b.Ordered) (len : Nat) (sized : len ≤ kMaxSize) :
    ∃ after, b.ensureWritableBytes len = some after := by
  by_cases small : b.writableBytes < len
  · obtain ⟨after,made,room⟩ := ordered.makeSpace_room len sized small
    exact ⟨after,by simp [MsgBuffer.ensureWritableBytes,small,made,room]⟩
  · have room : len ≤ b.writableBytes := Nat.not_lt.mp small
    exact ⟨b,by simp [MsgBuffer.ensureWritableBytes,small,room]⟩

/-- Bytes put behind the writer index, which then moves past them. -/
theorem Ordered.written (ordered : b.Ordered) (data : List UInt8) (fits : data.length ≤ b.writableBytes) :
    let after : MsgBuffer :=
      ⟨copy data b.writerIndex_ b.buffer_,b.readerIndex_,b.writerIndex_ + data.length⟩
    after.Ordered ∧ after.readable = b.readable ++ data := by
  obtain ⟨prepend,reader,writer⟩ := ordered
  simp only [writableBytes] at fits
  have same := copy_length data b.buffer_ b.writerIndex_ (by omega)
  refine ⟨⟨?_,?_,?_⟩,?_⟩
  · rw [same]
    exact prepend
  · exact Nat.le_add_right_of_le reader
  · rw [same]
    exact Nat.add_le_of_le_sub' writer fits
  · exact slice_copy data b.buffer_ b.readerIndex_ b.writerIndex_ writer reader

/-- `append` adds to the end of the queue, whatever has to be moved for it. -/
theorem Ordered.append (ordered : b.Ordered) {data : List UInt8} (appended : b.append data = some after) :
    after.Ordered ∧ after.readable = b.readable ++ data := by
  obtain ⟨roomy,ensured,rfl⟩ := append_cases appended
  obtain ⟨sorted,same,room⟩ := ordered.ensureWritableBytes ensured
  obtain ⟨fine,extended⟩ := sorted.written data room
  exact ⟨fine,extended.trans (congrArg (· ++ data) same)⟩

theorem Ordered.append_room (ordered : b.Ordered) (data : List UInt8) (sized : data.length ≤ kMaxSize) :
    ∃ after, b.append data = some after := by
  obtain ⟨roomy,ensured⟩ := ordered.ensureWritableBytes_room data.length sized
  obtain ⟨sorted,same,room⟩ := ordered.ensureWritableBytes ensured
  have still : data.length ≤ (copy data roomy.writerIndex_ roomy.buffer_).length - roomy.writerIndex_ := by
    rw [copy_length]
    · exact room
    · have := sorted.writer
      simp only [writableBytes] at room
      omega
  simp [MsgBuffer.append,ensured,hasWritten,writableBytes,still]

theorem Ordered.filled (ordered : b.Ordered) (data : List UInt8) (long : ¬data.length ≤ b.writableBytes) :
    let front := data.take b.writableBytes
    let buffer := copy front b.writerIndex_ b.buffer_
    let full : MsgBuffer := ⟨buffer,b.readerIndex_,buffer.length⟩
    full.Ordered ∧ full.readable = b.readable ++ front := by
  have length : (data.take b.writableBytes).length = b.writableBytes := by
    rw [List.length_take]
    omega
  have writer := ordered.writer
  have end_ : (copy (data.take b.writableBytes) b.writerIndex_ b.buffer_).length =
      b.writerIndex_ + (data.take b.writableBytes).length := by
    rw [copy_length]
    · rw [length,writableBytes]
      omega
    · rw [length,writableBytes]
      omega
  dsimp only
  rw [end_]
  exact ordered.written (data.take b.writableBytes) (Nat.le_of_eq length)

/-- `readFd` adds what `readv` has delivered, the part in the spill area included. -/
theorem Ordered.readFd (ordered : b.Ordered) {data : List UInt8} (read : b.readFd data = some after) :
    after.Ordered ∧ after.readable = b.readable ++ data := by
  rw [MsgBuffer.readFd] at read
  dsimp only at read
  split at read
  · next fits =>
    cases read
    rw [List.take_of_length_le fits]
    exact ordered.written data fits
  · next long =>
    obtain ⟨full,filled⟩ := ordered.filled data long
    obtain ⟨sorted,extended⟩ := full.append read
    refine ⟨sorted,extended.trans ?_⟩
    rw [filled,List.append_assoc,List.take_append_drop]

theorem Ordered.readFd_room (ordered : b.Ordered) (data : List UInt8)
    (sized : data.length - b.writableBytes ≤ kMaxSize) : ∃ after, b.readFd data = some after := by
  rw [MsgBuffer.readFd]
  dsimp only
  by_cases fits : data.length ≤ b.writableBytes
  · exact ⟨_,if_pos fits⟩
  · rw [if_neg fits]
    obtain ⟨full,_⟩ := ordered.filled data fits
    exact full.append_room _ (by rw [List.length_drop]; exact sized)

/-- `readv` delivers no more than it is given room for. -/
theorem Ordered.readFd_offered (ordered : b.Ordered) (data : List UInt8) (offered : data.length ≤ b.room) :
    ∃ after, b.readFd data = some after := by
  apply ordered.readFd_room
  have spill : data.length ≤ b.writableBytes + kExtraSize := by
    unfold room at offered
    split at offered
    · exact offered
    · exact Nat.le_add_right_of_le offered
  simp only [kExtraSize,kMaxSize] at spill ⊢
  omega

theorem Ordered.unwrite (ordered : b.Ordered) (len : Nat) (bound : len ≤ b.readableBytes) :
    ∃ after, b.unwrite len = some after ∧ after.Ordered ∧
      after.readable = b.readable.take (b.readableBytes - len) := by
  obtain ⟨prepend,reader,writer⟩ := ordered
  rw [MsgBuffer.unwrite,if_pos bound]
  simp only [readableBytes] at bound
  have kept : b.readerIndex_ ≤ b.writerIndex_ - len := by omega
  refine ⟨_,rfl,⟨prepend,kept,?_⟩,?_⟩
  · exact Nat.le_trans (Nat.sub_le _ _) writer
  · simp only [readable,readableBytes,List.take_take]
    congr 1
    omega

/-- Bytes put before the queue, where there is room for them. -/
theorem Ordered.prepended (ordered : b.Ordered) (data : List UInt8) (fits : data.length ≤ b.prependableBytes) :
    ∃ after, b.prepend data = some after ∧ after.Ordered ∧ after.readable = data ++ b.readable := by
  obtain ⟨prepend,reader,writer⟩ := ordered
  rw [MsgBuffer.prepend,if_pos fits]
  simp only [prependableBytes] at fits
  have same := copy_length data b.buffer_ (b.readerIndex_ - data.length) (by omega)
  refine ⟨_,rfl,⟨?_,?_,?_⟩,?_⟩
  · rw [same]
    exact prepend
  · exact Nat.le_trans (Nat.sub_le _ _) reader
  · rw [same]
    exact writer
  · have front : (b.buffer_.take (b.readerIndex_ - data.length)).length = b.readerIndex_ - data.length := by
      rw [List.length_take]
      omega
    have back : b.readerIndex_ - data.length + data.length = b.readerIndex_ := Nat.sub_add_cancel fits
    have length : b.writerIndex_ - (b.readerIndex_ - data.length) =
        data.length + (b.writerIndex_ - b.readerIndex_) := by omega
    simp only [readable,readableBytes,copy]
    rw [List.append_assoc,List.drop_left' front,back,length,List.take_length_add_append]

theorem le_copy_length (data buffer : List UInt8) (at_ : Nat) : buffer.length ≤ (copy data at_ buffer).length := by
  simp only [copy,List.length_append,List.length_take,List.length_drop]
  omega

theorem makeSpace_length {len : Nat} (small : b.writableBytes < len) (made : b.makeSpace len = some after) :
    b.buffer_.length ≤ after.buffer_.length := by
  obtain ⟨_,rfl⟩ | ⟨_,rfl⟩ := makeSpace_cases made
  · simp only [writableBytes] at small
    rw [resize_length]
    omega
  · exact le_copy_length _ _ _

theorem ensureWritableBytes_length {len : Nat} (ensured : b.ensureWritableBytes len = some after) :
    b.buffer_.length ≤ after.buffer_.length := by
  obtain ⟨rfl | ⟨small,made⟩,_⟩ := ensureWritableBytes_cases ensured
  · exact Nat.le_refl _
  · exact makeSpace_length small made

theorem append_length {data : List UInt8} (appended : b.append data = some after) :
    b.buffer_.length ≤ after.buffer_.length := by
  obtain ⟨roomy,ensured,rfl⟩ := append_cases appended
  exact Nat.le_trans (ensureWritableBytes_length ensured) (le_copy_length _ _ _)

theorem readFd_length {data : List UInt8} (read : b.readFd data = some after) :
    b.buffer_.length ≤ after.buffer_.length := by
  rw [MsgBuffer.readFd] at read
  dsimp only at read
  split at read
  · cases read
    exact le_copy_length _ _ _
  · exact Nat.le_trans (le_copy_length _ _ _) (append_length read)

end Queue
end MsgBuffer
end Tmms.Network
