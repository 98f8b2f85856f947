import Tmms.MsgBuffer

/-! What the input buffer is for: a queue of bytes, with some room in front of them for headers. The
vector with its two indices does what the queue says in every sequence of operations; it may grow
or be tidied up in any of them. -/
namespace Tmms.Network

/-- The bytes, and how many more can be put in front of them whatever happens behind. -/
structure ByteQueue where
  contents : List UInt8
  reserve : Nat
  small : reserve ≤ kCheapPrepend
  deriving DecidableEq

namespace ByteQueue

/-- What a user of the buffer can do. Pointers are given from `peek()` on. -/
inductive Op where
  | append (data : List UInt8)
  | appendInt8 (x : Int)
  | ensureWritableBytes (len : Nat)
  | readFd (data : List UInt8)
  | prepend (data : List UInt8)
  -- `prependInt64` to `prependInt8`, `readInt64` to `readInt8` and so on, by their sizes
  | prependInt (size : Nat) (x : Int)
  | unwrite (len : Nat)
  | retrieve (len : Nat)
  | retrieveUntil (end_ : Nat)
  | retrieveAll
  | retrieveAsString (len : Nat)
  | retrieveAllAsString
  | readInt (size : Nat)
  | peekInt (size : Nat)
  | findCRLF (start : Nat)
  | findEOL (start : Nat)
  deriving DecidableEq

inductive Out where
  | done
  | bytes (data : List UInt8)
  | number (x : Int)
  | place (found : Option Nat)
  deriving DecidableEq

/-- An operation of the buffer; `none` is a failed assertion. -/
def run (b : MsgBuffer) : Op → Option (Out × MsgBuffer)
  | .append data => (b.append data).map fun after => (.done,after)
  | .appendInt8 x => (b.appendInt8 x).map fun after => (.done,after)
  | .ensureWritableBytes len => (b.ensureWritableBytes len).map fun after => (.done,after)
  | .readFd data => (b.readFd data).map fun after => (.done,after)
  | .prepend data => (b.prepend data).map fun after => (.done,after)
  | .prependInt size x => (b.prepend (MsgBuffer.network size x)).map fun after => (.done,after)
  | .unwrite len => (b.unwrite len).map fun after => (.done,after)
  | .retrieve len => (b.retrieve len).map fun after => (.done,after)
  | .retrieveUntil end_ => (b.retrieveUntil (b.readerIndex_ + end_)).map fun after => (.done,after)
  | .retrieveAll => some (.done,b.retrieveAll)
  | .retrieveAsString len => (b.retrieveAsString len).map fun taken => (.bytes taken.1,taken.2)
  | .retrieveAllAsString => b.retrieveAllAsString.map fun taken => (.bytes taken.1,taken.2)
  | .readInt size => (b.readInt size).map fun taken => (.number taken.1,taken.2)
  | .peekInt size => (b.peekInt size).map fun x => (.number x,b)
  | .findCRLF start =>
    (b.findCRLFFrom (b.readerIndex_ + start)).map fun found => (.place (found.map (· - b.readerIndex_)),b)
  | .findEOL start =>
    (b.findEOLFrom (b.readerIndex_ + start)).map fun found => (.place (found.map (· - b.readerIndex_)),b)

def empty : ByteQueue := ⟨[],kCheapPrepend,Nat.le_refl _⟩

def push (q : ByteQueue) (data : List UInt8) : ByteQueue := { q with contents := q.contents ++ data }

/-- Bytes taken from the front leave room there; an empty queue has all of it. -/
def drop (q : ByteQueue) (len : Nat) : ByteQueue :=
  if len < q.contents.length then ⟨q.contents.drop len,min kCheapPrepend (q.reserve + len),Nat.min_le_left _ _⟩
  else empty

def take (q : ByteQueue) (len : Nat) (out : Out) : Option (Out × ByteQueue) :=
  if len ≤ q.contents.length then some (out,q.drop len) else none

def unshift (q : ByteQueue) (data : List UInt8) : Option (Out × ByteQueue) :=
  if data.length ≤ q.reserve then
    some (.done,⟨data ++ q.contents,q.reserve - data.length,Nat.le_trans (Nat.sub_le _ _) q.small⟩)
  else none

def look (q : ByteQueue) (pat : List UInt8) (start : Nat) : Option (Out × ByteQueue) :=
  if start ≤ q.contents.length then
    some (.place ((Base.StringUtils.find pat (q.contents.drop start) 0).map (start + ·)),q)
  else none

def spec (q : ByteQueue) : Op → Option (Out × ByteQueue)
  | .append data | .readFd data => some (.done,q.push data)
  | .appendInt8 x => some (.done,q.push (MsgBuffer.network 1 x))
  | .ensureWritableBytes _ => some (.done,q)
  | .prepend data => q.unshift data
  | .prependInt size x => q.unshift (MsgBuffer.network size x)
  | .unwrite len =>
    if len ≤ q.contents.length then
      some (.done,{ q with contents := q.contents.take (q.contents.length - len) })
    else none
  | .retrieve len | .retrieveUntil len => q.take len .done
  | .retrieveAll => some (.done,empty)
  | .retrieveAsString len => q.take len (.bytes (q.contents.take len))
  | .retrieveAllAsString => some (.bytes q.contents,empty)
  | .readInt size => q.take size (.number (MsgBuffer.signed (q.contents.take size)))
  | .peekInt size =>
    if size ≤ q.contents.length then some (.number (MsgBuffer.signed (q.contents.take size)),q) else none
  | .findCRLF start => q.look MsgBuffer.kCRLF start
  | .findEOL start => q.look [10] start

/-- How many bytes an operation may want behind those there are. -/
def Op.room : Op → Nat
  | .append data | .readFd data => data.length
  | .appendInt8 _ => 1
  | .ensureWritableBytes len => len
  | _ => 0

def runs {α : Type} (step : α → Op → Option (Out × α)) : List Op → α → Option (List Out × α)
  | [],a => some ([],a)
  | op :: ops,a => (step a op).bind fun next => (runs step ops next.2).map fun rest => (next.1 :: rest.1,rest.2)

structure Represents (b : MsgBuffer) (q : ByteQueue) : Prop where
  ordered : b.Ordered
  contents : b.readable = q.contents
  reserve : q.reserve ≤ b.readerIndex_

section Reader
variable {b after : MsgBuffer}

/-- Room is made behind the bytes, or in front of them all but `kCheapPrepend`. -/
theorem makeSpace_reader {len : Nat} (made : b.makeSpace len = some after) :
    min kCheapPrepend b.readerIndex_ ≤ after.readerIndex_ := by
  obtain ⟨_,rfl⟩ | ⟨_,rfl⟩ := MsgBuffer.makeSpace_cases made
  · exact Nat.min_le_right _ _
  · exact Nat.min_le_left _ _

theorem ensureWritableBytes_reader {len : Nat} (ensured : b.ensureWritableBytes len = some after) :
    min kCheapPrepend b.readerIndex_ ≤ after.readerIndex_ := by
  obtain ⟨rfl | ⟨_,made⟩,_⟩ := MsgBuffer.ensureWritableBytes_cases ensured
  · exact Nat.min_le_right _ _
  · exact makeSpace_reader made

theorem append_reader {data : List UInt8} (appended : b.append data = some after) :
    min kCheapPrepend b.readerIndex_ ≤ after.readerIndex_ := by
  obtain ⟨roomy,ensured,rfl⟩ := MsgBuffer.append_cases appended
  have reader := ensureWritableBytes_reader ensured
  exact reader

theorem readFd_reader {data : List UInt8} (read : b.readFd data = some after) :
    min kCheapPrepend b.readerIndex_ ≤ after.readerIndex_ := by
  rw [MsgBuffer.readFd] at read
  dsimp only at read
  split at read
  · cases read
    exact Nat.min_le_right _ _
  · have reader := append_reader read
    exact reader

theorem retrieve_reader {len : Nat} (taken : b.retrieve len = some after) :
    after.readerIndex_ = if len < b.readableBytes then b.readerIndex_ + len else kCheapPrepend := by
  rw [MsgBuffer.retrieve] at taken
  split at taken
  · split at taken
    · next part => cases taken; rw [if_pos part]
    · next part => cases taken; rw [if_neg part]; rfl
  · cases taken

end Reader

section Operations
variable {b : MsgBuffer} {q : ByteQueue}

theorem Represents.length (represents : Represents b q) : b.readableBytes = q.contents.length := by
  rw [← represents.contents,represents.ordered.readable_length]

theorem initial_represents (size : Nat) : Represents (.initial size) empty :=
  ⟨MsgBuffer.initial_ordered size,MsgBuffer.initial_readable size,Nat.le_refl _⟩

/-- What leaves the contents alone, or adds to their end, may move them but not into the reserve. -/
theorem Represents.pushed {after : MsgBuffer} {data : List UInt8} (represents : Represents b q) (ordered : after.Ordered)
    (readable : after.readable = b.readable ++ data) (reader : min kCheapPrepend b.readerIndex_ ≤ after.readerIndex_) :
    Represents after (q.push data) := by
  refine ⟨ordered,?_,?_⟩
  · rw [readable,represents.contents]
    rfl
  · exact Nat.le_trans (Nat.le_min.mpr ⟨q.small,represents.reserve⟩) reader

theorem Represents.append (represents : Represents b q) (data : List UInt8) (sized : data.length ≤ kMaxSize) :
    ∃ after, b.append data = some after ∧ Represents after (q.push data) := by
  obtain ⟨after,appended⟩ := represents.ordered.append_room data sized
  obtain ⟨ordered,readable⟩ := represents.ordered.append appended
  exact ⟨after,appended,represents.pushed ordered readable (append_reader appended)⟩

theorem Represents.readFd (represents : Represents b q) (data : List UInt8) (sized : data.length ≤ kMaxSize) :
    ∃ after, b.readFd data = some after ∧ Represents after (q.push data) := by
  obtain ⟨after,read⟩ := represents.ordered.readFd_room data (Nat.le_trans (Nat.sub_le _ _) sized)
  obtain ⟨ordered,readable⟩ := represents.ordered.readFd read
  exact ⟨after,read,represents.pushed ordered readable (readFd_reader read)⟩

theorem Represents.ensureWritableBytes (represents : Represents b q) (len : Nat) (sized : len ≤ kMaxSize) :
    ∃ after, b.ensureWritableBytes len = some after ∧ Represents after q := by
  obtain ⟨after,ensured⟩ := represents.ordered.ensureWritableBytes_room len sized
  obtain ⟨ordered,same,_⟩ := represents.ordered.ensureWritableBytes ensured
  refine ⟨after,ensured,ordered,same.trans represents.contents,?_⟩
  exact Nat.le_trans (Nat.le_min.mpr ⟨q.small,represents.reserve⟩) (ensureWritableBytes_reader ensured)

theorem Represents.prepend (represents : Represents b q) (data : List UInt8) (fits : data.length ≤ q.reserve) :
    ∃ after, b.prepend data = some after ∧ Represents after
      ⟨data ++ q.contents,q.reserve - data.length,Nat.le_trans (Nat.sub_le _ _) q.small⟩ := by
  have room : data.length ≤ b.prependableBytes := Nat.le_trans fits represents.reserve
  obtain ⟨after,prepended,ordered,readable⟩ := represents.ordered.prepended data room
  refine ⟨after,prepended,ordered,?_,?_⟩
  · rw [readable,represents.contents]
  · rw [MsgBuffer.prepend,if_pos room] at prepended
    cases prepended
    exact Nat.sub_le_sub_right represents.reserve _

theorem Represents.retrieve (represents : Represents b q) (len : Nat) (fits : len ≤ q.contents.length) :
    ∃ after, b.retrieve len = some after ∧ Represents after (q.drop len) := by
  have length := represents.length
  obtain ⟨after,taken,ordered,readable⟩ := represents.ordered.retrieve len (by omega)
  refine ⟨after,taken,ordered,?_,?_⟩
  · rw [readable,represents.contents,ByteQueue.drop]
    split
    · rfl
    · exact List.drop_eq_nil_of_le (by omega)
  · rw [retrieve_reader taken,length,ByteQueue.drop]
    have reserve := represents.reserve
    split
    · exact Nat.le_trans (Nat.min_le_right _ _) (Nat.add_le_add_right reserve len)
    · exact Nat.le_refl _

theorem Represents.retrieveAll (represents : Represents b q) : Represents b.retrieveAll empty :=
  ⟨represents.ordered.retrieveAll,MsgBuffer.retrieveAll_readable b,Nat.le_refl _⟩

theorem Represents.front (represents : Represents b q) (len : Nat) (fits : len ≤ q.contents.length) :
    (b.buffer_.drop b.readerIndex_).take len = q.contents.take len := by
  rw [← represents.contents,MsgBuffer.readable,List.take_take,Nat.min_eq_left]
  rw [represents.length]
  exact fits

theorem Represents.readInt (represents : Represents b q) (size : Nat) (fits : size ≤ q.contents.length) :
    ∃ after, b.readInt size = some (MsgBuffer.signed (q.contents.take size),after) ∧ Represents after (q.drop size) := by
  obtain ⟨after,taken,further⟩ := represents.retrieve size fits
  refine ⟨after,?_,further⟩
  have bound : size ≤ b.readableBytes := by
    rw [represents.length]
    exact fits
  simp [MsgBuffer.readInt,MsgBuffer.peekInt,bound,taken,represents.front size fits]

theorem Represents.unwrite (represents : Represents b q) (len : Nat) (fits : len ≤ q.contents.length) :
    ∃ after, b.unwrite len = some after ∧
      Represents after { q with contents := q.contents.take (q.contents.length - len) } := by
  have length := represents.length
  obtain ⟨after,taken,ordered,readable⟩ := represents.ordered.unwrite len (by omega)
  refine ⟨after,taken,ordered,?_,?_⟩
  · rw [readable,represents.contents,length]
  · rw [MsgBuffer.unwrite,if_pos (by omega)] at taken
    cases taken
    exact represents.reserve

/-- A search from `start` on, with the place it finds. -/
theorem Represents.findFrom (represents : Represents b q) (pat : List UInt8) (start : Nat) :
    (b.findFrom pat (b.readerIndex_ + start)).map (fun found => (Out.place (found.map (· - b.readerIndex_)),b)) =
      (q.look pat start).map fun out => (out.1,b) := by
  have length := represents.length
  have order := represents.ordered.reader
  simp only [MsgBuffer.readableBytes] at length
  have range : ((b.buffer_.drop (b.readerIndex_ + start)).take (b.writerIndex_ - (b.readerIndex_ + start))) =
      q.contents.drop start := by
    rw [← represents.contents,MsgBuffer.readable,MsgBuffer.readableBytes,List.drop_take,List.drop_drop,Nat.sub_sub]
  rw [MsgBuffer.findFrom,look]
  by_cases inside : start ≤ q.contents.length
  · rw [if_pos (by omega),if_pos inside]
    simp only [MsgBuffer.search,range,Option.map_some,Option.map_map]
    congr 4
    funext place
    simp only [Function.comp]
    omega
  · rw [if_neg (by omega),if_neg inside]
    rfl

/-- Whether the operation needs room in front of the bytes. -/
def Op.prepends : Op → Bool
  | .prepend _ | .prependInt _ _ => true
  | _ => false

/-- One operation on both: they agree, or both refuse. The buffer may do a `prepend` for which there
happens to be more room than is certain. -/
inductive Agrees (op : Op) : Option (Out × MsgBuffer) → Option (Out × ByteQueue) → Prop
  | both (out : Out) (b : MsgBuffer) (q : ByteQueue) (represents : Represents b q) :
    Agrees op (some (out,b)) (some (out,q))
  | refused : Agrees op none none
  | lucky (out : Out) (b : MsgBuffer) (prepends : op.prepends = true) : Agrees op (some (out,b)) none

theorem take_agrees (op : Op) (len : Nat) (out : Out) {result : Option (Out × MsgBuffer)}
    (fits : len ≤ q.contents.length → ∃ after, result = some (out,after) ∧ Represents after (q.drop len))
    (short : ¬len ≤ q.contents.length → result = none) : Agrees op result (q.take len out) := by
  rw [ByteQueue.take]
  by_cases enough : len ≤ q.contents.length
  · obtain ⟨after,ran,further⟩ := fits enough
    rw [if_pos enough,ran]
    exact .both out after _ further
  · rw [if_neg enough,short enough]
    exact .refused

theorem Represents.unshift (represents : Represents b q) (op : Op) (prepends : op.prepends = true) (data : List UInt8) :
    Agrees op ((b.prepend data).map fun after => (.done,after)) (q.unshift data) := by
  rw [ByteQueue.unshift]
  by_cases fits : data.length ≤ q.reserve
  · obtain ⟨after,prepended,further⟩ := represents.prepend data fits
    rw [if_pos fits,prepended]
    exact .both .done after _ further
  · rw [if_neg fits]
    cases b.prepend data with
    | none => exact .refused
    | some after => exact .lucky .done after prepends

theorem Represents.look (represents : Represents b q) (op : Op) (pat : List UInt8) (start : Nat) :
    Agrees op ((b.findFrom pat (b.readerIndex_ + start)).map fun found => (.place (found.map (· - b.readerIndex_)),b))
      (q.look pat start) := by
  rw [represents.findFrom pat start,ByteQueue.look]
  split
  · exact .both _ b q represents
  · exact .refused

/-- Every operation that wants no more than a vector holds does on the vector what it does on the queue. -/
theorem run_agrees (represents : Represents b q) (op : Op) (sized : op.room ≤ kMaxSize) :
    Agrees op (run b op) (q.spec op) := by
  have length := represents.length
  have refuses : ∀ len, ¬len ≤ q.contents.length → b.retrieve len = none := fun len short =>
    if_neg (by rw [length]; exact short)
  have strings : ∀ len, len ≤ q.contents.length →
      ∃ after, b.retrieveAsString len = some (q.contents.take len,after) ∧ Represents after (q.drop len) := by
    intro len fits
    obtain ⟨after,taken,further⟩ := represents.retrieve len fits
    refine ⟨after,?_,further⟩
    rw [MsgBuffer.retrieveAsString,if_pos (by omega),taken,represents.front len fits]
    rfl
  cases op with
  | append data =>
    obtain ⟨after,done,further⟩ := represents.append data sized
    rw [run,done]
    exact .both .done after _ further
  | readFd data =>
    obtain ⟨after,done,further⟩ := represents.readFd data sized
    rw [run,done]
    exact .both .done after _ further
  | appendInt8 x =>
    obtain ⟨after,done,further⟩ := represents.append (MsgBuffer.network 1 x) (by rw [MsgBuffer.network_length]; exact sized)
    rw [run,MsgBuffer.appendInt8,done]
    exact .both .done after _ further
  | ensureWritableBytes len =>
    obtain ⟨after,done,further⟩ := represents.ensureWritableBytes len sized
    rw [run,done]
    exact .both .done after _ further
  | prepend data => exact represents.unshift _ rfl data
  | prependInt size x => exact represents.unshift _ rfl _
  | unwrite len =>
    rw [run,spec]
    by_cases fits : len ≤ q.contents.length
    · obtain ⟨after,done,further⟩ := represents.unwrite len fits
      rw [if_pos fits,done]
      exact .both .done after _ further
    · rw [if_neg fits,MsgBuffer.unwrite,if_neg (by omega)]
      exact .refused
  | retrieve len =>
    refine take_agrees _ len .done (fun fits => ?_) fun short => by rw [run,refuses len short]; rfl
    obtain ⟨after,taken,further⟩ := represents.retrieve len fits
    exact ⟨after,by rw [run,taken]; rfl,further⟩
  | retrieveUntil len =>
    have order := represents.ordered.reader
    simp only [MsgBuffer.readableBytes] at length
    have distance : b.readerIndex_ + len - b.readerIndex_ = len := Nat.add_sub_cancel_left _ _
    refine take_agrees _ len .done (fun fits => ?_) fun short => ?_
    · obtain ⟨after,taken,further⟩ := represents.retrieve len fits
      refine ⟨after,?_,further⟩
      rw [run,MsgBuffer.retrieveUntil,if_pos (by omega),distance,taken]
      rfl
    · rw [run,MsgBuffer.retrieveUntil,if_neg (by omega)]
      rfl
  | retrieveAll => exact .both .done _ _ represents.retrieveAll
  | retrieveAsString len =>
    refine take_agrees _ len _ (fun fits => ?_) fun short => ?_
    · obtain ⟨after,taken,further⟩ := strings len fits
      exact ⟨after,by rw [run,taken]; rfl,further⟩
    · rw [run,MsgBuffer.retrieveAsString,if_neg (by omega)]
      rfl
  | retrieveAllAsString =>
    obtain ⟨after,taken,further⟩ := strings _ (Nat.le_refl _)
    rw [List.take_length] at taken
    rw [ByteQueue.drop,if_neg (Nat.lt_irrefl _)] at further
    rw [run,MsgBuffer.retrieveAllAsString,length,taken]
    exact .both _ after _ further
  | readInt size =>
    refine take_agrees _ size _ (fun fits => ?_) fun short => ?_
    · obtain ⟨after,taken,further⟩ := represents.readInt size fits
      exact ⟨after,by rw [run,taken]; rfl,further⟩
    · rw [run,MsgBuffer.readInt,MsgBuffer.peekInt,if_neg (by omega)]
      rfl
  | peekInt size =>
    rw [run,spec,MsgBuffer.peekInt]
    by_cases fits : size ≤ q.contents.length
    · rw [if_pos fits,if_pos (by omega),represents.front size fits]
      exact .both _ b q represents
    · rw [if_neg fits,if_neg (by omega)]
      exact .refused
  | findCRLF start => exact represents.look _ _ start
  | findEOL start => exact represents.look _ _ start

end Operations

section Runs
variable {b : MsgBuffer} {q : ByteQueue}

/-- What the queue does, the vector does, with the same answers. -/
theorem runs_forward (ops : List Op) (sized : ∀ op ∈ ops, op.room ≤ kMaxSize) (represents : Represents b q)
    (outs : List Out) (last : ByteQueue) (ran : runs spec ops q = some (outs,last)) : ∃ after, runs run ops b = some (outs,after) ∧ Represents after last := by
  induction ops generalizing b q outs with
  | nil =>
    cases ran
    exact ⟨b,rfl,represents⟩
  | cons op ops ih =>
    obtain ⟨⟨out,next⟩,stepped,more⟩ := Option.bind_eq_some_iff.mp ran
    obtain ⟨⟨rest,last'⟩,further,same⟩ := Option.map_eq_some_iff.mp more
    cases same
    have agrees := run_agrees represents op (sized op List.mem_cons_self)
    rw [stepped] at agrees
    generalize here : run b op = result at agrees
    cases agrees with
    | both out after next kept =>
      obtain ⟨final,ran,represents⟩ := ih (fun other among => sized other (List.mem_cons_of_mem _ among)) kept rest
        further
      exact ⟨final,by rw [runs,here,Option.bind_some,ran]; rfl,represents⟩

end Runs

section Capacity
variable {b after : MsgBuffer}

theorem makeSpace_capacity {len : Nat} (ordered : b.Ordered) (made : b.makeSpace len = some after) :
    after.buffer_.length ≤ max b.buffer_.length (b.readableBytes + 2 * len + 7) := by
  have length := ordered.readable_length
  obtain ⟨prepend,reader,writer⟩ := ordered
  obtain ⟨tight,rfl⟩ | ⟨_,rfl⟩ := MsgBuffer.makeSpace_cases made
  · have tight := Nat.lt_of_lt_of_le tight (Nat.mod_le _ _)
    simp only [MsgBuffer.writableBytes,MsgBuffer.prependableBytes,kCheapPrepend] at tight
    rw [MsgBuffer.resize_length,MsgBuffer.readableBytes]
    omega
  · rw [MsgBuffer.copy_length]
    · exact Nat.le_max_left _ _
    · rw [length,MsgBuffer.readableBytes]
      omega

theorem ensureWritableBytes_capacity {len : Nat} (ordered : b.Ordered) (ensured : b.ensureWritableBytes len = some after) :
    after.buffer_.length ≤ max b.buffer_.length (b.readableBytes + 2 * len + 7) := by
  obtain ⟨rfl | ⟨_,made⟩,_⟩ := MsgBuffer.ensureWritableBytes_cases ensured
  · exact Nat.le_max_left _ _
  · exact makeSpace_capacity ordered made

theorem append_capacity {data : List UInt8} (ordered : b.Ordered) (appended : b.append data = some after) :
    after.buffer_.length ≤ max b.buffer_.length (b.readableBytes + 2 * data.length + 7) := by
  obtain ⟨roomy,ensured,rfl⟩ := MsgBuffer.append_cases appended
  obtain ⟨sorted,_,room⟩ := ordered.ensureWritableBytes ensured
  have writer := sorted.writer
  simp only [MsgBuffer.writableBytes] at room
  rw [MsgBuffer.copy_length _ _ _ (by omega)]
  exact ensureWritableBytes_capacity ordered ensured

theorem readFd_capacity {data : List UInt8} (ordered : b.Ordered) (read : b.readFd data = some after) :
    after.buffer_.length ≤ max b.buffer_.length (b.readableBytes + 2 * data.length + 7) := by
  have writer := ordered.writer
  rw [MsgBuffer.readFd] at read
  dsimp only at read
  split at read
  · next fits =>
    cases read
    rw [MsgBuffer.writableBytes] at fits
    rw [MsgBuffer.copy_length]
    · exact Nat.le_max_left _ _
    · rw [List.length_take,MsgBuffer.writableBytes]
      omega
  · next long =>
    have length : (data.take b.writableBytes).length = b.writableBytes := by
      rw [List.length_take]
      omega
    have size : (MsgBuffer.copy (data.take b.writableBytes) b.writerIndex_ b.buffer_).length = b.buffer_.length := by
      rw [MsgBuffer.copy_length]
      rw [length,MsgBuffer.writableBytes]
      omega
    have bound := append_capacity (ordered.filled data long).1 read
    simp only [size,MsgBuffer.readableBytes,List.length_drop] at bound
    simp only [MsgBuffer.writableBytes,MsgBuffer.readableBytes] at bound long ⊢
    omega

theorem retrieveAsString_buffer {len : Nat} {taken : List UInt8 × MsgBuffer}
    (ran : b.retrieveAsString len = some taken) : taken.2.buffer_ = b.buffer_ := by
  obtain ⟨_,more⟩ := Option.ite_none_right_eq_some.mp ran
  obtain ⟨after,retrieved,same⟩ := Option.map_eq_some_iff.mp more
  cases same
  exact MsgBuffer.retrieve_buffer retrieved

theorem prepend_capacity {data : List UInt8} (ordered : b.Ordered) (prepended : b.prepend data = some after) :
    after.Ordered ∧ after.buffer_.length = b.buffer_.length := by
  have fits : data.length ≤ b.prependableBytes := (Option.ite_none_right_eq_some.mp prepended).1
  obtain ⟨same,how,sorted,_⟩ := ordered.prepended data fits
  rw [prepended] at how
  cases how
  refine ⟨sorted,?_⟩
  rw [MsgBuffer.prepend,if_pos fits] at prepended
  cases prepended
  have reader := ordered.reader
  have writer := ordered.writer
  rw [MsgBuffer.prependableBytes] at fits
  exact MsgBuffer.copy_length _ _ _ (by omega)

theorem represents_itself (ordered : b.Ordered) :
    Represents b ⟨b.readable,min kCheapPrepend b.readerIndex_,Nat.min_le_left _ _⟩ :=
  ⟨ordered,rfl,Nat.min_le_right _ _⟩

theorem run_ordered {op : Op} {out : Out} (ordered : b.Ordered) (ran : run b op = some (out,after)) : after.Ordered := by
  have agrees := run_agrees (represents_itself ordered) op
  rw [ran] at agrees
  generalize spec _ op = expected at agrees
  cases op with
  | append data =>
    obtain ⟨made,how,same⟩ := Option.map_eq_some_iff.mp ran
    cases same
    exact (ordered.append how).1
  | appendInt8 x =>
    obtain ⟨made,how,same⟩ := Option.map_eq_some_iff.mp ran
    cases same
    have appended : b.append (MsgBuffer.network 1 x) = some _ := how
    exact (ordered.append appended).1
  | ensureWritableBytes len =>
    obtain ⟨made,how,same⟩ := Option.map_eq_some_iff.mp ran
    cases same
    exact (ordered.ensureWritableBytes how).1
  | readFd data =>
    obtain ⟨made,how,same⟩ := Option.map_eq_some_iff.mp ran
    cases same
    exact (ordered.readFd how).1
  | prepend data | prependInt size x =>
    obtain ⟨made,how,same⟩ := Option.map_eq_some_iff.mp ran
    cases same
    exact (prepend_capacity ordered how).1
  -- the others want no room behind the bytes
  | _ =>
    cases agrees (Nat.zero_le _) with
    | both _ _ q represents => exact represents.ordered
    | lucky _ _ prepends => cases prepends

/-- The vector grows only for an operation that wants more room than there is, and to less than the
bytes and twice that room. -/
theorem run_capacity {op : Op} {out : Out} (ordered : b.Ordered) (ran : run b op = some (out,after)) :
    after.buffer_.length ≤ max b.buffer_.length (b.readableBytes + 2 * op.room + 7) := by
  have kept : ∀ {made : MsgBuffer}, made.buffer_ = b.buffer_ →
      made.buffer_.length ≤ max b.buffer_.length (b.readableBytes + 2 * op.room + 7) := by
    intro made same
    rw [same]
    exact Nat.le_max_left _ _
  cases op with
  | append data =>
    obtain ⟨made,how,same⟩ := Option.map_eq_some_iff.mp ran
    cases same
    exact append_capacity ordered how
  | appendInt8 x =>
    obtain ⟨made,how,same⟩ := Option.map_eq_some_iff.mp ran
    cases same
    have appended : b.append (MsgBuffer.network 1 x) = some _ := how
    exact append_capacity ordered appended
  | ensureWritableBytes len =>
    obtain ⟨made,how,same⟩ := Option.map_eq_some_iff.mp ran
    cases same
    exact ensureWritableBytes_capacity ordered how
  | readFd data =>
    obtain ⟨made,how,same⟩ := Option.map_eq_some_iff.mp ran
    cases same
    exact readFd_capacity ordered how
  | prepend data | prependInt size x =>
    obtain ⟨made,how,same⟩ := Option.map_eq_some_iff.mp ran
    cases same
    rw [(prepend_capacity ordered how).2]
    exact Nat.le_max_left _ _
  | unwrite len =>
    obtain ⟨made,how,same⟩ := Option.map_eq_some_iff.mp ran
    cases same
    obtain ⟨_,done⟩ := Option.ite_none_right_eq_some.mp how
    cases done
    exact kept rfl
  | retrieve len =>
    obtain ⟨made,how,same⟩ := Option.map_eq_some_iff.mp ran
    cases same
    exact kept (MsgBuffer.retrieve_buffer how)
  | retrieveUntil end_ =>
    obtain ⟨made,how,same⟩ := Option.map_eq_some_iff.mp ran
    cases same
    exact kept (MsgBuffer.retrieve_buffer (Option.ite_none_right_eq_some.mp how).2)
  | retrieveAll =>
    cases ran
    exact kept rfl
  | retrieveAsString len | retrieveAllAsString =>
    obtain ⟨made,how,same⟩ := Option.map_eq_some_iff.mp ran
    cases same
    exact kept (retrieveAsString_buffer how)
  | readInt size =>
    obtain ⟨made,how,same⟩ := Option.map_eq_some_iff.mp ran
    cases same
    obtain ⟨x,_,more⟩ := Option.bind_eq_some_iff.mp how
    obtain ⟨taken,retrieved,done⟩ := Option.bind_eq_some_iff.mp more
    cases done
    exact kept (MsgBuffer.retrieve_buffer retrieved)
  | peekInt size | findCRLF start | findEOL start =>
    obtain ⟨made,how,same⟩ := Option.map_eq_some_iff.mp ran
    cases same
    exact kept rfl

/-- A run in which there are never more than `unread` bytes and no operation wants room for more
than `most`. -/
def Within (unread most : Nat) : List Op → MsgBuffer → Prop
  | [],_ => True
  | op :: ops,b => b.readableBytes ≤ unread ∧ op.room ≤ most ∧
      ∀ out after, run b op = some (out,after) → Within unread most ops after

/-- However long it is used, the buffer's vector stays within the bytes left unread at any time and
twice the largest piece that came in, or within what it had to begin with. -/
theorem capacity_bounded (unread most : Nat) (ops : List Op) (b : MsgBuffer) (ordered : b.Ordered)
    (within : Within unread most ops b) (outs : List Out) (after : MsgBuffer)
    (ran : runs run ops b = some (outs,after)) :
    after.buffer_.length ≤ max b.buffer_.length (unread + 2 * most + 7) := by
  induction ops generalizing b outs with
  | nil =>
    cases ran
    exact Nat.le_max_left _ _
  | cons op ops ih =>
    obtain ⟨⟨out,next⟩,stepped,more⟩ := Option.bind_eq_some_iff.mp ran
    obtain ⟨⟨rest,last⟩,further,same⟩ := Option.map_eq_some_iff.mp more
    cases same
    obtain ⟨few,small,later⟩ := within
    have here := run_capacity ordered stepped
    have there := ih next (run_ordered ordered stepped) (later out next stepped) rest further
    omega

def piecesOps : List Op := [.append [1,2,3,4,5],.retrieve 5,.readFd [6,7,8,9,10],.retrieve 5,.append [11,12,13]]

theorem capacity_bounded_pieces :
    ∃ outs after, runs run piecesOps (.initial 2) = some (outs,after) ∧
      after.buffer_.length ≤ max (MsgBuffer.initial 2).buffer_.length (5 + 2 * 5 + 7) := by
  refine ⟨_,_,rfl,capacity_bounded 5 5 piecesOps (.initial 2) (MsgBuffer.initial_ordered 2) ?_ _ _ rfl⟩
  refine ⟨by decide,by decide,?_⟩
  rintro _ _ ⟨⟩
  refine ⟨by decide,by decide,?_⟩
  rintro _ _ ⟨⟩
  refine ⟨by decide,by decide,?_⟩
  rintro _ _ ⟨⟩
  refine ⟨by decide,by decide,?_⟩
  rintro _ _ ⟨⟩
  exact ⟨by decide,by decide,fun _ _ _ => trivial⟩

end Capacity
end ByteQueue
end Tmms.Network
