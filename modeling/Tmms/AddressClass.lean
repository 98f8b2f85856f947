import Tmms.AddressRoundTrip
import Tmms.DottedQuad

/-! The classes of IPv4 addresses. The middle one of the three private ranges begins with 17 where it
should begin with 172, so that one network in the private range is outside, and one outside is in it. -/
namespace Tmms.Network.InetAddress
open DottedQuad

def s_addr (q : Quad) : BitVec 32 := q.d ++ q.c ++ q.b ++ q.a

def inet_pton (ip : List Char) : Option (BitVec 32) := (parse ip).map s_addr

def inet_ntop (addr : BitVec 32) : List Char :=
  Quad.text ⟨addr.extractLsb' 0 8,addr.extractLsb' 8 8,addr.extractLsb' 16 8,addr.extractLsb' 24 8⟩

def ntohl (netlong : BitVec 32) : BitVec 32 :=
  netlong.extractLsb' 0 8 ++ netlong.extractLsb' 8 8 ++ netlong.extractLsb' 16 8 ++ netlong.extractLsb' 24 8

/-- What a C function reads of a string. -/
def c_str (s : List Char) : List Char := s.takeWhile (· ≠ Char.ofNat 0)

def INADDR_LOOPBACK : BitVec 32 := 0x7f000001

/-- `IPv4(const char *ip)`, where text that is not converted leaves the address zero. -/
def iPv4OfText (ip : List Char) : BitVec 32 := ntohl ((inet_pton ip).getD 0)

def iPv4 (a : InetAddress) : BitVec 32 := iPv4OfText (c_str a.addr_)

def isWanIp (a : InetAddress) : Bool :=
  let a_start := iPv4OfText ['1','0','.','0','.','0','.','0']
  let a_end := iPv4OfText ['1','0','.','2','5','5','.','2','5','5','.','2','5','5']
  let b_start := iPv4OfText ['1','7','.','1','6','.','0','.','0']
  let b_end := iPv4OfText ['1','7','.','3','1','.','2','5','5','.','2','5','5']
  let c_start := iPv4OfText ['1','9','2','.','1','6','8','.','0','.','0']
  let c_end := iPv4OfText ['1','9','2','.','1','6','8','.','2','5','5','.','2','5','5']
  let ip := a.iPv4
  let is_a := decide (ip ≥ a_start) && decide (ip ≤ a_end)
  let is_b := decide (ip ≥ b_start) && decide (ip ≤ b_end)
  let is_c := decide (ip ≥ c_start) && decide (ip ≤ c_end)
  !is_a && !is_b && !is_c && ip != INADDR_LOOPBACK

def isLanIp (a : InetAddress) : Bool :=
  let a_start := iPv4OfText ['1','0','.','0','.','0','.','0']
  let a_end := iPv4OfText ['1','0','.','2','5','5','.','2','5','5','.','2','5','5']
  let b_start := iPv4OfText ['1','7','.','1','6','.','0','.','0']
  let b_end := iPv4OfText ['1','7','.','3','1','.','2','5','5','.','2','5','5']
  let c_start := iPv4OfText ['1','9','2','.','1','6','8','.','0','.','0']
  let c_end := iPv4OfText ['1','9','2','.','1','6','8','.','2','5','5','.','2','5','5']
  let ip := a.iPv4
  let is_a := decide (ip ≥ a_start) && decide (ip ≤ a_end)
  let is_b := decide (ip ≥ b_start) && decide (ip ≤ b_end)
  let is_c := decide (ip ≥ c_start) && decide (ip ≤ c_end)
  is_a || is_b || is_c

def isLoopbackIp (a : InetAddress) : Bool := a.addr_ = ['1','2','7','.','0','.','0','.','1']

def classA : Quad := ⟨10,0,0,0⟩
def classB : Quad := ⟨172,16,0,0⟩
def classC : Quad := ⟨192,168,0,0⟩

/-- Where the table has its middle range. -/
def tabled : Quad := ⟨17,16,0,0⟩

section System

theorem ntohl_s_addr (q : Quad) : ntohl (s_addr q) = q.value := by
  have a : (s_addr q).extractLsb' 0 8 = q.a := BitVec.extractLsb'_append_eq_right
  have b : (s_addr q).extractLsb' 8 8 = q.b :=
    (BitVec.extractLsb'_append_eq_of_le (by decide)).trans BitVec.extractLsb'_append_eq_right
  have c : (s_addr q).extractLsb' 16 8 = q.c :=
    (BitVec.extractLsb'_append_eq_of_le (by decide)).trans
      ((BitVec.extractLsb'_append_eq_of_le (by decide)).trans BitVec.extractLsb'_append_eq_right)
  have d : (s_addr q).extractLsb' 24 8 = q.d :=
    (BitVec.extractLsb'_append_eq_of_le (by decide)).trans
      ((BitVec.extractLsb'_append_eq_of_le (by decide)).trans BitVec.extractLsb'_append_eq_left)
  rw [ntohl,a,b,c,d]
  rfl

theorem s_addr_octets (addr : BitVec 32) :
    s_addr ⟨addr.extractLsb' 0 8,addr.extractLsb' 8 8,addr.extractLsb' 16 8,addr.extractLsb' 24 8⟩ = addr := by
  have high : addr.extractLsb' 24 8 ++ addr.extractLsb' 16 8 = addr.extractLsb' 16 (8 + 8) :=
    BitVec.extractLsb'_append_extractLsb'_eq_extractLsb' rfl
  have upper : addr.extractLsb' 16 (8 + 8) ++ addr.extractLsb' 8 8 = addr.extractLsb' 8 (8 + 8 + 8) :=
    BitVec.extractLsb'_append_extractLsb'_eq_extractLsb' rfl
  have whole : addr.extractLsb' 8 (8 + 8 + 8) ++ addr.extractLsb' 0 8 = addr.extractLsb' 0 (8 + 8 + 8 + 8) :=
    BitVec.extractLsb'_append_extractLsb'_eq_extractLsb' rfl
  rw [s_addr]
  dsimp only
  rw [high,upper,whole]
  exact BitVec.extractLsb'_eq_self

/-- The system's conversions invert each other, as the round trips suppose. -/
theorem inet_pton_inverts (inet : Inet) (port : BitVec 16) (addr : BitVec 32) :
    Inet.Inverts { inet with inet_ntop,inet_pton } (.sockaddr_in port addr) := by
  change inet_pton (inet_ntop addr) = some addr
  rw [inet_pton,inet_ntop,parse_text,Option.map_some,s_addr_octets]

theorem inet_pton_decimal {ip : List Char} {addr : BitVec 32} (read : inet_pton ip = some addr) : ':' ∉ ip := by
  obtain ⟨q,parsed,_⟩ := Option.map_eq_some_iff.mp read
  rw [parse_eq_some.mp parsed]
  exact not_mem_text (by decide) (by decide)

end System
section Held
variable {a : InetAddress} {q : Quad}

theorem c_str_text (q : Quad) : c_str q.text = q.text := by
  refine List.takeWhile_eq_self_iff.mpr fun c among => decide_eq_true ?_
  rintro rfl
  exact not_mem_text (by decide) (by decide) among

theorem iPv4OfText_text (q : Quad) : iPv4OfText q.text = q.value := by
  rw [iPv4OfText,inet_pton,parse_text]
  exact ntohl_s_addr q

theorem iPv4_held (held : a.addr_ = q.text) : a.iPv4 = q.value := by
  rw [iPv4,held,c_str_text,iPv4OfText_text]

/-- Comparing with the first and the last address of a network. -/
theorem range_eq {start end_ : List Char} (held : a.addr_ = q.text) (net last : Quad) (bits : Nat)
    (first : start = net.text) (final : end_ = last.text) (whole : net.value.toNat % 2 ^ (32 - bits) = 0)
    (wide : last.value.toNat + 1 = net.value.toNat + 2 ^ (32 - bits)) :
    (decide (a.iPv4 ≥ iPv4OfText start) && decide (a.iPv4 ≤ iPv4OfText end_)) = decide (q.Within net bits) := by
  rw [iPv4_held held,first,final,iPv4OfText_text,iPv4OfText_text,← Bool.decide_and]
  exact decide_eq_decide.mpr (within_iff whole wide).symm

theorem isLanIp_held (held : a.addr_ = q.text) :
    a.isLanIp = true ↔ (q.Within classA 8 ∨ q.Within tabled 12) ∨ q.Within classC 16 := by
  have table : a.isLanIp = ((decide (q.Within classA 8) || decide (q.Within tabled 12)) ||
      decide (q.Within classC 16)) :=
    congrArg₂ or
      (congrArg₂ or (range_eq held classA ⟨10,255,255,255⟩ 8 rfl rfl (by decide) (by decide))
        (range_eq held tabled ⟨17,31,255,255⟩ 12 rfl rfl (by decide) (by decide)))
      (range_eq held classC ⟨192,168,255,255⟩ 16 rfl rfl (by decide) (by decide))
  simp only [table,Bool.or_eq_true,decide_eq_true_iff]

/-- The two tables are the same. -/
theorem isWanIp_eq (a : InetAddress) : a.isWanIp = (!a.isLanIp && a.iPv4 != INADDR_LOOPBACK) := by
  simp only [isWanIp,isLanIp,Bool.not_or]

theorem isLoopbackIp_held (held : a.addr_ = q.text) : a.isLoopbackIp = true ↔ q = ⟨127,0,0,1⟩ := by
  have text : ['1','2','7','.','0','.','0','.','1'] = Quad.text ⟨127,0,0,1⟩ := rfl
  rw [isLoopbackIp,decide_eq_true_iff,held,text]
  exact ⟨text_injective,fun same => congrArg Quad.text same⟩

end Held

def Private (q : Quad) : Prop := q.Within classA 8 ∨ q.Within classB 12 ∨ q.Within classC 16

/-- The three questions are answered as they should be at the address `q`. -/
structure Partitioned (q : Quad) (a : InetAddress) : Prop where
  lan : a.isLanIp = true ↔ Private q
  loopback : a.isLoopbackIp = true ↔ q = ⟨127,0,0,1⟩
  one : [a.isLanIp,a.isWanIp,a.isLoopbackIp].count true = 1

section Partition
variable {a : InetAddress} {q : Quad}

/-- One answer is yes at every address, whether or not it is the right one. -/
theorem one_of_held (held : a.addr_ = q.text) : [a.isLanIp,a.isWanIp,a.isLoopbackIp].count true = 1 := by
  have same : a.iPv4 = INADDR_LOOPBACK ↔ a.isLoopbackIp = true := by
    rw [isLoopbackIp_held held,iPv4_held held]
    exact ⟨fun equal => value_injective equal,fun equal => equal ▸ rfl⟩
  have apart : a.isLoopbackIp = true → ¬a.isLanIp = true := by
    rw [isLoopbackIp_held held,isLanIp_held held]
    rintro rfl
    decide
  rw [isWanIp_eq]
  cases loopback : a.isLoopbackIp with
  | true =>
    have outside := Bool.eq_false_iff.mpr (apart loopback)
    have equal := same.mpr loopback
    simp [outside,equal]
  | false =>
    have different : a.iPv4 ≠ INADDR_LOOPBACK := fun equal => by simp [same.mp equal] at loopback
    cases lan : a.isLanIp <;> simp [different]

/-- The middle range is 172.16.0.0/12, and the table has 17.16.0.0/12. -/
theorem lan_iff (held : a.addr_ = q.text) :
    (a.isLanIp = true ↔ Private q) ↔ ¬q.Within classB 12 ∧ ¬q.Within tabled 12 := by
  rw [isLanIp_held held,Private]
  by_cases missed : q.Within classB 12
  · have notA : ¬q.Within classA 8 := fun other => absurd (other.nested missed (by decide)) (by decide)
    have other : ¬q.Within tabled 12 := fun other => absurd (other.nested missed (by decide)) (by decide)
    have notC : ¬q.Within classC 16 := fun other => absurd (missed.nested other (by decide)) (by decide)
    simp [missed,notA,other,notC]
  by_cases wrong : q.Within tabled 12
  · have notA : ¬q.Within classA 8 := fun other => absurd (other.nested wrong (by decide)) (by decide)
    have notC : ¬q.Within classC 16 := fun other => absurd (wrong.nested other (by decide)) (by decide)
    simp [missed,wrong,notA,notC]
  · simp [missed,wrong]

end Partition

/-- The classes are right at every address but those of the network in the private range that the
table leaves out and of the one that it has instead. -/
theorem partitioned_iff (a : InetAddress) (q : Quad) (held : a.addr_ = q.text) :
    Partitioned q a ↔ ¬q.Within classB 12 ∧ ¬q.Within tabled 12 := by
  rw [← lan_iff held]
  exact ⟨fun partitioned => partitioned.lan,fun lan => ⟨lan,isLoopbackIp_held held,one_of_held held⟩⟩

theorem partitioned_iff_usual :
    Partitioned ⟨192,168,1,1⟩ (ofIp ['1','9','2','.','1','6','8','.','1','.','1'] 80 false) :=
  (partitioned_iff _ ⟨192,168,1,1⟩ rfl).mpr (by decide)

/-- `172.16.0.1` is in a private network and is said to be outside, and `17.16.0.1` the other way. -/
theorem classes_slip :
    (Private ⟨172,16,0,1⟩ ∧ (ofIp ['1','7','2','.','1','6','.','0','.','1'] 80 false).isLanIp = false ∧
        (ofIp ['1','7','2','.','1','6','.','0','.','1'] 80 false).isWanIp = true ∧
        ¬Partitioned ⟨172,16,0,1⟩ (ofIp ['1','7','2','.','1','6','.','0','.','1'] 80 false)) ∧
      ¬Private ⟨17,16,0,1⟩ ∧ (ofIp ['1','7','.','1','6','.','0','.','1'] 80 false).isLanIp = true ∧
      ¬Partitioned ⟨17,16,0,1⟩ (ofIp ['1','7','.','1','6','.','0','.','1'] 80 false) := by
  have inside : Private ⟨172,16,0,1⟩ := Or.inr (Or.inl (by decide))
  have outside : ¬Private ⟨17,16,0,1⟩ := by
    rintro (one | one | one)
    all_goals exact absurd one (by decide)
  have missed : (ofIp ['1','7','2','.','1','6','.','0','.','1'] 80 false).isLanIp = false := by decide
  have wrong : (ofIp ['1','7','.','1','6','.','0','.','1'] 80 false).isLanIp = true := by decide
  refine ⟨⟨inside,missed,by decide,fun partitioned => ?_⟩,outside,wrong,fun partitioned => ?_⟩
  · have lan := partitioned.lan.mpr inside
    rw [missed] at lan
    cases lan
  · exact outside (partitioned.lan.mp wrong)

end Tmms.Network.InetAddress
