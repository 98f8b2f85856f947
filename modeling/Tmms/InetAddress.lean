import Mathlib.Data.BitVec
import Mathlib.Data.List.TakeWhile

/-! Internet addresses as text. The system's calls that turn an address into text and back
are given; the port is text too, and the family is a flag of its own. -/
namespace Tmms.Network

/-- `htons` and `ntohs` of a little-endian machine. -/
def swapBytes (port : BitVec 16) : BitVec 16 := (port <<< 8) ||| (port >>> 8)

def to_string (n : Nat) : List Char := Nat.toDigits 10 n

def isspace (c : Char) : Bool := c ∈ [' ','\t','\n',Char.ofNat 11,Char.ofNat 12,'\r']

def digits (s : List Char) : Nat := Nat.ofDigitChars 10 (s.takeWhile Char.isDigit) 0

/-- `std::atoi` of a numeral that fits in an `int`; of any other its result is undefined. -/
def atoi (s : List Char) : Int :=
  match s.dropWhile isspace with
  | '-' :: rest => -digits rest
  | '+' :: rest => digits rest
  | rest => digits rest

theorem swapBytes_swapBytes (port : BitVec 16) : swapBytes (swapBytes port) = port := by
  ext i bound
  simp only [swapBytes,BitVec.getElem_or,BitVec.getElem_shiftLeft,BitVec.getElem_ushiftRight,
    BitVec.getLsbD_or,BitVec.getLsbD_shiftLeft,BitVec.getLsbD_ushiftRight]
  have past : port.getLsbD (8 + (8 + i)) = false := BitVec.getLsbD_of_ge _ _ (by omega)
  by_cases low : i < 8
  · have inside : 8 + i < 16 := by omega
    have high : ¬8 + i < 8 := by omega
    simp [low,past,inside,high,BitVec.getLsbD_eq_getElem bound]
  · have outside : ¬8 + i < 16 := by omega
    have back : 8 + (i - 8) = i := by omega
    have high : i - 8 < 8 := by omega
    simp [low,past,outside,back,high,BitVec.getLsbD_eq_getElem bound]

theorem to_string_digit {n : Nat} {c : Char} (among : c ∈ to_string n) : c.isDigit = true :=
  Nat.isDigit_of_mem_toDigits (by decide) (by decide) among

theorem digits_to_string (n : Nat) : digits (to_string n) = n := by
  have all : (to_string n).takeWhile Char.isDigit = to_string n :=
    List.takeWhile_eq_self_iff.mpr fun c among => to_string_digit among
  rw [digits,all,to_string,Nat.ofDigitChars_ten_toDigits]

/-- A digit is neither a blank nor a sign. -/
theorem atoi_to_string (n : Nat) : atoi (to_string n) = n := by
  have whole := digits_to_string n
  cases text : to_string n with
  | nil => exact absurd text Nat.toDigits_ne_nil
  | cons c rest =>
    have digit : c.isDigit = true := to_string_digit (text ▸ List.mem_cons_self)
    have visible : isspace c = false := by
      rw [isspace,decide_eq_false_iff_not]
      intro among
      simp only [List.mem_cons,List.not_mem_nil,or_false] at among
      rcases among with rfl | rfl | rfl | rfl | rfl | rfl
      all_goals exact absurd digit (by decide)
    rw [text] at whole
    simp only [atoi,List.dropWhile_cons,visible,Bool.false_eq_true,if_false]
    split
    · next same =>
      cases same
      exact absurd digit (by decide)
    · next same =>
      cases same
      exact absurd digit (by decide)
    · next same => rw [whole]

/-- Unchanged on the way through text and back. -/
theorem port_kept (port : BitVec 16) : BitVec.ofInt 16 (atoi (to_string port.toNat)) = port := by
  rw [atoi_to_string,BitVec.ofInt_natCast,BitVec.ofNat_toNat,BitVec.setWidth_eq]

/-- A socket address, by its family; the address and the port in network byte order. Of
`sockaddr_in6` the flow and the scope are not kept. -/
inductive Sockaddr where
  | sockaddr_in (sin_port : BitVec 16) (sin_addr : BitVec 32)
  | sockaddr_in6 (sin6_port : BitVec 16) (sin6_addr : BitVec 128)
  | other (sa_family : Nat)
  deriving DecidableEq

/-- `inet_ntop` and `inet_pton` for each family; `none` where `inet_pton` stores nothing. -/
structure Inet where
  inet_ntop : BitVec 32 → List Char
  inet_pton : List Char → Option (BitVec 32)
  inet_ntop6 : BitVec 128 → List Char
  inet_pton6 : List Char → Option (BitVec 128)

/-- `inet_pton` inverts `inet_ntop` at this address. -/
def Inet.Inverts (inet : Inet) : Sockaddr → Prop
  | .sockaddr_in _ addr => inet.inet_pton (inet.inet_ntop addr) = some addr
  | .sockaddr_in6 _ addr => inet.inet_pton6 (inet.inet_ntop6 addr) = some addr
  | .other _ => True

structure InetAddress where
  addr_ : List Char
  port_ : List Char
  is_ipv6_ : Bool
  deriving DecidableEq

namespace InetAddress

def empty : InetAddress := ⟨[],[],false⟩

/-- `InetAddress(const std::string &ip, uint16_t port, bool bv6)` -/
def ofIp (ip : List Char) (port : BitVec 16) (bv6 : Bool) : InetAddress := ⟨ip,to_string port.toNat,bv6⟩

/-- `GetIpAndPort`: the host is cut at its first colon. Without one, `port` stays. -/
def getIpAndPort (host port : List Char) : List Char × List Char :=
  match host.findIdx? (· = ':') with
  | some pos => (host.take pos,host.drop (pos + 1))
  | none => (host,port)

def setHost (host : List Char) (a : InetAddress) : InetAddress :=
  let cut := getIpAndPort host a.port_
  { a with addr_ := cut.1, port_ := cut.2 }

/-- `InetAddress(const std::string &host, bool bv6)`, which does not use `bv6`. -/
def ofHost (host : List Char) (_bv6 : Bool) : InetAddress := empty.setHost host

def setAddr (addr : List Char) (a : InetAddress) : InetAddress := { a with addr_ := addr }

def setPort (port : BitVec 16) (a : InetAddress) : InetAddress := { a with port_ := to_string port.toNat }

def setIsIPV6 (is_v6 : Bool) (a : InetAddress) : InetAddress := { a with is_ipv6_ := is_v6 }

def ip (a : InetAddress) : List Char := a.addr_

def isIpV6 (a : InetAddress) : Bool := a.is_ipv6_

def toIpPort (a : InetAddress) : List Char := a.addr_ ++ ':' :: a.port_

def port (a : InetAddress) : BitVec 16 := BitVec.ofInt 16 (atoi a.port_)

/-- What `GetSockAddr` stores, where everything is zero before. -/
def getSockAddr (inet : Inet) (a : InetAddress) : Sockaddr :=
  let port := swapBytes (BitVec.ofInt 16 (atoi a.port_))
  if a.is_ipv6_ then .sockaddr_in6 port ((inet.inet_pton6 a.addr_).getD 0)
  else .sockaddr_in port ((inet.inet_pton a.addr_).getD 0)

end InetAddress
end Tmms.Network
