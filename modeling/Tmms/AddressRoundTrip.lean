import Tmms.InetAddress

/-! Addresses that go to text and come back: the system's addresses, which five places turn
into text, and an `InetAddress` itself, printed and read again. -/
namespace Tmms.Network.InetAddress

section Places
variable (inet : Inet)

/-- What `Accept`, `GEtLocalAddr`, `GEtpeerAddr` and `UdpSocket::OnRead` do alike with the address
they get from the system. -/
def store (addr : Sockaddr) (peeraddr : InetAddress) : InetAddress :=
  match addr with
  | .sockaddr_in sin_port sin_addr =>
    (peeraddr.setAddr (inet.inet_ntop sin_addr)).setPort (swapBytes sin_port)
  | .sockaddr_in6 sin6_port sin6_addr =>
    ((peeraddr.setAddr (inet.inet_ntop6 sin6_addr)).setPort (swapBytes sin6_port)).setIsIPV6 true
  | .other _ => peeraddr

def accept (sock : Int) (addr : Sockaddr) (peeraddr : InetAddress) : InetAddress :=
  if sock > 0 then store inet addr peeraddr else peeraddr

def gEtLocalAddr (addr_in : Sockaddr) : InetAddress := store inet addr_in empty

def gEtpeerAddr (addr_in : Sockaddr) : InetAddress := store inet addr_in empty

/-- The sender of a datagram in `UdpSocket::OnRead`. -/
def peeraddr (sock_addr : Sockaddr) : InetAddress := store inet sock_addr empty

/-- One turn of the loop in `DnsService::GetHostInfo`. -/
def hostInfo (ai_addr : Sockaddr) : InetAddress :=
  match ai_addr with
  | .sockaddr_in sin_port sin_addr =>
    (empty.setAddr (inet.inet_ntop sin_addr)).setPort (swapBytes sin_port)
  | .sockaddr_in6 sin6_port sin6_addr =>
    (empty.setAddr (inet.inet_ntop6 sin6_addr)).setPort (swapBytes sin6_port)
  | .other _ => empty

/-- A place that converts an address; `Accept` does where it has got a socket. -/
inductive Place where
  | accept (sock : Int) (positive : sock > 0) (peeraddr : InetAddress)
  | gEtLocalAddr
  | gEtpeerAddr
  | onRead
  | getHostInfo

def Place.build (addr : Sockaddr) : Place → InetAddress
  | .accept sock _ peeraddr => InetAddress.accept inet sock addr peeraddr
  | .gEtLocalAddr => InetAddress.gEtLocalAddr inet addr
  | .gEtpeerAddr => InetAddress.gEtpeerAddr inet addr
  | .onRead => InetAddress.peeraddr inet addr
  | .getHostInfo => hostInfo inet addr

end Places

def Internet : Sockaddr → Prop
  | .sockaddr_in _ _ | .sockaddr_in6 _ _ => True
  | .other _ => False

def IsV6 : Sockaddr → Prop
  | .sockaddr_in6 _ _ => True
  | _ => False

/-- `GetHostInfo` has no IPv6 address to convert; and the object that `Accept` is given does not
say IPv6 already when the address is not. -/
def Place.Flags (addr : Sockaddr) : Place → Prop
  | .accept _ _ peeraddr => IsV6 addr ∨ peeraddr.is_ipv6_ = false
  | .getHostInfo => ¬IsV6 addr
  | _ => True

section RoundTrip
variable {inet : Inet} {addr : Sockaddr}

/-- The text and the port come back whatever the flag says; the family comes back with the flag. -/
theorem store_roundTrip (internet : Internet addr) (inverts : inet.Inverts addr) (a : InetAddress) :
    (store inet addr a).getSockAddr inet = addr ↔ IsV6 addr ∨ a.is_ipv6_ = false := by
  cases addr with
  | sockaddr_in port addr =>
    have text : inet.inet_pton (inet.inet_ntop addr) = some addr := inverts
    cases flag : a.is_ipv6_ with
    | false => simp [store,setAddr,setPort,getSockAddr,flag,port_kept,swapBytes_swapBytes,text]
    | true => simp [store,setAddr,setPort,getSockAddr,flag,IsV6]
  | sockaddr_in6 port addr =>
    have text : inet.inet_pton6 (inet.inet_ntop6 addr) = some addr := inverts
    simp [store,setAddr,setPort,setIsIPV6,getSockAddr,port_kept,swapBytes_swapBytes,text,IsV6]
  | other family => exact internet.elim

theorem hostInfo_roundTrip (internet : Internet addr) (inverts : inet.Inverts addr) :
    (hostInfo inet addr).getSockAddr inet = addr ↔ ¬IsV6 addr := by
  cases addr with
  | sockaddr_in port addr =>
    have text : inet.inet_pton (inet.inet_ntop addr) = some addr := inverts
    simp [hostInfo,empty,setAddr,setPort,getSockAddr,port_kept,swapBytes_swapBytes,text,IsV6]
  | sockaddr_in6 port addr => simp [hostInfo,empty,setAddr,setPort,getSockAddr,IsV6]
  | other family => exact internet.elim

end RoundTrip

/-- Each place's `InetAddress` turns back into the address it was built from, if and only if the
flag comes out right there. -/
theorem sockaddr_roundTrip (inet : Inet) (addr : Sockaddr) (place : Place) (internet : Internet addr)
    (inverts : inet.Inverts addr) :
    (place.build inet addr).getSockAddr inet = addr ↔ place.Flags addr := by
  have fresh : (store inet addr empty).getSockAddr inet = addr ↔ True := by
    rw [store_roundTrip internet inverts empty]
    exact iff_true_intro (Or.inr rfl)
  cases place with
  | accept sock positive a =>
    rw [Place.build,accept,if_pos positive]
    exact store_roundTrip internet inverts a
  | gEtLocalAddr => exact fresh
  | gEtpeerAddr => exact fresh
  | onRead => exact fresh
  | getHostInfo => exact hostInfo_roundTrip internet inverts

def loopback : Inet where
  inet_ntop := fun _ => ['1','2','7','.','0','.','0','.','1']
  inet_pton := fun text => if text = ['1','2','7','.','0','.','0','.','1'] then some 0x0100007f else none
  inet_ntop6 := fun _ => [':',':','1']
  inet_pton6 := fun text => if text = [':',':','1'] then some (1 <<< 120) else none

/-- The peer `[::1]:53`, and an object that `Acceptor::OnRead` has just made for it. -/
theorem sockaddr_roundTrip_accepted :
    ((Place.accept 5 (by decide) empty).build loopback (.sockaddr_in6 0x3500 (1 <<< 120))).getSockAddr loopback =
      .sockaddr_in6 0x3500 (1 <<< 120) :=
  (sockaddr_roundTrip loopback (.sockaddr_in6 0x3500 (1 <<< 120)) _ trivial rfl).mpr (Or.inl trivial)

/-- A name of the same host, resolved: datagrams to it would go to the zero IPv4 address. -/
theorem hostInfo_loses_family :
    (Place.getHostInfo.build loopback (.sockaddr_in6 0 (1 <<< 120))).getSockAddr loopback = .sockaddr_in 0 0 ∧
      ¬(Place.getHostInfo.build loopback (.sockaddr_in6 0 (1 <<< 120))).getSockAddr loopback =
        .sockaddr_in6 0 (1 <<< 120) := by
  decide

section Printed
variable (inet : Inet)

def Textual (ip : List Char) (v6 : Bool) : Prop :=
  if v6 then ∃ addr, inet.inet_pton6 ip = some addr else ∃ addr, inet.inet_pton ip = some addr

structure Recovers (a b : InetAddress) : Prop where
  ip : b.ip = a.ip
  port : b.port = a.port
  isIpV6 : b.isIpV6 = a.isIpV6
  getSockAddr : b.getSockAddr inet = a.getSockAddr inet

/-- A colon that the text before it has none of is where the host is cut. -/
theorem getIpAndPort_colon {ip : List Char} (plain : ':' ∉ ip) (port before : List Char) :
    getIpAndPort (ip ++ ':' :: port) before = (ip,port) := by
  have first : (ip ++ ':' :: port).findIdx? (· = ':') = some ip.length := by
    rw [List.findIdx?_append]
    have none : ip.findIdx? (· = ':') = none := by
      rw [List.findIdx?_eq_none_iff]
      intro c among
      simp only [decide_eq_false_iff_not]
      rintro rfl
      exact plain among
    simp [none,List.findIdx?_cons]
  simp [getIpAndPort,first]

/-- Text without a colon comes back from the print, but never the flag. -/
theorem ofHost_toIpPort {ip : List Char} (plain : ':' ∉ ip) (port : BitVec 16) (v6 : Bool) :
    ofHost (ofIp ip port v6).toIpPort v6 = ⟨ip,to_string port.toNat,false⟩ := by
  simp [ofHost,setHost,toIpPort,ofIp,empty,getIpAndPort_colon plain]

/-- An address comes back from its own text if and only if it is an IPv4 address; the text of
such an address has no colon. -/
theorem toIpPort_roundTrip (ip : List Char) (port : BitVec 16) (v6 : Bool)
    (decimal : ∀ addr, inet.inet_pton ip = some addr → ':' ∉ ip) (textual : Textual inet ip v6) :
    Recovers inet (ofIp ip port v6) (ofHost (ofIp ip port v6).toIpPort v6) ↔ v6 = false := by
  constructor
  · intro recovers
    exact recovers.isIpV6.symm
  · rintro rfl
    obtain ⟨addr,parsed⟩ := textual
    rw [ofHost_toIpPort (decimal addr parsed)]
    exact ⟨rfl,rfl,rfl,rfl⟩

end Printed

theorem toIpPort_roundTrip_loopback :
    Recovers loopback (ofIp ['1','2','7','.','0','.','0','.','1'] 8080 false)
      (ofHost (ofIp ['1','2','7','.','0','.','0','.','1'] 8080 false).toIpPort false) :=
  (toIpPort_roundTrip loopback _ 8080 false (fun _ _ => by decide) ⟨_,rfl⟩).mpr rfl

/-- `::1` at port 8080 is read back as the empty address with the port `:1:8080`. -/
theorem toIpPort_splits :
    Textual loopback [':',':','1'] true ∧
      ofHost (ofIp [':',':','1'] 8080 true).toIpPort true = ⟨[],[':','1',':','8','0','8','0'],false⟩ ∧
      ¬Recovers loopback (ofIp [':',':','1'] 8080 true) (ofHost (ofIp [':',':','1'] 8080 true).toIpPort true) := by
  refine ⟨⟨_,rfl⟩,by decide,fun recovers => ?_⟩
  exact absurd recovers.isIpV6 (by decide)

end Tmms.Network.InetAddress
