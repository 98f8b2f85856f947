import Mathlib.Data.BitVec

/-! Events as the loop sees them: a descriptor, an interest mask, and the masks the loop
adds and removes. Both directions carry the edge-trigger bit. -/
namespace Tmms.Network

/-- `int event_` and `epoll_event::events`, bit for bit. -/
abbrev Mask := BitVec 32

def EPOLLIN : Mask := 0x001
def EPOLLPRI : Mask := 0x002
def EPOLLOUT : Mask := 0x004
def EPOLLERR : Mask := 0x008
def EPOLLHUP : Mask := 0x010
def EPOLLET : Mask := 0x80000000

def kEventRead : Mask := EPOLLIN ||| EPOLLPRI ||| EPOLLET
def kEventWrite : Mask := EPOLLOUT ||| EPOLLET

def Mask.enable (mask bits : Mask) (on : Bool) : Mask :=
  if on then mask ||| bits else mask &&& ~~~bits

def Mask.has (mask bits : Mask) : Bool := mask &&& bits != 0

end Tmms.Network
