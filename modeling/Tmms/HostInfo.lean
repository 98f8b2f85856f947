import Mathlib.Data.List.Forall2
import Tmms.AddressRoundTrip
import Tmms.DnsService

/-! One lookup of a host. A failure of the lookup is told from the pointer that it sets only when it
succeeds, except for the code -1. -/
namespace Tmms.Network.DnsService
open InetAddress

structure Hints where
  ai_family : Int
  ai_flags : Int
  ai_socktype : Int

/-- What `getaddrinfo` returns and stores: the list of results up to its null pointer. The pointer
is set when the code is 0. -/
structure Answer where
  ret : Int
  res : Option (List Sockaddr)
  set_ : res.isSome = true ↔ ret = 0

def Answer.results (answer : Answer) : List Sockaddr := answer.res.getD []

abbrev Getaddrinfo := List Char → Hints → Answer

def AF_UNSPEC : Int := 0
def AI_PASSIVE : Int := 1
def SOCK_DGRAM : Int := 2

def ainfo : Hints := ⟨AF_UNSPEC,AI_PASSIVE,SOCK_DGRAM⟩

/-- What a lookup did. -/
structure Outcome where
  -- whether the result pointer was read
  read : Bool
  -- `none` if that pointer had never been set
  list : Option (List InetAddress)

section GetHostInfo
variable (inet : Inet)

def walk : List Sockaddr → List InetAddress → List InetAddress
  | [],list => list
  | rp :: ai_next,list => walk ai_next (list ++ [hostInfo inet rp])

def getHostInfo (getaddrinfo : Getaddrinfo) (host : List Char) (list : List InetAddress) : Outcome :=
  let answer := getaddrinfo host ainfo
  if answer.ret = -1 then ⟨false,some list⟩
  else
    match answer.res with
    | none => ⟨true,none⟩
    | some rp => ⟨true,some (walk inet rp list)⟩

theorem walk_eq (results : List Sockaddr) (list : List InetAddress) :
    walk inet results list = list ++ results.map (hostInfo inet) := by
  induction results generalizing list with
  | nil => exact (List.append_nil list).symm
  | cons rp ai_next ih => rw [walk,ih,List.append_assoc,List.map_cons,List.singleton_append]

end GetHostInfo

instance : DecidablePred Internet
  | .sockaddr_in _ _ => isTrue trivial
  | .sockaddr_in6 _ _ => isTrue trivial
  | .other _ => isFalse id

def Names (inet : Inet) : Sockaddr → InetAddress → Prop
  | .sockaddr_in sin_port sin_addr,a => a.ip = inet.inet_ntop sin_addr ∧ a.port = swapBytes sin_port
  | .sockaddr_in6 sin6_port sin6_addr,a => a.ip = inet.inet_ntop6 sin6_addr ∧ a.port = swapBytes sin6_port
  | .other _,_ => False

/-- Every outcome of a lookup is dealt with. -/
structure Total (answer : Answer) (inet : Inet) (list : List InetAddress) (outcome : Outcome) : Prop where
  read : outcome.read = true → answer.ret = 0
  success : answer.ret = 0 → ∃ added, outcome.list = some (list ++ added) ∧
    List.Forall₂ (Names inet) (answer.results.filter Internet) added
  failure : answer.ret ≠ 0 → outcome.list = some list

section Total
variable {inet : Inet} {getaddrinfo : Getaddrinfo} {host : List Char} {list : List InetAddress}

theorem names_hostInfo {addr : Sockaddr} (internet : Internet addr) : Names inet addr (hostInfo inet addr) := by
  cases addr with
  | sockaddr_in port addr => exact ⟨rfl,port_kept _⟩
  | sockaddr_in6 port addr => exact ⟨rfl,port_kept _⟩
  | other family => exact internet.elim

theorem answer_unset {answer : Answer} (failed : answer.ret ≠ 0) : answer.res = none := by
  rw [← Option.not_isSome_iff_eq_none,answer.set_]
  exact failed

theorem answer_set {answer : Answer} (found : answer.ret = 0) : answer.res = some answer.results := by
  obtain ⟨results,set_⟩ := Option.isSome_iff_exists.mp (answer.set_.mpr found)
  rw [Answer.results,set_]
  rfl

theorem getHostInfo_success (found : (getaddrinfo host ainfo).ret = 0) :
    getHostInfo inet getaddrinfo host list =
      ⟨true,some (list ++ (getaddrinfo host ainfo).results.map (hostInfo inet))⟩ := by
  have other : (getaddrinfo host ainfo).ret ≠ -1 := by
    rw [found]
    decide
  rw [← walk_eq,getHostInfo,if_neg other,answer_set found]

theorem getHostInfo_failure (failed : (getaddrinfo host ainfo).ret = -1) :
    getHostInfo inet getaddrinfo host list = ⟨false,some list⟩ := by
  rw [getHostInfo,if_pos failed]

/-- Any other code of a failure sends the function to the pointer that was not set. -/
theorem getHostInfo_unset (failed : (getaddrinfo host ainfo).ret ≠ 0) (other : (getaddrinfo host ainfo).ret ≠ -1) :
    getHostInfo inet getaddrinfo host list = ⟨true,none⟩ := by
  rw [getHostInfo,if_neg other,answer_unset failed]

/-- An address is added for every result, and should be for those of the two families. -/
theorem total_success_iff {answer : Answer} (found : answer.ret = 0) :
    Total answer inet list ⟨true,some (list ++ answer.results.map (hostInfo inet))⟩ ↔
      ∀ addr ∈ answer.results, Internet addr := by
  constructor
  · rintro ⟨_,success,_⟩
    obtain ⟨added,appended,named⟩ := success found
    have same := List.append_cancel_left (Option.some.inj appended)
    have lengths := named.length_eq
    rw [← same,List.length_map] at lengths
    have whole := List.length_filter_eq_length_iff.mp lengths
    exact fun addr among => of_decide_eq_true (whole addr among)
  · intro internet
    refine ⟨fun _ => found,fun _ => ⟨_,rfl,?_⟩,fun failed => absurd found failed⟩
    rw [List.filter_eq_self.mpr fun addr among => decide_eq_true (internet addr among),List.forall₂_map_right_iff,
      List.forall₂_same]
    exact fun addr among => names_hostInfo (internet addr among)

end Total

/-- A lookup is dealt with if and only if it fails with the code -1, or succeeds with no result of
another family. -/
theorem getHostInfo_total_iff (inet : Inet) (getaddrinfo : Getaddrinfo) (host : List Char) (list : List InetAddress) :
    Total (getaddrinfo host ainfo) inet list (getHostInfo inet getaddrinfo host list) ↔
      (getaddrinfo host ainfo).ret = -1 ∨
        (getaddrinfo host ainfo).ret = 0 ∧ ∀ addr ∈ (getaddrinfo host ainfo).results, Internet addr := by
  by_cases found : (getaddrinfo host ainfo).ret = 0
  · have other : (getaddrinfo host ainfo).ret ≠ -1 := by
      rw [found]
      decide
    rw [getHostInfo_success found,total_success_iff found,or_iff_right other,and_iff_right found]
  by_cases minus : (getaddrinfo host ainfo).ret = -1
  · rw [getHostInfo_failure minus]
    exact iff_of_true ⟨Bool.noConfusion,fun success => absurd success found,fun _ => rfl⟩ (Or.inl minus)
  · rw [getHostInfo_unset found minus]
    refine iff_of_false (fun total => found (total.read rfl)) ?_
    exact not_or.mpr ⟨minus,fun success => found success.1⟩

def unknown : Getaddrinfo := fun _ _ => ⟨-2,none,by decide⟩

def unix : Getaddrinfo := fun _ _ => ⟨0,some [.other 1],by decide⟩

/-- The pointer is read although the lookup failed; and a result of another family is an address
in the list. -/
theorem getHostInfo_unchecked :
    ((getHostInfo loopback unknown ['h'] []).read = true ∧ (unknown ['h'] ainfo).ret ≠ 0 ∧
        ¬Total (unknown ['h'] ainfo) loopback [] (getHostInfo loopback unknown ['h'] [])) ∧
      (getHostInfo loopback unix ['h'] []).list = some [empty] ∧
      ¬Total (unix ['h'] ainfo) loopback [] (getHostInfo loopback unix ['h'] []) := by
  refine ⟨⟨rfl,by decide,fun total => ?_⟩,rfl,fun total => ?_⟩
  · exact absurd (total.read rfl) (by decide)
  · obtain ⟨added,appended,named⟩ := total.success rfl
    cases named
    cases appended

section Retry
variable {inet : Inet} {getaddrinfo : Getaddrinfo} {s : State (List Char) InetAddress} {host : List Char} {i : Int}
variable {rest : List (List Char)}

/-- `OnWork` calls `GetHostInfo` with a new list; the retry goes on with what is in it. -/
def resolve (inet : Inet) (getaddrinfo : Getaddrinfo) (s : State (List Char) InetAddress) :
    Option (State (List Char) InetAddress) :=
  match s.worker with
  | .getHostInfo host _ _ => (getHostInfo inet getaddrinfo host []).list.bind fun list => step s (.resolve list)
  | _ => none

/-- A lookup that failed with the code -1 is made again until the retries are used up. -/
theorem resolve_retries (worker : s.worker = .getHostInfo host i rest)
    (failed : (getaddrinfo host ainfo).ret = -1) :
    (resolve inet getaddrinfo s).bind onWork = some { s with worker := .retry host (i + 1) rest } := by
  simp [resolve,worker,getHostInfo_failure failed,step,onWork]

/-- The addresses of a lookup that found any go into the table. -/
theorem resolve_updates (worker : s.worker = .getHostInfo host i rest)
    (found : (getaddrinfo host ainfo).ret = 0) (some_ : (getaddrinfo host ainfo).results ≠ []) :
    (resolve inet getaddrinfo s).bind onWork =
      some { s.at_ .onWork (.locking (.updateHost host ((getaddrinfo host ainfo).results.map (hostInfo inet)))) with
        worker := .updateHost rest } := by
  simp [resolve,worker,getHostInfo_success found,step,onWork,List.length_pos_iff,some_,State.at_]

end Retry
end Tmms.Network.DnsService
