import Mathlib.Data.List.AList
import Mathlib.Logic.Function.Basic
import Tmms.Transition

/-! The cache of resolved hosts: any number of threads add hosts and ask for addresses while one
thread goes round the hosts and resolves them. -/
namespace Tmms.Network.DnsService

variable {η α : Type} [DecidableEq η]

inductive Thread where
  | user (n : Nat)
  | onWork
  deriving DecidableEq

inductive Call (η α : Type) where
  | addHost (host : η)
  | getHostAddress (host : η) (index : BitVec 32)
  -- the overload that returns the whole list
  | getHostAddresses (host : η)
  | updateHost (host : η) (list : List α)
  | getHosts

/-- `UpdateHost` is called by `OnWork` alone. -/
def Call.user : Call η α → Bool
  | .updateHost _ _ => false
  | _ => true

abbrev Hosts (η α : Type) := AList fun _ : η => List α

inductive Result (η α : Type) where
  | done
  -- `none` for `inet_address_null`
  | address (address : Option α)
  | list (list : List α)
  | hosts (hosts : Hosts η α)

inductive Phase (η α : Type) where
  | outside
  | locking (call : Call η α)
  | locked (call : Call η α)
  | found (call : Call η α) (iter : Option (List α))
  | unlocking (call : Call η α) (result : Result η α)

inductive Worker (η α : Type) where
  | outside
  | running
  | getHosts
  | begin_ (host_infos : Hosts η α)
  | hosts (rest : List η)
  | retry (host : η) (i : Int) (rest : List η)
  | getHostInfo (host : η) (i : Int) (rest : List η)
  | resolved (host : η) (i : Int) (list : List α) (rest : List η)
  | updateHost (rest : List η)

/-- The service, the hosts that `AddHost` has entered, and the lists that `UpdateHost` has swapped
in, latest first. -/
structure State (η α : Type) where
  hosts_info_ : Hosts η α
  lock_ : Option Thread
  running_ : Bool
  retry_ : Int
  calls : Thread → Phase η α
  worker : Worker η α
  added : List η
  written : List (η × List α)

def initial : State η α where
  hosts_info_ := ∅
  lock_ := none
  running_ := false
  retry_ := 3
  calls := fun _ => .outside
  worker := .outside
  added := []
  written := []

def State.latest (s : State η α) (host : η) : Option (List α) := s.written.lookup host

def State.at_ (s : State η α) (thread : Thread) (phase : Phase η α) : State η α :=
  { s with calls := Function.update s.calls thread phase }

inductive Move (η α : Type) where
  | call (n : Nat) (call : Call η α)
  | lock (thread : Thread)
  | find (thread : Thread)
  | body (thread : Thread)
  | unlock (thread : Thread)
  | start
  | stop
  | setDnsServiceParam (retry : Int)
  | onWork
  -- its copy of the hosts is an unordered map
  | order (hosts : List η)
  | resolve (list : List α)

/-- `list[index % list.size()]`, where the `int` becomes a `size_t`. -/
def pick (list : List α) (index : BitVec 32) : Option α := list[(index.signExtend 64).toNat % list.length]?

/-- What `hosts_info_.find` gives to the rest of the call; the calls that do not search are not
here. -/
def find (s : State η α) : Call η α → Option (Option (List α))
  | .addHost host => some (s.hosts_info_.lookup host)
  | .getHostAddress host _ => some (s.hosts_info_.lookup host)
  | .getHostAddresses host => some (s.hosts_info_.lookup host)
  | .updateHost _ _ => none
  | .getHosts => none

def addHost (s : State η α) (host : η) : Option (List α) → State η α
  | some _ => s
  | none => { s with hosts_info_ := s.hosts_info_.insert host [],added := host :: s.added }

def getHostAddress (index : BitVec 32) : Option (List α) → Option α
  | some list => if 0 < list.length then pick list index else none
  | none => none

def updateHost (s : State η α) (host : η) (list : List α) : State η α :=
  { s with hosts_info_ := s.hosts_info_.insert host list,written := (host,list) :: s.written }

/-- The body of a call under the lock, after the search if it has one. -/
def body (s : State η α) : Phase η α → Option (State η α × Call η α × Result η α)
  | .found (.addHost host) iter => some (addHost s host iter,.addHost host,.done)
  | .found (.getHostAddress host index) iter =>
    some (s,.getHostAddress host index,.address (getHostAddress index iter))
  | .found (.getHostAddresses host) iter => some (s,.getHostAddresses host,.list (iter.getD []))
  | .locked (.updateHost host list) => some (updateHost s host list,.updateHost host list,.done)
  | .locked .getHosts => some (s,.getHosts,.hosts s.hosts_info_)
  | _ => none

def Worker.returned : Worker η α → Result η α → Worker η α
  | .getHosts,.hosts host_infos => .begin_ host_infos
  | .updateHost rest,_ => .hosts rest
  | worker,_ => worker

/-- The steps of `OnWork` between its calls. -/
def onWork (s : State η α) : Option (State η α) :=
  match s.worker with
  | .running =>
    if s.running_ then some { s.at_ .onWork (.locking .getHosts) with worker := .getHosts }
    else some { s with worker := .outside }
  | .hosts [] => some { s with worker := .running }
  | .hosts (host :: rest) => some { s with worker := .retry host 0 rest }
  | .retry host i rest =>
    if i < s.retry_ then some { s with worker := .getHostInfo host i rest }
    else some { s with worker := .hosts rest }
  | .resolved host i list rest =>
    if 0 < list.length then
      some { s.at_ .onWork (.locking (.updateHost host list)) with worker := .updateHost rest }
    else some { s with worker := .retry host (i + 1) rest }
  | _ => none

def step (s : State η α) : Move η α → Option (State η α)
  | .call n call =>
    match s.calls (.user n) with
    | .outside => if call.user then some (s.at_ (.user n) (.locking call)) else none
    | _ => none
  | .lock thread =>
    match s.calls thread,s.lock_ with
    | .locking call,none => some { s.at_ thread (.locked call) with lock_ := some thread }
    | _,_ => none
  | .find thread =>
    match s.calls thread with
    | .locked call => (find s call).map fun iter => s.at_ thread (.found call iter)
    | _ => none
  | .body thread =>
    (body s (s.calls thread)).map fun (next,call,result) => next.at_ thread (.unlocking call result)
  | .unlock thread =>
    match s.calls thread with
    | .unlocking _ result => some { s.at_ thread .outside with
        lock_ := none
        worker := if thread = .onWork then s.worker.returned result else s.worker }
    | _ => none
  | .start =>
    match s.worker with
    | .outside => some { s with running_ := true,worker := .running }
    | _ => none
  | .stop => some { s with running_ := false }
  | .setDnsServiceParam retry => some { s with retry_ := retry }
  | .onWork => onWork s
  | .order hosts =>
    match s.worker with
    | .begin_ host_infos => if hosts.Perm host_infos.keys then some { s with worker := .hosts hosts } else none
    | _ => none
  | .resolve list =>
    match s.worker with
    | .getHostInfo host i rest => some { s with worker := .resolved host i list rest }
    | _ => none

/-- The table is what the log says: a host that was added has the latest list written for it, and
lists were written only for such hosts, and none was empty. -/
structure Logged (s : State η α) : Prop where
  lookup : ∀ host, s.hosts_info_.lookup host = if host ∈ s.added then some ((s.latest host).getD []) else none
  written : ∀ host list, s.latest host = some list → host ∈ s.added ∧ list ≠ []

/-- `UpdateHost` is called for a host that was added, with the addresses of a success. -/
def Fine (s : State η α) : Call η α → Prop
  | .updateHost host list => host ∈ s.added ∧ list ≠ []
  | _ => True

/-- What a call is about to return agrees with the table. -/
def Right (s : State η α) : Call η α → Result η α → Prop
  | .addHost host,.done => host ∈ s.added
  | .updateHost _ _,.done => True
  | .getHostAddress host _,.address address =>
    (address = none ↔ (s.hosts_info_.lookup host).getD [] = []) ∧
      ∀ a, address = some a → a ∈ (s.hosts_info_.lookup host).getD []
  | .getHostAddresses host,.list list => list = (s.hosts_info_.lookup host).getD []
  | .getHosts,.hosts hosts => ∀ host ∈ hosts.keys, host ∈ s.added
  | _,_ => False

def Placed (s : State η α) (thread : Thread) : Phase η α → Prop
  | .outside => True
  | .locking call => Fine s call
  | .locked call => s.lock_ = some thread ∧ Fine s call
  | .found call iter => s.lock_ = some thread ∧ find s call = some iter
  | .unlocking call result => s.lock_ = some thread ∧ Right s call result

def Worker.names : Worker η α → List η
  | .begin_ host_infos => host_infos.keys
  | .hosts rest => rest
  | .retry host _ rest => host :: rest
  | .getHostInfo host _ rest => host :: rest
  | .resolved host _ _ rest => host :: rest
  | .updateHost rest => rest
  | _ => []

structure Kept (s : State η α) : Prop where
  logged : Logged s
  phases : ∀ thread, Placed s thread (s.calls thread)
  names : ∀ host ∈ s.worker.names, host ∈ s.added

theorem Kept.start : Kept (initial : State η α) where
  logged := ⟨fun _ => by simp [initial],fun _ _ found => by cases found⟩
  phases := fun _ => trivial
  names := fun _ among => by cases among

/-- A thread that does not have the lock is not affected by one that has. -/
theorem Placed.frame {s next : State η α} {thread : Thread} {phase : Phase η α}
    (placed : Placed s thread phase) (apart : s.lock_ ≠ some thread)
    (grown : ∀ host ∈ s.added, host ∈ next.added) : Placed next thread phase := by
  cases phase with
  | outside => trivial
  | locking call =>
    cases call with
    | updateHost host list => exact ⟨grown host placed.1,placed.2⟩
    | _ => trivial
  | locked call => exact (apart placed.1).elim
  | found call iter => exact (apart placed.1).elim
  | unlocking call result => exact (apart placed.1).elim

theorem phases_update {s next : State η α} {thread : Thread} {phase : Phase η α}
    (phases : ∀ thread, Placed s thread (s.calls thread))
    (calls : next.calls = Function.update s.calls thread phase) (own : Placed next thread phase)
    (others : ∀ other, other ≠ thread → Placed s other (s.calls other) → Placed next other (s.calls other)) :
    ∀ thread, Placed next thread (next.calls thread) := by
  intro other
  rw [calls]
  rcases eq_or_ne other thread with rfl | apart
  · rw [Function.update_self]
    exact own
  · rw [Function.update_of_ne apart]
    exact others other apart (phases other)

theorem getHostAddress_spec (index : BitVec 32) (iter : Option (List α)) :
    (getHostAddress index iter = none ↔ iter.getD [] = []) ∧
      ∀ a, getHostAddress index iter = some a → a ∈ iter.getD [] := by
  cases iter with
  | none => exact ⟨by simp [getHostAddress],fun a found => by cases found⟩
  | some list =>
    cases list with
    | nil => exact ⟨by simp [getHostAddress],fun a found => by simp [getHostAddress] at found⟩
    | cons first rest =>
      have inside : (index.signExtend 64).toNat % (first :: rest).length < (first :: rest).length :=
        Nat.mod_lt _ (Nat.succ_pos _)
      rw [getHostAddress,if_pos (by simp),pick,List.getElem?_eq_getElem inside]
      exact ⟨by simp,fun a found => Option.some.inj found ▸ List.getElem_mem inside⟩

theorem Logged.addHost {s : State η α} (logged : Logged s) (host : η) :
    Logged (DnsService.addHost s host (s.hosts_info_.lookup host)) := by
  cases found : s.hosts_info_.lookup host with
  | some list => exact logged
  | none =>
    have absent : host ∉ s.added := by
      intro present
      rw [logged.lookup,if_pos present] at found
      cases found
    have unwritten : s.latest host = none := by
      by_contra written
      obtain ⟨list,known⟩ := Option.ne_none_iff_exists'.mp written
      exact absent (logged.written host list known).1
    refine ⟨fun other => ?_,fun other list known => ?_⟩
    · rcases eq_or_ne other host with rfl | apart
      · simp only [DnsService.addHost,AList.lookup_insert,List.mem_cons_self,if_true]
        exact congrArg some (congrArg (Option.getD · []) unwritten).symm
      · simp only [DnsService.addHost,AList.lookup_insert_ne apart,List.mem_cons,apart,false_or]
        exact logged.lookup other
    · exact ⟨List.mem_cons_of_mem _ (logged.written other list known).1,(logged.written other list known).2⟩

theorem Logged.addHost_added {s : State η α} (logged : Logged s) (host : η) :
    host ∈ (DnsService.addHost s host (s.hosts_info_.lookup host)).added := by
  cases found : s.hosts_info_.lookup host with
  | some list =>
    by_contra absent
    have unknown : host ∉ s.added := absent
    rw [logged.lookup,if_neg unknown] at found
    cases found
  | none => exact List.mem_cons_self

theorem addHost_frame (s : State η α) (host : η) (iter : Option (List α)) :
    (addHost s host iter).lock_ = s.lock_ ∧ (addHost s host iter).calls = s.calls ∧
      (addHost s host iter).worker = s.worker ∧ ∀ other ∈ s.added, other ∈ (addHost s host iter).added := by
  cases iter with
  | some list => exact ⟨rfl,rfl,rfl,fun _ => id⟩
  | none => exact ⟨rfl,rfl,rfl,fun _ => List.mem_cons_of_mem _⟩

theorem latest_updateHost (s : State η α) (host other : η) (list : List α) :
    (updateHost s host list).latest other = if other = host then some list else s.latest other := by
  simp only [State.latest,updateHost,List.lookup_cons]
  by_cases same : other = host
  · simp [same]
  · simp [same,beq_false_of_ne same]

theorem Logged.updateHost {s : State η α} (logged : Logged s) {host : η} {list : List α}
    (fine : Fine s (.updateHost host list)) : Logged (DnsService.updateHost s host list) := by
  refine ⟨fun other => ?_,fun other written known => ?_⟩
  · rw [latest_updateHost]
    rcases eq_or_ne other host with rfl | apart
    · simp [DnsService.updateHost,fine.1]
    · simp only [DnsService.updateHost,AList.lookup_insert_ne apart,if_neg apart]
      exact logged.lookup other
  · rw [latest_updateHost] at known
    split at known
    case isTrue same =>
      cases known
      exact ⟨same ▸ fine.1,fine.2⟩
    case isFalse apart => exact logged.written other written known

/-- The body of a call keeps the table, and returns what the table says. -/
theorem body_spec {s next : State η α} {thread : Thread} {phase : Phase η α} {call : Call η α}
    {result : Result η α} (logged : Logged s) (placed : Placed s thread phase)
    (ran : body s phase = some (next,call,result)) :
    s.lock_ = some thread ∧ next.lock_ = s.lock_ ∧ next.calls = s.calls ∧ next.worker = s.worker ∧
      (∀ host ∈ s.added, host ∈ next.added) ∧ Logged next ∧ Right next call result := by
  unfold body at ran
  split at ran
  · cases ran
    obtain ⟨held,found⟩ := placed
    cases found
    obtain ⟨lock_,calls,worker,grown⟩ := addHost_frame s _ (s.hosts_info_.lookup _)
    exact ⟨held,lock_,calls,worker,grown,logged.addHost _,logged.addHost_added _⟩
  · cases ran
    obtain ⟨held,found⟩ := placed
    cases found
    exact ⟨held,rfl,rfl,rfl,fun _ => id,logged,getHostAddress_spec _ _⟩
  · cases ran
    obtain ⟨held,found⟩ := placed
    cases found
    exact ⟨held,rfl,rfl,rfl,fun _ => id,logged,rfl⟩
  · cases ran
    exact ⟨placed.1,rfl,rfl,rfl,fun _ => id,logged.updateHost placed.2,trivial⟩
  · cases ran
    refine ⟨placed.1,rfl,rfl,rfl,fun _ => id,logged,fun host among => ?_⟩
    have present := AList.lookup_isSome.mpr (AList.mem_keys.mpr among)
    rw [logged.lookup] at present
    by_contra absent
    rw [if_neg absent] at present
    cases present
  · cases ran

theorem Kept.body {s next : State η α} {thread : Thread} (kept : Kept s)
    (stepped : step s (.body thread) = some next) : Kept next := by
  simp only [step,Option.map_eq_some_iff] at stepped
  obtain ⟨⟨after,call,result⟩,ran,rfl⟩ := stepped
  obtain ⟨held,lock_,calls,worker,grown,logged,right⟩ := body_spec kept.logged (kept.phases thread) ran
  refine ⟨⟨logged.lookup,logged.written⟩,?_,fun host among => grown host ?_⟩
  · refine phases_update kept.phases (congrArg (Function.update · _ _) calls)
      ⟨lock_.trans held,right⟩ fun other apart placed => ?_
    exact placed.frame (fun own => apart (Option.some.inj (own.symm.trans held))) grown
  · rw [State.at_,worker] at among
    exact kept.names host among

theorem Kept.call {s next : State η α} {n : Nat} {call : Call η α} (kept : Kept s)
    (stepped : step s (.call n call) = some next) : Kept next := by
  simp only [step] at stepped
  split at stepped
  case h_2 => cases stepped
  case h_1 =>
    split at stepped
    case isFalse => cases stepped
    case isTrue allowed =>
      cases stepped
      refine ⟨⟨kept.logged.lookup,kept.logged.written⟩,?_,kept.names⟩
      refine phases_update kept.phases rfl ?_ fun _ _ => id
      cases call with
      | updateHost host list => cases allowed
      | _ => trivial

theorem Kept.lock {s next : State η α} {thread : Thread} (kept : Kept s)
    (stepped : step s (.lock thread) = some next) : Kept next := by
  simp only [step] at stepped
  split at stepped
  case h_2 => cases stepped
  case h_1 call waiting free =>
    cases stepped
    refine ⟨⟨kept.logged.lookup,kept.logged.written⟩,?_,kept.names⟩
    have fine := kept.phases thread
    rw [waiting] at fine
    refine phases_update kept.phases rfl ⟨rfl,fine⟩ fun other apart placed => ?_
    exact placed.frame (by simp [free]) (fun _ => id)

theorem Kept.find {s next : State η α} {thread : Thread} (kept : Kept s)
    (stepped : step s (.find thread) = some next) : Kept next := by
  simp only [step] at stepped
  split at stepped
  case h_2 => cases stepped
  case h_1 call inside =>
    obtain ⟨iter,found,rfl⟩ := Option.map_eq_some_iff.mp stepped
    refine ⟨⟨kept.logged.lookup,kept.logged.written⟩,?_,kept.names⟩
    have held := kept.phases thread
    rw [inside] at held
    exact phases_update kept.phases rfl ⟨held.1,found⟩ fun _ _ => id

/-- What `OnWork` learns from a call was added. -/
theorem names_returned {s : State η α} {call : Call η α} {result : Result η α} (right : Right s call result)
    (names : ∀ host ∈ s.worker.names, host ∈ s.added) :
    ∀ host ∈ (s.worker.returned result).names, host ∈ s.added := by
  unfold Worker.returned
  split
  case h_1 host_infos _ =>
    cases call with
    | getHosts => exact right
    | _ => exact right.elim
  case h_2 rest _ worker =>
    rw [worker] at names
    exact names
  case h_3 => exact names

theorem Kept.unlock {s next : State η α} {thread : Thread} (kept : Kept s)
    (stepped : step s (.unlock thread) = some next) : Kept next := by
  simp only [step] at stepped
  split at stepped
  case h_2 => cases stepped
  case h_1 call result inside =>
    cases stepped
    have held := kept.phases thread
    rw [inside] at held
    refine ⟨⟨kept.logged.lookup,kept.logged.written⟩,?_,?_⟩
    · refine phases_update kept.phases rfl trivial fun other apart placed => ?_
      exact placed.frame (fun own => apart (Option.some.inj (own.symm.trans held.1))) (fun _ => id)
    · dsimp only
      split
      · exact names_returned held.2 kept.names
      · exact kept.names

/-- `OnWork` goes on without a call, and holds no name it did not hold. -/
theorem Kept.worker {s : State η α} (kept : Kept s) {worker : Worker η α}
    (names : ∀ host ∈ worker.names, host ∈ s.worker.names) : Kept { s with worker := worker } :=
  ⟨⟨kept.logged.lookup,kept.logged.written⟩,kept.phases,fun host among => kept.names host (names host among)⟩

theorem Kept.calls {s : State η α} (kept : Kept s) {worker : Worker η α} {call : Call η α} (fine : Fine s call)
    (names : ∀ host ∈ worker.names, host ∈ s.worker.names) :
    Kept { s.at_ .onWork (.locking call) with worker := worker } :=
  ⟨⟨kept.logged.lookup,kept.logged.written⟩,phases_update kept.phases rfl fine fun _ _ => id,
    fun host among => kept.names host (names host among)⟩

theorem Kept.onWork {s next : State η α} (kept : Kept s) (stepped : onWork s = some next) : Kept next := by
  unfold DnsService.onWork at stepped
  split at stepped
  case h_1 running =>
    split at stepped
    · cases stepped
      exact kept.calls trivial (fun _ among => by cases among)
    · cases stepped
      exact kept.worker (fun _ among => by cases among)
  case h_2 worker =>
    cases stepped
    exact kept.worker (fun _ among => by cases among)
  case h_3 host rest worker =>
    cases stepped
    exact kept.worker (fun _ among => by rwa [worker])
  case h_4 host i rest worker =>
    split at stepped
    · cases stepped
      exact kept.worker (fun _ among => by rwa [worker])
    · cases stepped
      exact kept.worker (fun _ among => by rw [worker]; exact List.mem_cons_of_mem _ among)
  case h_5 host i list rest worker =>
    split at stepped
    case isTrue success =>
      cases stepped
      refine kept.calls ⟨kept.names host ?_,List.ne_nil_of_length_pos success⟩ ?_
      · rw [worker]
        exact List.mem_cons_self
      · intro _ among
        rw [worker]
        exact List.mem_cons_of_mem _ among
    case isFalse =>
      cases stepped
      exact kept.worker (fun _ among => by rwa [worker])
  case h_6 => cases stepped

theorem Kept.move {s next : State η α} (move : Move η α) (kept : Kept s)
    (stepped : step s move = some next) : Kept next := by
  cases move with
  | call n call => exact kept.call stepped
  | lock thread => exact kept.lock stepped
  | find thread => exact kept.find stepped
  | body thread => exact kept.body stepped
  | unlock thread => exact kept.unlock stepped
  | onWork => exact kept.onWork stepped
  | start =>
    simp only [step] at stepped
    split at stepped
    · cases stepped
      exact ⟨⟨kept.logged.lookup,kept.logged.written⟩,kept.phases,fun _ among => by cases among⟩
    · cases stepped
  | stop =>
    cases stepped
    exact ⟨⟨kept.logged.lookup,kept.logged.written⟩,kept.phases,kept.names⟩
  | setDnsServiceParam retry =>
    cases stepped
    exact ⟨⟨kept.logged.lookup,kept.logged.written⟩,kept.phases,kept.names⟩
  | order hosts =>
    simp only [step] at stepped
    split at stepped
    case h_2 => cases stepped
    case h_1 host_infos worker =>
      split at stepped
      case isFalse => cases stepped
      case isTrue same =>
        cases stepped
        exact kept.worker (fun _ among => by rw [worker]; exact same.mem_iff.mp among)
  | resolve list =>
    simp only [step] at stepped
    split at stepped
    case h_2 => cases stepped
    case h_1 host i rest worker =>
      cases stepped
      exact kept.worker (fun _ among => by rwa [worker])

theorem Kept.reachable {s : State η α} (reached : Transition.Reachable step (fun _ => True) initial s) : Kept s :=
  reached.invariant Kept (fun _ move _ _ kept stepped => kept.move move stepped) .start

def State.list (s : State η α) (host : η) : List α := (s.hosts_info_.lookup host).getD []

theorem Logged.known {s : State η α} (logged : Logged s) (host : η) :
    host ∈ s.hosts_info_ ↔ host ∈ s.added := by
  rw [← AList.lookup_isSome,logged.lookup]
  by_cases added : host ∈ s.added <;> simp [added]

end Tmms.Network.DnsService
