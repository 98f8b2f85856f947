import Tmms.ConnectionLifetime

/-! The connections of a server whose application keeps them all alive. `connections_` and
`events_` change together: an accepted connection is in both, and its close takes it out of
both before the application hears of it. -/
namespace Tmms.Network.TcpServer

open Reentrant

def opens (m : Method) (s : World) : World :=
  match m with
  | .onAccept fd => { s with loop := { s.loop with kernel := s.loop.kernel.opens fd } }
  | _ => s

/-- The application keeps a pointer to each connection it is told of. -/
def keeps (t : Callback) (s : World) : World :=
  match t with
  | .newConnection c => s.setTemporaries c (s.temporaries c + 1)
  | _ => s

def keeping : System World Query Result Callback Method := ⟨body,answered,opens,keeps⟩

/-- Any use, where accepted descriptors are positive and not in use. -/
def freshAccepts : Environment World Query Result Callback Method where
  admits := anyServer.admits
  enters := fun ctx s m => anyServer.enters ctx s m &&
    match m with
    | .onAccept fd => decide (0 < fd ∧ fd ∉ s.loop.kernel.opened)
    | _ => true

/-- A server that has just been started: every entry of `events_` is somebody else's. -/
structure Started (s : World) : Prop where
  made : s.made = 0
  connections_ : ∀ c, s.connections_ c = false
  acceptors : ∀ fd e, s.loop.events_.lookup fd = some e → 0 ≤ fd ∧ fd ∈ s.loop.kernel.opened ∧ ∃ n, e = .acceptor n
  new_connection_cb_ : s.new_connection_cb_ = true
  destroyed : ∀ c, s.destroyed c = false

/-- `connections_` holds the open connections, `events_` holds each of them under its own
descriptor, and a closed connection is in neither. -/
structure Matches (s : World) : Prop where
  connections_ : ∀ c, s.connections_ c = true ↔ c < s.made ∧ (s.connections c).closed_ = false
  registered : ∀ c, s.connections_ c = true →
    s.loop.events_.lookup (s.connections c).fd_ = some (.connection c)
  distinct : ∀ c d, s.connections_ c = true → s.connections_ d = true →
    (s.connections c).fd_ = (s.connections d).fd_ → c = d
  closed : ∀ c, (s.connections c).closed_ = true → c < s.made →
    s.connections_ c = false ∧ ∀ fd, s.loop.events_.lookup fd ≠ some (.connection c)

/-- What holds at any time; a connection whose close has been announced is in neither
container but holds its descriptor. -/
structure Table (ctx : List Callback) (s : World) : Prop where
  alive : ∀ c, c < s.made → 0 < s.temporaries c
  intact : ∀ c, s.destroyed c = false
  closing : ∀ c, .destoryConnection c ∈ ctx → c < s.made
  reports : ∀ c, c < s.made → (s.connections c).close_cb_ = true
  bounded : ∀ c, s.connections_ c = true → c < s.made
  listed : ∀ c, c < s.made →
    (s.connections_ c = true ↔ (s.connections c).closed_ = false ∧ .destoryConnection c ∉ ctx)
  held : ∀ c, c < s.made → (s.connections c).closed_ = false → 0 < (s.connections c).fd_
  entered : ∀ c, s.connections_ c = true → s.loop.events_.lookup (s.connections c).fd_ = some (.connection c)
  own : ∀ fd c, s.loop.events_.lookup fd = some (.connection c) →
    s.connections_ c = true ∧ (s.connections c).fd_ = fd
  numbers : ∀ fd e, s.loop.events_.lookup fd = some e → 0 ≤ fd ∧ fd ∈ s.loop.kernel.opened
  opened : ∀ c, c < s.made → 0 < (s.connections c).fd_ → (s.connections c).fd_ ∈ s.loop.kernel.opened
  distinct : ∀ c d, c < s.made → d < s.made → 0 < (s.connections c).fd_ →
    (s.connections c).fd_ = (s.connections d).fd_ → c = d
  foreign : ∀ fd n, s.loop.events_.lookup fd = some (.acceptor n) → ∀ c, c < s.made → (s.connections c).fd_ ≠ fd
  announces : s.new_connection_cb_ = true

structure Grows (s after : World) : Prop where
  made : s.made ≤ after.made
  temporaries : ∀ c, c < s.made → s.temporaries c ≤ after.temporaries c

structure Alike (s after : World) : Prop where
  made : after.made = s.made
  temporaries : after.temporaries = s.temporaries
  destroyed : after.destroyed = s.destroyed
  connections_ : after.connections_ = s.connections_
  events_ : after.loop.events_ = s.loop.events_
  opened : after.loop.kernel.opened = s.loop.kernel.opened
  new_connection_cb_ : after.new_connection_cb_ = s.new_connection_cb_
  connections : ∀ c, (after.connections c).fd_ = (s.connections c).fd_ ∧
    (after.connections c).closed_ = (s.connections c).closed_ ∧
    (after.connections c).close_cb_ = (s.connections c).close_cb_

section Table
variable {ctx : List Callback} {s after last : World} {c : Nat}

theorem Grows.refl : Grows s s := ⟨Nat.le_refl _,fun _ _ => Nat.le_refl _⟩

theorem Grows.trans (first : Grows s after) (second : Grows after last) : Grows s last :=
  ⟨Nat.le_trans first.made second.made,fun c made =>
    Nat.le_trans (first.temporaries c made) (second.temporaries c (Nat.lt_of_lt_of_le made first.made))⟩

theorem Alike.grows (alike : Alike s after) : Grows s after :=
  ⟨Nat.le_of_eq alike.made.symm,fun c _ => by rw [alike.temporaries]⟩

theorem Table.alike (table : Table ctx s) (alike : Alike s after) : Table ctx after := by
  obtain ⟨made,temporaries,destroyed,connections_,events_,opened,announces,connections⟩ := alike
  constructor
  · rw [made,temporaries]; exact table.alive
  · rw [destroyed]; exact table.intact
  · rw [made]; exact table.closing
  · intro c; rw [made,(connections c).2.2]; exact table.reports c
  · rw [made,connections_]; exact table.bounded
  · intro c; rw [made,connections_,(connections c).2.1]; exact table.listed c
  · intro c; rw [made,(connections c).1,(connections c).2.1]; exact table.held c
  · intro c; rw [connections_,events_,(connections c).1]; exact table.entered c
  · intro fd c; rw [connections_,events_,(connections c).1]; exact table.own fd c
  · rw [events_,opened]; exact table.numbers
  · intro c; rw [made,opened,(connections c).1]; exact table.opened c
  · intro c d; rw [made,(connections c).1,(connections d).1]; exact table.distinct c d
  · intro fd n; rw [events_]
    intro found c; rw [made,(connections c).1]; exact table.foreign fd n found c
  · rw [announces]; exact table.announces

/-- More or fewer pointers, as long as there are some. -/
theorem Table.temporaries (table : Table ctx s) (count : Nat) (some_ : 0 < count) :
    Table ctx (s.setTemporaries c count) := by
  refine ⟨?_,table.intact,table.closing,table.reports,table.bounded,table.listed,table.held,table.entered,
    table.own,table.numbers,table.opened,table.distinct,table.foreign,table.announces⟩
  intro d made
  by_cases same : d = c
  · subst same
    simpa [World.setTemporaries] using some_
  · simpa [World.setTemporaries,same] using table.alive d made

theorem table_cons {cb : Callback} (other : ∀ c, cb ≠ .destoryConnection c) :
    Table (cb :: ctx) s ↔ Table ctx s := by
  have same (c : Nat) : .destoryConnection c ∈ cb :: ctx ↔ .destoryConnection c ∈ ctx := by
    simp [Ne.symm (other c)]
  constructor
  · intro table
    refine ⟨table.alive,table.intact,fun c inside => table.closing c ((same c).mpr inside),table.reports,
      table.bounded,fun c made => ?_,table.held,table.entered,table.own,table.numbers,table.opened,
      table.distinct,table.foreign,table.announces⟩
    rw [table.listed c made,same c]
  · intro table
    refine ⟨table.alive,table.intact,fun c inside => table.closing c ((same c).mp inside),table.reports,
      table.bounded,fun c made => ?_,table.held,table.entered,table.own,table.numbers,table.opened,
      table.distinct,table.foreign,table.announces⟩
    rw [table.listed c made,same c]

theorem Table.owned (table : Table ctx s) (made : c < s.made) : s.owned c = true :=
  owned_of_temporaries (table.alive c made)

def unlist (c : Nat) (s : World) : World :=
  { s with connections_ := Function.update s.connections_ c false,loop := s.loop.delEvent (s.event c) }

/-- The number of an open connection has no entry but its own. -/
theorem Table.entry_own (table : Table ctx s) (made : c < s.made) (open_ : (s.connections c).closed_ = false)
    {e : EventPtr} (found : s.loop.events_.lookup (s.connections c).fd_ = some e) : e = .connection c := by
  cases e with
  | acceptor n => exact absurd rfl (table.foreign _ n found c made)
  | connection d =>
    obtain ⟨listed,same⟩ := table.own _ d found
    rw [table.distinct c d made (table.bounded d listed) (table.held c made open_) same.symm]

theorem Table.unlist (table : Table ctx s) (made : c < s.made) (open_ : (s.connections c).closed_ = false) :
    Table (.destoryConnection c :: ctx) (unlist c s) := by
  have lookup (fd : Int) : (TcpServer.unlist c s).loop.events_.lookup fd =
      if fd = (s.connections c).fd_ then none else s.loop.events_.lookup fd :=
    EventLoop.delEvent_lookup _ _ fd
  have kernel : (TcpServer.unlist c s).loop.kernel.opened = s.loop.kernel.opened :=
    EventLoop.delEvent_opened _ _
  have listed (d : Nat) : (TcpServer.unlist c s).connections_ d = if d = c then false else s.connections_ d :=
    Function.update_apply _ _ _ _
  refine ⟨table.alive,table.intact,?_,table.reports,?_,?_,table.held,?_,?_,?_,?_,table.distinct,?_,
    table.announces⟩
  · intro d inside
    rcases List.mem_cons.mp inside with same | before
    · cases same
      exact made
    · exact table.closing d before
  · intro d
    rw [listed]
    split
    · exact fun absurd_ => by cases absurd_
    · exact table.bounded d
  · intro d old
    change d < s.made at old
    change (TcpServer.unlist c s).connections_ d = true ↔ (s.connections d).closed_ = false ∧ _
    rw [listed,List.mem_cons,Callback.destoryConnection.injEq]
    have before := table.listed d old
    grind
  · intro d
    change (TcpServer.unlist c s).connections_ d = true → (TcpServer.unlist c s).loop.events_.lookup (s.connections d).fd_ = _
    rw [listed,lookup]
    have entered := table.entered d
    have bounded := table.bounded d
    have distinct := table.distinct c d made
    have held := table.held c made open_
    grind
  · intro fd d
    change _ → (TcpServer.unlist c s).connections_ d = true ∧ (s.connections d).fd_ = fd
    rw [listed,lookup]
    have own := table.own fd d
    grind
  · intro fd e
    rw [lookup,kernel]
    have numbers := table.numbers fd e
    grind
  · rw [kernel]
    exact table.opened
  · intro fd n
    change _ → ∀ d, d < s.made → (s.connections d).fd_ ≠ fd
    rw [lookup]
    have foreign := table.foreign fd n
    grind

theorem update_connections (c d : Nat) (f : TcpConnection → TcpConnection) (s : World) :
    (s.update c f).connections d = if d = c then f (s.connections d) else s.connections d := by
  by_cases same : d = c
  · subst same
    simp [World.update]
  · simp [World.update,same]

/-- `closed_` is set on a connection that is out of both containers. -/
theorem Table.marked (table : Table (.destoryConnection c :: ctx) s) :
    Table ctx (s.update c fun this => { this with closed_ := true }) := by
  have fields (d : Nat) : ((s.update c fun this => { this with closed_ := true }).connections d).fd_ =
        (s.connections d).fd_ ∧
      ((s.update c fun this => { this with closed_ := true }).connections d).close_cb_ = (s.connections d).close_cb_ ∧
      ((s.update c fun this => { this with closed_ := true }).connections d).closed_ =
        if d = c then true else (s.connections d).closed_ := by
    rw [update_connections]
    split <;> exact ⟨rfl,rfl,rfl⟩
  constructor
  · exact table.alive
  · exact table.intact
  · exact fun d inside => table.closing d (List.mem_cons_of_mem _ inside)
  · intro d; rw [(fields d).2.1]; exact table.reports d
  · exact table.bounded
  · intro d old
    rw [(fields d).2.2]
    have before := table.listed d old
    simp only [List.mem_cons,Callback.destoryConnection.injEq] at before
    change s.connections_ d = true ↔ _
    grind
  · intro d old
    rw [(fields d).1,(fields d).2.2]
    have before := table.held d old
    grind
  · intro d; rw [(fields d).1]; exact table.entered d
  · intro fd d; rw [(fields d).1]; exact table.own fd d
  · exact table.numbers
  · intro d; rw [(fields d).1]; exact table.opened d
  · intro d e; rw [(fields d).1,(fields e).1]; exact table.distinct d e
  · intro fd n found d old
    rw [(fields d).1]
    exact table.foreign fd n found d old
  · exact table.announces

def shut (c : Nat) (s : World) : World :=
  World.update { s with loop := { s.loop with kernel := s.loop.kernel.close (s.connections c).fd_ } } c
    fun this => { this with fd_ := -1 }

/-- The number of a closed connection may be given to another. -/
theorem Table.shut (table : Table ctx s) (made : c < s.made) (closed : (s.connections c).closed_ = true)
    (positive : 0 < (s.connections c).fd_) : Table ctx (shut c s) := by
  have fields (d : Nat) : ((TcpServer.shut c s).connections d).closed_ = (s.connections d).closed_ ∧
      ((TcpServer.shut c s).connections d).close_cb_ = (s.connections d).close_cb_ ∧
      ((TcpServer.shut c s).connections d).fd_ = if d = c then -1 else (s.connections d).fd_ := by
    rw [TcpServer.shut,update_connections]
    split <;> exact ⟨rfl,rfl,rfl⟩
  have kernel (fd : Int) : fd ∈ (TcpServer.shut c s).loop.kernel.opened ↔
      fd ∈ s.loop.kernel.opened ∧ fd ≠ (s.connections c).fd_ := by
    change fd ∈ s.loop.kernel.opened.filter (· ≠ (s.connections c).fd_) ↔ _
    simp
  have unlisted : s.connections_ c = false := by
    have before := table.listed c made
    grind
  have absent (fd : Int) (e : EventPtr) (found : s.loop.events_.lookup fd = some e) :
      fd ≠ (s.connections c).fd_ := by
    cases e with
    | acceptor n => exact (table.foreign fd n found c made).symm
    | connection d =>
      obtain ⟨listed,same⟩ := table.own fd d found
      have distinct := table.distinct c d made (table.bounded d listed) positive
      grind
  constructor
  · exact table.alive
  · exact table.intact
  · exact table.closing
  · intro d; rw [(fields d).2.1]; exact table.reports d
  · exact table.bounded
  · intro d; rw [(fields d).1]; exact table.listed d
  · intro d old
    rw [(fields d).1,(fields d).2.2]
    have before := table.held d old
    grind
  · intro d listed
    rw [(fields d).2.2]
    have before := table.entered d listed
    change s.connections_ d = true at listed
    change s.loop.events_.lookup _ = _
    grind
  · intro fd d found
    rw [(fields d).2.2]
    have before := table.own fd d found
    change s.connections_ d = true ∧ _
    grind
  · intro fd e found
    rw [kernel]
    exact ⟨(table.numbers fd e found).1,(table.numbers fd e found).2,absent fd e found⟩
  · intro d old
    rw [(fields d).2.2,kernel]
    have before := table.opened d old
    have distinct := table.distinct c d made old positive
    grind
  · intro d e oldD oldE
    rw [(fields d).2.2,(fields e).2.2]
    have before := table.distinct d e oldD oldE
    grind
  · intro fd n found d old
    rw [(fields d).2.2]
    have before := table.foreign fd n found d old
    have nonneg := (table.numbers fd _ found).1
    grind
  · exact table.announces

def arrived (fd : Int) (s : World) : World := accepted fd (opens (.onAccept fd) s)

theorem arrived_fields (fd : Int) (s : World) (d : Nat) :
    ((arrived fd s).connections d).fd_ = (if d = s.made then fd else (s.connections d).fd_) ∧
      ((arrived fd s).connections d).closed_ = (if d = s.made then false else (s.connections d).closed_) ∧
      ((arrived fd s).connections d).close_cb_ = (if d = s.made then true else (s.connections d).close_cb_) := by
  by_cases same : d = s.made
  · subst same
    simp [arrived,accepted,opens,World.addEvent,World.setMask,World.update,World.construct]
  · simp [arrived,accepted,opens,World.addEvent,World.setMask,World.update,World.construct,same]

theorem arrived_connections (fd : Int) (s : World) (d : Nat) :
    (arrived fd s).connections_ d = if d = s.made then true else s.connections_ d :=
  Function.update_apply _ _ _ _

theorem arrived_temporaries (fd : Int) (s : World) (d : Nat) :
    (arrived fd s).temporaries d = if d = s.made then 1 else s.temporaries d :=
  Function.update_apply _ _ _ _

theorem arrived_loop (fd : Int) (s : World) : ∃ e : Event, e.fd_ = fd ∧ (arrived fd s).loop =
    (EventLoop.addEvent (.connection s.made) e { s.loop with kernel := s.loop.kernel.opens fd }).2 := by
  refine ⟨_,?_,rfl⟩
  simp [World.event,World.construct,opens]

theorem arrived_lookup (fd : Int) (s : World) (absent : s.loop.events_.lookup fd = none) (number : Int) :
    (arrived fd s).loop.events_.lookup number =
      if number = fd then some (.connection s.made) else s.loop.events_.lookup number := by
  obtain ⟨e,same,loop⟩ := arrived_loop fd s
  subst same
  rw [loop]
  exact EventLoop.addEvent_lookup _ e _ number absent

theorem arrived_opened (fd : Int) (s : World) (number : Int) :
    number ∈ (arrived fd s).loop.kernel.opened ↔ number = fd ∨ number ∈ s.loop.kernel.opened := by
  obtain ⟨e,_,loop⟩ := arrived_loop fd s
  rw [loop,EventLoop.addEvent_opened]
  exact List.mem_cons

/-- A new connection is in both containers before anybody hears of it. -/
theorem Table.arrived (table : Table ctx s) (fd : Int) (positive : 0 < fd)
    (free : fd ∉ s.loop.kernel.opened) : Table ctx (arrived fd s) ∧ Grows s (arrived fd s) := by
  have absent : s.loop.events_.lookup fd = none := by
    cases found : s.loop.events_.lookup fd with
    | none => rfl
    | some e => exact absurd (table.numbers fd e found).2 free
  have made : (TcpServer.arrived fd s).made = s.made + 1 := rfl
  have fields := arrived_fields fd s
  have lookup := arrived_lookup fd s absent
  have opened := arrived_opened fd s
  have unlisted : ∀ d, s.connections_ d = true → d ≠ s.made := fun d listed same =>
    Nat.lt_irrefl _ (same ▸ table.bounded d listed)
  refine ⟨⟨?_,table.intact,?_,?_,?_,?_,?_,?_,?_,?_,?_,?_,?_,table.announces⟩,?_⟩
  · intro d old
    rw [arrived_temporaries]
    have before := table.alive d
    grind
  · exact fun d inside => Nat.lt_succ_of_lt (table.closing d inside)
  · intro d old
    rw [(fields d).2.2]
    have before := table.reports d
    grind
  · intro d
    rw [arrived_connections]
    have before := table.bounded d
    grind
  · intro d old
    rw [arrived_connections,(fields d).2.1]
    have before := table.listed d
    have outside : Callback.destoryConnection s.made ∉ ctx := fun inside => Nat.lt_irrefl _ (table.closing _ inside)
    grind
  · intro d old
    rw [(fields d).1,(fields d).2.1]
    have before := table.held d
    grind
  · intro d
    rw [arrived_connections,(fields d).1,lookup]
    have before := table.entered d
    have numbers := table.numbers
    grind
  · intro number d
    rw [arrived_connections,(fields d).1,lookup]
    have before := table.own number d
    grind
  · intro number e
    rw [lookup,opened]
    have before := table.numbers number e
    grind
  · intro d old
    rw [(fields d).1,opened]
    have before := table.opened d
    grind
  · intro d e oldD oldE
    rw [(fields d).1,(fields e).1]
    have before := table.distinct d e
    have openedD := table.opened d
    have openedE := table.opened e
    grind
  · intro number n
    rw [lookup]
    intro found d old
    rw [(fields d).1]
    have before := table.foreign number n
    have numbers := table.numbers number
    grind
  · constructor
    · exact Nat.le_succ _
    intro d old
    rw [arrived_temporaries]
    grind

end Table
def tableContract : Contract World Query Callback Method where
  inv := Table
  rely := fun _ => Grows
  pre := fun ctx m s => Table ctx s ∧
    match m with
    | .onAccept fd => 0 < fd ∧ fd ∉ s.loop.kernel.opened
    | .connection c _ | .expire c => c < s.made
    | .destructor _ => False
  post := fun ctx _ s after => Table ctx after ∧ Grows s after
  asks := fun _ _ _ => True
  mayFault := False

section Calls
variable (ctx : List Callback) (c : Nat) (s start : World)

/-- What holds throughout a handler of `c` that was called in `start`. -/
def Within (s : World) : Prop := Table ctx s ∧ c < s.made ∧ Grows start s

theorem Within.alike {ctx : List Callback} {c : Nat} {start s after : World} (within_ : Within ctx c start s)
    (alike : Alike s after) : Within ctx c start after :=
  ⟨within_.1.alike alike,by rw [alike.made]; exact within_.2.1,within_.2.2.trans alike.grows⟩

/-- A connection that somebody owns is not destroyed. -/
theorem wp_dropped (owned : s.owned c = true) (goal : Unit → World → Prop) (holds : goal () s) :
    wp keeping freshAccepts tableContract ctx (dropped c) goal s := by
  simp only [dropped,wp_bind,wp_read,wp_ite,wp_run,wp_pure,owned]
  exact ⟨fun unowned => (by cases unowned),fun _ => holds⟩

theorem wp_acquire (owned : s.owned c = true) (goal : Unit → World → Prop)
    (holds : goal () (s.setTemporaries c (s.temporaries c + 1))) :
    wp keeping freshAccepts tableContract ctx (acquire c) goal s := by
  simp only [acquire,wp_bind,wp_read,wp_ite,wp_modify,wp_fault,owned]
  exact ⟨fun _ => holds,fun unowned => absurd trivial unowned⟩

theorem wp_release (inside : List Callback) (after : World) (table : Table inside after) (made : c < s.made) (counted : 0 < s.temporaries c)
    (grows : Grows (s.setTemporaries c (s.temporaries c + 1)) after) (goal : Unit → World → Prop)
    (holds : ∀ last, Table inside last → Grows s last → c < last.made → goal () last) :
    wp keeping freshAccepts tableContract ctx (release c) goal after := by
  have taken := grows.temporaries c made
  simp only [World.setTemporaries,Function.update_self] at taken
  have left : Table inside (after.setTemporaries c (after.temporaries c - 1)) := table.temporaries _ (by omega)
  have later : c < after.made := Nat.lt_of_lt_of_le made grows.made
  simp only [release,wp_bind,wp_modify]
  apply wp_dropped
  · exact left.owned later
  apply holds _ left _ later
  refine ⟨grows.made,fun d old => ?_⟩
  by_cases same : d = c
  · subst same
    simp only [World.setTemporaries,Function.update_self]
    omega
  · have kept := grows.temporaries d old
    simpa [World.setTemporaries,same] using kept

theorem invoke_within (t : Callback) (other : ∀ d, t ≠ .destoryConnection d) (plain : ∀ s, keeps t s = s) :
    Kept keeping freshAccepts tableContract ctx (Within ctx c start)
      (do acquire c; Prog.invoke t; release c) fun _ => True := by
  rintro s ⟨table,made,grows⟩
  rw [wp_bind]
  apply wp_acquire _ _ _ (table.owned made)
  simp only [wp_bind,wp_invoke]
  change Table (t :: ctx) (keeps t _) ∧ _
  rw [plain,table_cons other]
  refine ⟨table.temporaries _ (Nat.succ_pos _),fun after kept inv => ?_⟩
  change Grows (keeps t _) after at kept
  rw [plain] at kept
  apply wp_release ctx c s ctx after ((table_cons other).mp inv) made (table.alive c made) kept
  exact fun last later more bound => ⟨trivial,later,bound,grows.trans more⟩

theorem update_alike (f : TcpConnection → TcpConnection) (same : ∀ this, (f this).fd_ = this.fd_ ∧
    (f this).closed_ = this.closed_ ∧ (f this).close_cb_ = this.close_cb_) : Alike s (s.update c f) := by
  refine ⟨rfl,rfl,rfl,rfl,rfl,rfl,rfl,fun d => ?_⟩
  rw [update_connections]
  split
  · exact same _
  · exact ⟨rfl,rfl,rfl⟩

theorem enableWriting_alike (on : Bool) : Alike s (s.enableWriting c on) := by
  unfold World.enableWriting
  split
  · exact ⟨rfl,rfl,rfl,rfl,rfl,rfl,rfl,fun _ => ⟨rfl,rfl,rfl⟩⟩
  · next e loop enabled =>
    obtain ⟨events_,opened⟩ := EventLoop.enableEvent_same _ _ enabled
    have masked := update_alike c s (fun this => { this with event_ := e.event_ }) fun _ => ⟨rfl,rfl,rfl⟩
    exact ⟨rfl,rfl,rfl,rfl,events_,opened,rfl,masked.connections⟩

theorem run_within (m : TcpConnection.Method) :
    Kept keeping freshAccepts tableContract ctx (Within ctx c start) (Prog.run (.connection c m)) fun _ => True := by
  rintro s ⟨table,made,grows⟩
  refine ⟨⟨table,made⟩,?_⟩
  rintro after ⟨later,more⟩
  exact ⟨trivial,later,Nat.lt_of_lt_of_le made more.made,grows.trans more⟩

theorem self_intact (goal : TcpConnection → World → Prop) (intact : s.destroyed c = false)
    (holds : goal (s.connections c) s) : wp keeping freshAccepts tableContract ctx (host c).self goal s := by
  simp only [host,wp_bind,wp_read,wp_ite,wp_fault,wp_pure,intact]
  exact ⟨fun gone => (by cases gone),fun _ => holds⟩

theorem host_within :
    (host c).Keeps keeping freshAccepts tableContract ctx (Within ctx c start) fun _ => True where
  self := fun s holds => self_intact ctx c s _ (holds.1.intact c) ⟨trivial,holds⟩
  update := fun f plain s holds => ⟨trivial,holds.alike (update_alike c s f fun this =>
    ⟨(plain this).1,(plain this).2.1,(plain this).2.2.2⟩)⟩
  messageCallback := invoke_within ctx c start _ (fun _ => by simp) fun _ => rfl
  writeCompleteCallback := invoke_within ctx c start _ (fun _ => by simp) fun _ => rfl
  write := fun _ _ _ _ holds => ⟨trivial,fun _ _ => ⟨trivial,holds⟩⟩
  writev := by
    intro fd vec s holds
    refine ⟨trivial,fun a admitted => ⟨⟨?_,fun _ => trivial⟩,holds⟩⟩
    simpa [freshAccepts,anyServer] using admitted
  readFd := fun _ _ holds => ⟨trivial,fun _ _ => ⟨fun _ => trivial,holds⟩⟩
  enableWriting := fun on s holds => ⟨trivial,holds.alike (enableWriting_alike c s on)⟩
  onClose := fun s holds => run_within ctx c start .onClose s holds.2
  readLoop := run_within ctx c start .readLoop
  writeLoop := run_within ctx c start .writeLoop

/-- `erase` and `DelEvent` come before the application's callback. -/
theorem onConnectionClose_table (table : Table ctx s) (made : c < s.made)
    (open_ : (s.connections c).closed_ = false) (goal : Unit → World → Prop)
    (holds : ∀ after, Table (.destoryConnection c :: ctx) after → Grows s after → goal () after) :
    wp keeping freshAccepts tableContract ctx (onConnectionClose c) goal s := by
  have unlisted := table.unlist made open_
  have moved : Grows s (unlist c s) := ⟨Nat.le_refl _,fun _ _ => Nat.le_refl _⟩
  have announced : wp keeping freshAccepts tableContract ctx (do
      let s ← Prog.read
      if s.destory_connection_cb then Prog.invoke (.destoryConnection c)) goal (unlist c s) := by
    simp only [wp_bind,wp_read,wp_ite,wp_invoke,wp_pure]
    exact ⟨fun _ => ⟨unlisted,fun after kept inv => holds after inv (moved.trans kept)⟩,fun _ => holds _ unlisted moved⟩
  have unregistered : wp keeping freshAccepts tableContract ctx (delEvent c) (fun _ after => after = unlist c s)
      { s with connections_ := Function.update s.connections_ c false } := by
    simp only [delEvent,World.event,wp_bind,wp_read,wp_modify]
    cases found : s.loop.events_.lookup (s.connections c).fd_ with
    | none => rfl
    | some e =>
      have own := table.entry_own made open_ found
      subst own
      exact wp_dropped ctx c _ (unlisted.owned made) _ rfl
  have erased : wp keeping freshAccepts tableContract ctx (eraseConnection c)
      (fun _ after => after = { s with connections_ := Function.update s.connections_ c false }) s := by
    simp only [eraseConnection,wp_bind,wp_read,wp_ite,wp_modify,wp_pure]
    have owned : World.owned { s with connections_ := Function.update s.connections_ c false } c = true :=
      owned_of_temporaries (table.alive c made)
    refine ⟨fun _ => wp_dropped ctx c _ owned _ rfl,fun absent => ?_⟩
    have same : Function.update s.connections_ c false = s.connections_ :=
      Function.update_eq_self_iff.mpr (by simpa using absent)
    rw [same]
  rw [onConnectionClose,wp_bind]
  refine wp_mono erased fun _ after same => ?_
  subst same
  rw [wp_bind]
  refine wp_mono unregistered fun _ after same => ?_
  subst same
  exact announced

/-- Whatever the callback did, the descriptor is closed once, by whoever comes first. -/
theorem close_table (table : Table ctx s) (made : c < s.made) (closed : (s.connections c).closed_ = true)
    (goal : Unit → World → Prop) (holds : ∀ after, Table ctx after → Grows s after → goal () after) :
    wp keeping freshAccepts tableContract ctx (TcpConnection.close (host c)) goal s := by
  rw [TcpConnection.close,wp_bind]
  apply self_intact _ _ _ _ (table.intact c)
  rw [wp_ite]
  constructor
  · intro positive
    have shut := table.shut made closed positive
    have moved : Grows s (TcpServer.shut c s) := ⟨Nat.le_refl _,fun _ _ => Nat.le_refl _⟩
    exact ⟨trivial,fun _ _ => holds _ shut moved⟩
  · exact fun _ => holds s table Grows.refl

theorem closeCallback_table (table : Table ctx s) (made : c < s.made)
    (open_ : (s.connections c).closed_ = false) (goal : Unit → World → Prop)
    (holds : ∀ after, Table (.destoryConnection c :: ctx) after → Grows s after → c < after.made → goal () after) :
    wp keeping freshAccepts tableContract ctx (host c).closeCallback goal s := by
  change wp keeping freshAccepts tableContract ctx (do acquire c; onConnectionClose c; release c) goal s
  rw [wp_bind]
  apply wp_acquire _ _ _ (table.owned made)
  rw [wp_bind]
  apply onConnectionClose_table ctx c _ (table.temporaries _ (Nat.succ_pos _)) made open_
  intro after later grows
  exact wp_release ctx c s _ after later made (table.alive c made) grows goal holds

theorem onClose_table (table : Table ctx s) (made : c < s.made) :
    wp keeping freshAccepts tableContract ctx (TcpConnection.onClose (host c))
      (fun _ after => Table ctx after ∧ Grows s after) s := by
  rw [TcpConnection.onClose,wp_bind]
  apply self_intact _ _ _ _ (table.intact c)
  rw [wp_ite]
  refine ⟨fun open_ => ?_,fun _ => ⟨table,Grows.refl⟩⟩
  rw [if_pos (table.reports c made),wp_bind]
  apply closeCallback_table ctx c s table made open_
  intro after later grows bound
  rw [wp_bind]
  change wp keeping freshAccepts tableContract ctx (TcpConnection.close (host c)) _
    (after.update c fun this => { this with closed_ := true })
  apply close_table ctx c _ later.marked bound (by simp [World.update])
  exact fun last kept more => ⟨kept,grows.trans ⟨more.made,more.temporaries⟩⟩

theorem expire_table (table : Table ctx s) (made : c < s.made) :
    wp keeping freshAccepts tableContract ctx (expire c) (fun _ after => Table ctx after ∧ Grows s after) s := by
  simp only [expire,wp_bind,wp_read,wp_ite,wp_pure]
  refine ⟨fun owned => ?_,fun _ => ⟨table,Grows.refl⟩⟩
  apply wp_acquire _ _ _ owned
  rw [wp_bind,wp_run]
  refine ⟨⟨table.temporaries _ (Nat.succ_pos _),made⟩,fun after done => ?_⟩
  exact wp_release ctx c s ctx after done.1 made (table.alive c made) done.2 _ fun last kept more _ => ⟨kept,more⟩

/-- The timer's pointer is given back at once; the application's is not. -/
theorem onAccept_table (table : Table ctx s) (fd : Int) (positive : 0 < fd) (free : fd ∉ s.loop.kernel.opened) :
    wp keeping freshAccepts tableContract ctx (onAccept fd) (fun _ after => Table ctx after ∧ Grows s after)
      (opens (.onAccept fd) s) := by
  obtain ⟨entered,grows⟩ := table.arrived fd positive free
  have made : s.made < (arrived fd s).made := Nat.lt_succ_self _
  simp only [onAccept,wp_bind,wp_read,wp_modify]
  change wp keeping freshAccepts tableContract ctx (enableCheckIdleTimeout s.made) _ (arrived fd s)
  rw [enableCheckIdleTimeout,wp_bind]
  apply wp_acquire _ _ _ (entered.owned made)
  apply wp_release ctx s.made (arrived fd s) ctx _ (entered.temporaries _ (Nat.succ_pos _)) made (entered.alive _ made)
    Grows.refl
  intro before kept more bound
  rw [wp_bind,wp_read,if_pos kept.announces,wp_bind,wp_invoke]
  refine ⟨(table_cons (by simp)).mpr (kept.temporaries _ (Nat.succ_pos _)),fun after later inv => ?_⟩
  apply wp_release ctx s.made before ctx after ((table_cons (by simp)).mp inv) bound (kept.alive _ bound) later
  exact fun last settled further _ => ⟨settled,grows.trans (more.trans further)⟩

theorem body_table (m : Method) (pre : tableContract.pre ctx m s) :
    wp keeping freshAccepts tableContract ctx (body m) (fun _ after => Table ctx after ∧ Grows s after)
      (opens m s) := by
  obtain ⟨table,ready⟩ := pre
  cases m with
  | onAccept fd => exact onAccept_table ctx s table fd ready.1 ready.2
  | expire c => exact expire_table ctx c s table ready
  | destructor c => exact ready.elim
  | connection c m =>
    by_cases itself : m = .onClose
    · subst itself
      exact onClose_table ctx c s table ready
    · apply wp_mono (TcpConnection.body_kept (host_within ctx c s) m itself s ⟨table,ready,Grows.refl⟩ fun _ => trivial)
      exact fun _ after within_ => ⟨within_.1,within_.2.2⟩

end Calls
theorem table_sound : tableContract.Sound keeping freshAccepts where
  rely_refl := fun _ _ => Grows.refl
  rely_trans := fun _ _ _ _ => Grows.trans
  body := fun ctx m s => body_table ctx s m
  enter := by
    intro ctx m s table allowed
    obtain ⟨server,fresh⟩ := Bool.and_eq_true_iff.mp allowed
    refine ⟨table,?_⟩
    cases m with
    | onAccept fd => exact of_decide_eq_true fresh
    | expire c => exact of_decide_eq_true server
    | destructor c => cases server
    | connection c m =>
      cases m with
      | readLoop | writeLoop | onTimeout => cases server
      | _ => exact of_decide_eq_true (Bool.and_eq_true_iff.mp server).1
  leave := fun _ _ _ _ _ _ done => done

theorem Started.table {s : World} (started : Started s) : Table [] s := by
  have nobody (c : Nat) : ¬c < s.made := by rw [started.made]; exact Nat.not_lt_zero c
  refine ⟨fun c made => absurd made (nobody c),started.destroyed,fun _ inside => absurd inside List.not_mem_nil,
    fun c made => absurd made (nobody c),?_,fun c made => absurd made (nobody c),
    fun c made => absurd made (nobody c),?_,?_,?_,fun c made => absurd made (nobody c),
    fun c d made => absurd made (nobody c),fun fd n found c made => absurd made (nobody c),
    started.new_connection_cb_⟩
  · intro c listed
    rw [started.connections_] at listed
    cases listed
  · intro c listed
    rw [started.connections_] at listed
    cases listed
  · intro fd c found
    obtain ⟨_,_,n,same⟩ := started.acceptors fd _ found
    cases same
  · intro fd e found
    exact ⟨(started.acceptors fd e found).1,(started.acceptors fd e found).2.1⟩

/-- Between operations `connections_` is the set of open connections, each of them is in
`events_` under a descriptor of its own, and no closed one is left in either. -/
theorem connections_match (s : World) (c : Config World Query Result Callback Method) (started : Started s)
    (reached : keeping.Reachable freshAccepts s c) (between : c.stack = []) : Matches c.state := by
  have controlled : c.controlled := Config.controlled_of_nil between
  have table : Table (active c.stack) c.state :=
    reachable_invariant table_sound s c started.table reached controlled
  rw [between] at table
  have listed (d : Nat) : c.state.connections_ d = true ↔ d < c.state.made ∧ (c.state.connections d).closed_ = false := by
    constructor
    · intro inside
      have made := table.bounded d inside
      exact ⟨made,((table.listed d made).mp inside).1⟩
    · exact fun ⟨made,open_⟩ => (table.listed d made).mpr ⟨open_,List.not_mem_nil⟩
  refine ⟨listed,table.entered,?_,?_⟩
  · intro d e first second same
    have made := table.bounded d first
    exact table.distinct d e made (table.bounded e second) (table.held d made ((listed d).mp first).2) same
  · intro d closed made
    have absent : c.state.connections_ d = false := by
      rw [← Bool.not_eq_true,listed d,closed]
      exact fun inside => by cases inside.2
    refine ⟨absent,fun fd found => ?_⟩
    rw [(table.own fd d found).1] at absent
    cases absent

theorem listening_started : Started listening := by
  refine ⟨rfl,fun _ => rfl,fun fd e found => ?_,rfl,fun _ => rfl⟩
  by_cases here : fd = 4
  · subst here
    cases found
    exact ⟨by decide,by decide,0,rfl⟩
  · rw [listening,AList.lookup_insert_ne here] at found
    cases found

/-- The first connection is closed from inside its own destroy callback too, and its number goes
to the second. -/
theorem connections_match_reused :
    ∃ c : Config World Query Result Callback Method, c.state.made = 2 ∧ c.state.connections_ 0 = false ∧
      c.state.connections_ 1 = true ∧ (c.state.connections 1).fd_ = 5 ∧ Matches c.state := by
  have reached := keeping.play_reachable freshAccepts 80
    [.enter (.onAccept 5),.leave,.enter (.connection 0 .onRead),.answer ⟨0,0,[]⟩,
      .enter (.connection 0 .forceClose),.leave,.answer ⟨0,0,[]⟩,.leave,.enter (.onAccept 5),.leave] listening _ rfl
  exact ⟨_,rfl,rfl,rfl,rfl,connections_match listening _ listening_started reached rfl⟩

end Tmms.Network.TcpServer
