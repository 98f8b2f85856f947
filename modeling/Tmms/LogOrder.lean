import Tmms.LogLines

/-! The order of the lines. A line has the time at which its statement began, but stands where the
statement ended; so the lines of a thread are in the order of their times as long as none of the
statements is inside another, or they are equally deep. -/
namespace Tmms.Base.Logging

/-- The clock is set to times that can be printed, and never back. -/
def Forward : Tm → List Move → Prop
  | now,.passes time :: moves => now.numbers ≤ time.numbers ∧ time.InRange ∧ Forward time moves
  | now,_ :: moves => Forward now moves
  | _,[] => True

def Nested : List LogStream → Prop
  | [] => True
  | x :: rest => x.statement.depth = rest.length ∧ Nested rest

theorem Nested.depth_lt {streams : List LogStream} (nested : Nested streams) :
    ∀ x ∈ streams, x.statement.depth < streams.length := by
  induction streams with
  | nil => exact fun x among => by cases among
  | cons top rest ih =>
    rw [List.forall_mem_cons]
    obtain ⟨depth,further⟩ := nested
    exact ⟨by rw [depth]; exact Nat.lt_succ_self _,fun x among => Nat.lt_succ_of_lt (ih further x among)⟩

/-- Two lines of a thread whose statements were inside equally many others. -/
def Beside (x y : Statement) : Prop := x.thread = y.thread ∧ x.depth = y.depth

/-- What began before what, as far as the lines have to do with it. -/
structure Timely (s : World) : Prop where
  now : s.time.InRange
  nested : ∀ thread, Nested (s.streams thread)
  own : ∀ thread, ∀ x ∈ s.streams thread, x.statement.thread = thread
  begun : ∀ thread, ∀ x ∈ s.streams thread,
    x.statement.time.InRange ∧ x.statement.time.numbers ≤ s.time.numbers
  past : ∀ done ∈ s.ended, done.1.time.InRange ∧ done.1.time.numbers ≤ s.time.numbers
  earlier : ∀ thread, ∀ x ∈ s.streams thread, ∀ done ∈ s.ended, Beside done.1 x.statement →
    done.1.time.numbers ≤ x.statement.time.numbers
  sorted : s.ended.Pairwise fun before after => Beside before.1 after.1 →
    before.1.time.numbers ≤ after.1.time.numbers

section Order
variable {s next final : World}

theorem nested_update {streams : Nat → List LogStream} {thread : Nat} {list : List LogStream}
    (others : ∀ t, Nested (streams t)) (here : Nested list) : ∀ t, Nested (Function.update streams thread list t) := by
  intro t
  by_cases same : t = thread
  · subst same
    rw [Function.update_self]
    exact here
  · rw [Function.update_of_ne same]
    exact others t

theorem Timely.passes (timely : Timely s) {time : Tm} (range : time.InRange)
    (later : s.time.numbers ≤ time.numbers) : Timely { s with time := time } where
  now := range
  nested := timely.nested
  own := timely.own
  begun := fun thread x among => ⟨(timely.begun thread x among).1,le_trans (timely.begun thread x among).2 later⟩
  past := fun done among => ⟨(timely.past done among).1,le_trans (timely.past done among).2 later⟩
  earlier := timely.earlier
  sorted := timely.sorted

/-- A statement begins now, and what has ended began before. -/
theorem Timely.begin_ (timely : Timely s) (thread : Nat) (site : Site) : Timely (s.begin_ thread site) where
  now := timely.now
  nested := nested_update timely.nested ⟨rfl,timely.nested thread⟩
  own := forall_update timely.own (List.forall_mem_cons.mpr ⟨rfl,timely.own thread⟩)
  begun := forall_update timely.begun (List.forall_mem_cons.mpr ⟨⟨timely.now,le_refl _⟩,timely.begun thread⟩)
  past := timely.past
  earlier := by
    apply forall_update timely.earlier
    rw [List.forall_mem_cons]
    exact ⟨fun done among _ => (timely.past done among).2,timely.earlier thread⟩
  sorted := timely.sorted

theorem Timely.put (timely : Timely s) {thread : Nat} {x : LogStream} {rest : List LogStream}
    (top : s.streams thread = x :: rest) (value : List UInt8) :
    Timely { s with streams := Function.update s.streams thread (x.put value :: rest) } := by
  obtain ⟨now,nested,own,begun,past,earlier,sorted⟩ := timely
  have nestedHere := nested thread
  have ownHere := own thread
  have begunHere := begun thread
  have earlierHere := earlier thread
  rw [top] at nestedHere ownHere begunHere earlierHere
  rw [List.forall_mem_cons] at ownHere begunHere earlierHere
  exact ⟨now,nested_update nested nestedHere,forall_update own (List.forall_mem_cons.mpr ownHere),
    forall_update begun (List.forall_mem_cons.mpr begunHere),past,
    forall_update earlier (List.forall_mem_cons.mpr earlierHere),sorted⟩

/-- What is left of a thread's statements is less deep than the one that ends. -/
theorem Timely.end_ (timely : Timely s) {thread : Nat} {x : LogStream} {rest : List LogStream}
    (top : s.streams thread = x :: rest) :
    Timely ({ s with streams := Function.update s.streams thread rest }.end_ x) := by
  obtain ⟨now,nested,own,begun,past,earlier,sorted⟩ := timely
  have nestedHere := nested thread
  have ownHere := own thread
  have begunHere := begun thread
  have earlierHere := earlier thread
  rw [top] at nestedHere ownHere begunHere earlierHere
  rw [List.forall_mem_cons] at ownHere begunHere earlierHere
  obtain ⟨depth,further⟩ := nestedHere
  obtain ⟨streams,time,went,ended⟩ := ended_end x { s with streams := Function.update s.streams thread rest }
  constructor
  · rw [time]
    exact now
  · rw [streams]
    exact nested_update nested further
  · rw [streams]
    exact forall_update own ownHere.2
  · rw [streams,time]
    exact forall_update begun begunHere.2
  · rw [ended,time,List.forall_mem_append,List.forall_mem_singleton]
    exact ⟨past,begunHere.1⟩
  · rw [streams,ended]
    intro t y among done inside beside
    rcases List.mem_append.mp inside with before | last
    · exact forall_update earlier earlierHere.2 t y among done before beside
    · -- the statement that has just ended is beside none that is still being built
      cases List.mem_singleton.mp last
      exfalso
      have owner := forall_update own ownHere.2 t y among
      have same : t = thread := by rw [← owner,← beside.1,ownHere.1]
      subst same
      simp only [Function.update_self] at among
      have shallow := further.depth_lt y among
      rw [← beside.2,depth] at shallow
      exact Nat.lt_irrefl _ shallow
  · rw [ended,List.pairwise_append]
    refine ⟨sorted,List.pairwise_singleton _ _,fun done among last inside => ?_⟩
    cases List.mem_singleton.mp inside
    exact earlierHere.1 done among

theorem Timely.step {move : Move} (timely : Timely s) (stepped : Stepped s move next)
    (forward : Forward s.time [move]) : Timely next := by
  cases stepped with
  | passed time => exact timely.passes forward.2.1 forward.1
  | managed | made | leveled =>
    exact ⟨timely.now,timely.nested,timely.own,timely.begun,timely.past,timely.earlier,timely.sorted⟩
  | dropped => exact timely
  | started thread site => exact timely.begin_ thread site
  | printed thread value x rest top => exact timely.put top value
  | finished thread x rest top => exact timely.end_ top

theorem Forward.step {move : Move} {moves : List Move} (stepped : Stepped s move next)
    (forward : Forward s.time (move :: moves)) : Forward s.time [move] ∧ Forward next.time moves := by
  cases stepped with
  | passed time => exact ⟨⟨forward.1,forward.2.1,trivial⟩,forward.2.2⟩
  | managed | made | leveled | dropped | started | printed => exact ⟨trivial,forward⟩
  | finished thread x rest top =>
    obtain ⟨_,time,_⟩ := ended_end x { s with streams := Function.update s.streams thread rest }
    rw [time]
    exact ⟨trivial,forward⟩

theorem run_timely {moves : List Move} (timely : Timely s) (forward : Forward s.time moves)
    (ran : exec moves s = some final) : Timely final := by
  induction moves generalizing s with
  | nil =>
    cases ran
    exact timely
  | cons move moves ih =>
    obtain ⟨next,stepped,rest⟩ := Option.bind_eq_some_iff.mp ran
    obtain ⟨here,further⟩ := forward.step (step_cases stepped)
    exact ih (timely.step (step_cases stepped) here) further rest

theorem Ready.timely (ready : Ready s) (range : s.time.InRange) : Timely s := by
  obtain ⟨_,_,silent,new⟩ := ready
  constructor
  · exact range
  · intro thread
    rw [silent]
    trivial
  · simp [silent]
  · simp [silent]
  · simp [new]
  · simp [silent]
  · simp [new]

/-- What a run adds to a file is lines, and those of one thread whose statements were inside equally many
others are in the order of their time stamps, which sort as texts. -/
theorem lines_in_order (s final : World) (ready : Ready s) (range : s.time.InRange) (moves : List Move)
    (forward : Forward s.time moves) (ran : exec moves s = some final) (file : Nat) :
    final.files.text file = s.files.text file ++ ((linesIn file final.ended).map Statement.text).flatten ∧
      (linesIn file final.ended).Pairwise fun before after =>
        Beside before after → isoTime before.time ≤ isoTime after.time := by
  refine ⟨(run_recorded ready ran).content file,?_⟩
  have timely := run_timely (ready.timely range) forward ran
  rw [linesIn,List.pairwise_map]
  refine (timely.sorted.imp_of_mem ?_).filter _
  intro before after first second sorted beside
  exact (isoTime_le_iff (timely.past before first).1 (timely.past after second).1).mpr (sorted beside)

end Order

theorem quiet_range : quiet.time.InRange := by
  constructor <;> decide

theorem lines_in_order_interleaved :
    ∃ final, exec interleaved quiet = some final ∧ ∀ file,
      final.files.text file = quiet.files.text file ++ ((linesIn file final.ended).map Statement.text).flatten ∧
        (linesIn file final.ended).Pairwise fun before after =>
          Beside before after → isoTime before.time ≤ isoTime after.time := by
  obtain ⟨final,ran,_⟩ := Option.map_eq_some_iff.mp interleaved_ended
  have forward : Forward quiet.time interleaved := ⟨by decide,by constructor <;> decide,trivial⟩
  exact ⟨final,ran,lines_in_order quiet final quiet_ready quiet_range interleaved forward ran⟩

end Tmms.Base.Logging
