import Tmms.WheelClock

/-! Whether the wheel keeps up with its clock. A due call of `OnTimer` ticks once, however late it
is, and stores its own reading: so a second that no call falls into is lost, and so is the rest of
a second that a call comes late by. -/
namespace Tmms.Network.Timers

open Reentrant

def elapsed (first now : Int) : Int := (now - first) / 1000

/-- Each reading after the first second has one before it in the second just before its own, by a
whole second or more. -/
def Paced (first : Int) (times : List Int) : Prop :=
  ∀ now ∈ times, first + 1000 ≤ now → ∃ u ∈ times, u + 1000 ≤ now ∧ elapsed first u + 1 = elapsed first now

def clocked (times : List Int) : Clock := times.foldl Clock.onTimer ⟨0,0⟩

/-- After each of the calls the wheel has ticked once for every second. -/
def Punctual (first : Int) (times : List Int) : Prop :=
  ∀ before now after, times = before ++ now :: after →
    ((clocked (before ++ [now])).tick_ : Int) = elapsed first now

section Pace
variable {first latest now : Int} {times : List Int}

theorem clocked_snoc (times : List Int) (now : Int) : clocked (times ++ [now]) = (clocked times).onTimer now := by
  rw [clocked,List.foldl_append]
  rfl

structure Pace (first latest : Int) (times : List Int) : Prop where
  tick : ((clocked times).tick_ : Int) = elapsed first latest
  stored : (clocked times).last_ts_ ∈ times
  second : elapsed first (clocked times).last_ts_ = elapsed first latest
  earliest : ∀ u ∈ times, elapsed first u = elapsed first latest → (clocked times).last_ts_ ≤ u
  bounds : ∀ u ∈ times, first ≤ u ∧ u ≤ latest

theorem pace_first (first : Int) : Pace first first [first] := by
  have clock : clocked [first] = ⟨first,0⟩ := by simp [clocked,Clock.onTimer]
  have zero : elapsed first first = 0 := by simp [elapsed]
  constructor
  · rw [clock,zero]
    rfl
  · rw [clock]
    exact List.mem_singleton_self _
  · rw [clock]
  · intro u among _
    rw [clock,List.mem_singleton.mp among]
  · intro u among
    cases List.mem_singleton.mp among
    exact ⟨Int.le_refl _,Int.le_refl _⟩

/-- In the second of the stored reading, nothing happens. -/
theorem Pace.stays (pace : Pace first latest times) (positive : 0 < first)
    (same : elapsed first now = elapsed first latest) : clocked (times ++ [now]) = clocked times := by
  have bounds := pace.bounds _ pace.stored
  have second := pace.second
  rw [clocked_snoc]
  rcases onTimer_cases (clocked times) now with ⟨unset,_⟩ | ⟨_,_,took⟩ | ⟨_,due,_⟩
  · omega
  · exact took
  · simp only [elapsed] at same second
    omega

/-- In a later second the wheel ticks once, if a second has passed since the stored reading. -/
theorem Pace.goes (pace : Pace first latest times) (positive : 0 < first) :
    ((clocked times).last_ts_ + 1000 ≤ now →
      clocked (times ++ [now]) = ⟨now,(clocked times).tick_ + 1⟩) ∧
    (¬(clocked times).last_ts_ + 1000 ≤ now → clocked (times ++ [now]) = clocked times) := by
  have bounds := pace.bounds _ pace.stored
  rw [clocked_snoc]
  rcases onTimer_cases (clocked times) now with ⟨unset,_⟩ | ⟨_,early,took⟩ | ⟨_,due,took⟩
  · omega
  · exact ⟨fun due => by omega,fun _ => took⟩
  · exact ⟨fun _ => took,fun early => by omega⟩

/-- A reading keeps the pace if it is in the second at hand, or in the next one and a second after
the stored reading. -/
def InTime (first latest now : Int) (times : List Int) : Prop :=
  elapsed first now = elapsed first latest ∨
    elapsed first now = elapsed first latest + 1 ∧ (clocked times).last_ts_ + 1000 ≤ now

theorem Pace.tick_iff (pace : Pace first latest times) (positive : 0 < first) :
    ((clocked (times ++ [now])).tick_ : Int) = elapsed first now ↔ InTime first latest now times := by
  have tick := pace.tick
  by_cases same : elapsed first now = elapsed first latest
  · rw [pace.stays positive same,tick,same]
    exact ⟨fun _ => .inl same,fun _ => rfl⟩
  · obtain ⟨ticks,stays⟩ := @Pace.goes first latest now times pace positive
    by_cases due : (clocked times).last_ts_ + 1000 ≤ now
    · rw [ticks due]
      simp only [InTime,same,due,false_or,and_true]
      push_cast
      omega
    · rw [stays due]
      simp only [InTime,same,due,and_false,or_false,iff_false]
      omega

theorem Pace.next (pace : Pace first latest times) (positive : 0 < first) (later : latest ≤ now)
    (inTime : InTime first latest now times) : Pace first now (times ++ [now]) := by
  have tick := (pace.tick_iff positive).mpr inTime
  have bounds : ∀ u ∈ times ++ [now], first ≤ u ∧ u ≤ now := by
    intro u among
    rcases List.mem_append.mp among with old | new
    · have := pace.bounds u old
      omega
    · have := pace.bounds _ pace.stored
      cases List.mem_singleton.mp new
      omega
  rcases inTime with same | ⟨next,due⟩
  · have clock := pace.stays positive same
    refine ⟨tick,?_,?_,?_,bounds⟩
    · rw [clock]
      exact List.mem_append_left _ pace.stored
    · rw [clock,same]
      exact pace.second
    · rw [clock,same]
      intro u among second
      rcases List.mem_append.mp among with old | new
      · exact pace.earliest u old second
      · cases List.mem_singleton.mp new
        exact (pace.bounds _ pace.stored).2.trans later
  · have clock := (pace.goes positive).1 due
    refine ⟨tick,?_,?_,?_,bounds⟩
    · rw [clock]
      exact List.mem_append_right _ (List.mem_singleton_self _)
    · rw [clock]
    · rw [clock]
      intro u among second
      rcases List.mem_append.mp among with old | new
      · -- The readings before are in earlier seconds.
        have bound := (pace.bounds u old).2
        simp only [elapsed] at second next
        omega
      · exact Int.le_of_eq (List.mem_singleton.mp new).symm

/-- What paces a reading is not the latest one. -/
theorem Paced.earlier (paced : Paced first (times ++ [now])) (bounds : ∀ u ∈ times, u ≤ now) :
    ∀ x ∈ times ++ [now], first + 1000 ≤ x →
      ∃ u ∈ times, u + 1000 ≤ x ∧ elapsed first u + 1 = elapsed first x := by
  intro x among long
  obtain ⟨u,inside,before,second⟩ := paced x among long
  have bound : x ≤ now := by
    rcases List.mem_append.mp among with old | new
    · exact bounds x old
    · exact Int.le_of_eq (List.mem_singleton.mp new)
  rcases List.mem_append.mp inside with old | new
  · exact ⟨u,old,before,second⟩
  · cases List.mem_singleton.mp new
    omega

/-- One more reading is paced exactly if it is in time. -/
theorem Pace.paced_iff (pace : Pace first latest times) (later : latest ≤ now) :
    Paced first (times ++ [now]) ↔ Paced first times ∧ InTime first latest now times := by
  constructor
  · intro paced
    have earlier := paced.earlier fun u inside => (pace.bounds u inside).2.trans later
    refine ⟨fun x among => earlier x (List.mem_append_left _ among),?_⟩
    by_cases same : elapsed first now = elapsed first latest
    · exact .inl same
    · have bounds := pace.bounds _ pace.stored
      have long : first + 1000 ≤ now := by
        simp only [elapsed] at same
        omega
      obtain ⟨u,inside,before,second⟩ := earlier now (List.mem_append_right _ (List.mem_singleton_self _)) long
      have bound := (pace.bounds u inside).2
      have this : elapsed first u = elapsed first latest := by
        simp only [elapsed] at same second ⊢
        omega
      exact .inr ⟨by omega,Int.le_trans (Int.add_le_add_right (pace.earliest u inside this) _) before⟩
  · rintro ⟨paced,inTime⟩ x among long
    rcases List.mem_append.mp among with old | new
    · obtain ⟨u,inside,before,second⟩ := paced x old long
      exact ⟨u,List.mem_append_left _ inside,before,second⟩
    · cases List.mem_singleton.mp new
      have second := pace.second
      rcases inTime with same | ⟨next,due⟩
      · have bounds := pace.bounds _ pace.stored
        have late : first + 1000 ≤ (clocked times).last_ts_ := by
          simp only [elapsed] at same second
          omega
        obtain ⟨u,inside,before,previous⟩ := paced _ pace.stored late
        refine ⟨u,List.mem_append_left _ inside,by omega,?_⟩
        rw [previous,second,same]
      · exact ⟨_,List.mem_append_left _ pace.stored,due,by rw [second,next]⟩

theorem punctual_snoc : Punctual first (times ++ [now]) ↔
    Punctual first times ∧ ((clocked (times ++ [now])).tick_ : Int) = elapsed first now := by
  constructor
  · intro punctual
    refine ⟨fun before x after same => ?_,punctual times now [] rfl⟩
    exact punctual before x (after ++ [now]) (by rw [same,List.append_assoc,List.cons_append])
  · rintro ⟨punctual,last⟩ before x after same
    rcases List.eq_nil_or_concat after with rfl | ⟨more,y,rfl⟩
    · obtain ⟨rfl,final⟩ := List.append_inj' same rfl
      cases final
      exact last
    · rw [List.concat_eq_append,← List.cons_append,← List.append_assoc] at same
      exact punctual before x more (List.append_inj' same rfl).1

/-- A wheel ticks once for every second if and only if its readings are paced. -/
theorem punctual_iff (positive : 0 < first) (rest : List Int) (ordered : (first :: rest).Pairwise (· ≤ ·)) :
    (Punctual first (first :: rest) ↔ Paced first (first :: rest)) ∧
      (Paced first (first :: rest) → ∃ latest ∈ first :: rest, Pace first latest (first :: rest)) := by
  induction rest using List.reverseRecOn with
  | nil =>
    have pace := pace_first first
    refine ⟨⟨fun _ => ?_,fun _ => ?_⟩,fun _ => ⟨first,List.mem_singleton_self _,pace⟩⟩
    · intro now among late
      cases List.mem_singleton.mp among
      omega
    · have alone : Punctual first ([] ++ [first]) :=
        punctual_snoc.mpr ⟨fun before x after none => by simp at none,pace.tick⟩
      exact alone
  | append_singleton rest now ih =>
    rw [← List.cons_append] at ordered ⊢
    obtain ⟨before,_,across⟩ := List.pairwise_append.mp ordered
    obtain ⟨iff,paces⟩ := ih before
    by_cases paced : Paced first (first :: rest)
    · obtain ⟨latest,among,pace⟩ := paces paced
      have later : latest ≤ now := across latest among now (List.mem_singleton_self _)
      have extended := pace.paced_iff later
      refine ⟨?_,fun longer => ?_⟩
      · rw [punctual_snoc,iff,extended,pace.tick_iff positive]
      · exact ⟨now,List.mem_append_right _ (List.mem_singleton_self _),
          pace.next positive later (extended.mp longer).2⟩
    · have never : ¬Paced first (first :: rest ++ [now]) := by
        intro longer
        have earlier := longer.earlier fun u inside => across u inside now (List.mem_singleton_self _)
        exact paced fun x among => earlier x (List.mem_append_left _ among)
      refine ⟨⟨fun punctual => ?_,fun longer => absurd longer never⟩,fun longer => absurd longer never⟩
      exact absurd (iff.mp (punctual_snoc.mp punctual).1) paced

end Pace

section Runs
variable {delays : Nat → Bool} {s : World}

theorem readings_append (first second : List (Move World Query Answer Callback Method)) :
    readings (first ++ second) = readings first ++ readings second := by
  induction first with
  | nil => rfl
  | cons move moves ih =>
    cases move with
    | enter m =>
      cases m with
      | onTimer now => exact congrArg (List.cons now) ih
      | _ => exact ih
    | _ => exact ih

theorem readings_split (moves : List (Move World Query Answer Callback Method)) (before after : List Int) (now : Int)
    (read : readings moves = before ++ now :: after) :
    ∃ first second, moves = first ++ .enter (.onTimer now) :: second ∧ readings first = before := by
  induction moves generalizing before with
  | nil =>
    cases before with
    | nil => cases read
    | cons x before => cases read
  | cons move moves ih =>
    have skipped : readings moves = before ++ now :: after → readings [move] = [] →
        ∃ first second, move :: moves = first ++ .enter (.onTimer now) :: second ∧ readings first = before := by
      intro read none
      obtain ⟨first,second,rfl,same⟩ := ih before read
      refine ⟨move :: first,second,rfl,?_⟩
      rw [← List.singleton_append,readings_append,none,List.nil_append,same]
    cases move with
    | enter m =>
      cases m with
      | onTimer x =>
        cases before with
        | nil =>
          cases read
          exact ⟨[],moves,rfl,rfl⟩
        | cons y before =>
          injection read with same rest
          subst same
          obtain ⟨first,second,rfl,same⟩ := ih before rest
          exact ⟨.enter (.onTimer x) :: first,second,rfl,congrArg (List.cons x) same⟩
      | _ => exact skipped read rfl
    | _ => exact skipped read rfl

/-- A call of `OnTimer` begins where the one before has come back. -/
theorem exec_between {c : Config World Query Answer Callback Method}
    (moves : List (Move World Query Answer Callback Method)) (ran : system.exec (environment delays) moves ⟨s,[]⟩ = some c)
    (idle : c.stack = []) (before after : List Int) (read : readings moves = before ++ after) :
    ∃ first second d, moves = first ++ second ∧ system.exec (environment delays) first ⟨s,[]⟩ = some d ∧
      d.stack = [] ∧ readings first = before := by
  cases after with
  | nil => exact ⟨moves,[],c,(List.append_nil _).symm,ran,idle,read.trans (List.append_nil _)⟩
  | cons now after =>
    obtain ⟨first,second,rfl,same⟩ := readings_split moves before after now read
    rw [System.exec_append] at ran
    obtain ⟨d,reached,rest⟩ := Option.bind_eq_some_iff.mp ran
    obtain ⟨next,stepped,_⟩ := Option.bind_eq_some_iff.mp rest
    exact ⟨first,_,d,rfl,reached,(step_onTimer d next now stepped).1,same⟩

/-- Between two calls the wheel has ticked as its readings say, and popped a slot each time. -/
theorem idle_clock {d : Config World Query Answer Callback Method} (fresh : Fresh s)
    (moves : List (Move World Query Answer Callback Method))
    (ran : system.exec (environment delays) moves ⟨s,[]⟩ = some d) (idle : d.stack = []) :
    d.state.wheel.tick_ = (clocked (readings moves)).tick_ ∧
      d.state.turns .kTimingTypeSecond = d.state.wheel.tick_ := by
  have controlled := Config.controlled_of_nil idle
  constructor
  · have clock := clock_readings moves ⟨s,[]⟩ d rfl ran controlled
    have start : s.clock = ⟨0,0⟩ := by
      rw [World.clock,fresh.wheel]
      rfl
    rw [start] at clock
    exact congrArg Clock.tick_ clock
  · exact (timers_invariant delays s d fresh ⟨moves,ran⟩ controlled).1.logged.seconds

end Runs

/-- A loop whose readings do not go back has, after each call of `OnTimer`, ticked and popped a
slot of the second ring once for every second since the first reading, if and only if each reading
after the first second has one before it, a second or more earlier, in the second before. -/
theorem wheel_punctual_iff (delays : Nat → Bool) (s : World) (fresh : Fresh s)
    (moves : List (Move World Query Answer Callback Method)) (c : Config World Query Answer Callback Method)
    (ran : system.exec (environment delays) moves ⟨s,[]⟩ = some c) (idle : c.stack = [])
    (first : Int) (rest : List Int) (read : readings moves = first :: rest) (positive : 0 < first)
    (ordered : (first :: rest).Pairwise (· ≤ ·)) :
    (∀ before after d now, moves = before ++ after →
      system.exec (environment delays) before ⟨s,[]⟩ = some d → d.stack = [] →
      (readings before).getLast? = some now →
      (d.state.wheel.tick_ : Int) = elapsed first now ∧
        (d.state.turns .kTimingTypeSecond : Int) = elapsed first now) ↔ Paced first (first :: rest) := by
  rw [← (punctual_iff positive rest ordered).1]
  constructor
  · intro keeps before now after same
    have split : readings moves = (before ++ [now]) ++ after := by
      rw [read,same,List.append_assoc,List.singleton_append]
    obtain ⟨left,right,d,cut,reached,stopped,front⟩ := exec_between moves ran idle _ after split
    rw [← front,← (idle_clock fresh left reached stopped).1]
    refine (keeps left right d now cut reached stopped ?_).1
    rw [front,List.getLast?_append_of_ne_nil _ (List.cons_ne_nil _ _)]
    rfl
  · intro punctual before after d now cut reached stopped last
    obtain ⟨tick,turns⟩ := idle_clock fresh before reached stopped
    rw [turns,and_self,tick]
    obtain ⟨times,same⟩ := List.getLast?_eq_some_iff.mp last
    rw [same]
    apply punctual times now (readings after)
    rw [← read,cut,readings_append,same,List.append_assoc,List.singleton_append]

def steadyRun : List (Move World Query Answer Callback Method) :=
  .enter (.onTimer 1000) :: List.replicate 4 .advance ++ .enter (.onTimer 2100) :: List.replicate 14 .advance

theorem wheel_punctual_iff_steady :
    ∃ c, system.exec (environment short) steadyRun ⟨start,[]⟩ = some c ∧ c.state.wheel.tick_ = 1 ∧
      ∀ before after d now, steadyRun = before ++ after →
        system.exec (environment short) before ⟨start,[]⟩ = some d → d.stack = [] →
        (readings before).getLast? = some now →
        (d.state.wheel.tick_ : Int) = elapsed 1000 now ∧
          (d.state.turns .kTimingTypeSecond : Int) = elapsed 1000 now := by
  refine ⟨_,rfl,rfl,(wheel_punctual_iff short start start_fresh steadyRun _ rfl rfl 1000 [2100] rfl ?_ ?_).mpr ?_⟩
  · decide
  · decide
  · unfold Paced
    decide

/-- A call three seconds after the first: one tick, one slot. -/
theorem wheel_behind :
    ∃ moves c, system.exec (environment short) moves ⟨start,[]⟩ = some c ∧ c.stack = [] ∧
      readings moves = [1000,4000] ∧ c.state.wheel.tick_ = 1 ∧ elapsed 1000 4000 = 3 :=
  ⟨.enter (.onTimer 1000) :: List.replicate 4 .advance ++ .enter (.onTimer 4000) :: List.replicate 14 .advance,
    _,rfl,rfl,rfl,rfl,rfl⟩

end Tmms.Network.Timers
