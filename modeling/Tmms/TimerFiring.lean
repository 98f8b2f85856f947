import Mathlib.Data.List.MinMax
import Mathlib.Order.Nat
import Tmms.TimersContract

/-! When timers of less than a minute fire: exactly at the latest tick any of their
insertions asks for, and what their destructors then call. -/
namespace Tmms.Network.Timers

open Reentrant TimingWheel

def releases (e : EntryPtr) (s : World) : List Nat :=
  (s.released.filter (·.entry = e)).map Release.at_

def Act.among (p : EntryPtr → Bool) : Act → Bool
  | .callback e => p e
  | .onTimeout _ => false

/-- The ticks at which callbacks of such entries were made, latest first. -/
def callsAmong (p : EntryPtr → Bool) (s : World) : List Nat := (s.acts.filter (·.1.among p)).map Prod.snd

/-- The ticks at which the callback of `e` was made. -/
def calls (e : EntryPtr) (s : World) : List Nat := callsAmong (· = e) s

/-- The latest tick that an insertion of `e` asks for. -/
def latest (e : EntryPtr) (s : World) : Nat :=
  ((s.insertions.filter (·.entry = e)).map fun i => i.at_ + i.delay).foldr max 0

def short (d : Nat) : Bool := decide (1 ≤ d ∧ d ≤ 59)

def start : World where
  wheel := .initial
  tmp := []
  made := 0
  clients := fun _ => ⟨⟨-1,0,true,false,false,false,[],[]⟩,false,false,none,0⟩
  turns := fun _ => 0
  insertions := []
  released := []
  acts := []
  timeouts := []
  activity := []

theorem start_fresh : Fresh start := ⟨rfl,rfl,rfl,rfl,rfl,rfl,rfl⟩

section Exact
variable {delays : Nat → Bool} {s : World} {e : EntryPtr}

theorem le_latest (i : Insertion) (among : i ∈ s.insertions) (same : i.entry = e) :
    i.at_ + i.delay ≤ latest e s := by
  apply List.le_max_of_le (x := i.at_ + i.delay) _ (Nat.le_refl _)
  exact List.mem_map.mpr ⟨i,List.mem_filter.mpr ⟨among,by simpa using same⟩,rfl⟩

theorem latest_le (bound : Nat)
    (each : ∀ i ∈ s.insertions, i.entry = e → i.at_ + i.delay ≤ bound) : latest e s ≤ bound := by
  apply List.max_le_of_forall_le
  intro due inside
  obtain ⟨i,chosen,rfl⟩ := List.mem_map.mp inside
  obtain ⟨among,same⟩ := List.mem_filter.mp chosen
  exact each i among (by simpa using same)

theorem filter_once (list : List Release) (once : (list.map Release.entry).Nodup) (r : Release)
    (among : r ∈ list) : list.filter (·.entry = r.entry) = [r] := by
  induction list with
  | nil => cases among
  | cons first rest ih =>
    obtain ⟨apart,once⟩ := List.nodup_cons.mp once
    rcases List.mem_cons.mp among with rfl | inside
    · have none : rest.filter (·.entry = r.entry) = [] := by
        rw [List.filter_eq_nil_iff]
        intro other inside same
        exact apart (List.mem_map.mpr ⟨other,inside,by simpa using same⟩)
      simp [none]
    · have other : first.entry ≠ r.entry := fun same =>
        apart (List.mem_map.mpr ⟨r,inside,same.symm⟩)
      simp [other,ih once inside]

/-- What keeps an entry with short delays alive asks for this tick or a later one. -/
theorem tick_le_of_owned (valid : Valid delays [] s) (plain : e.isCascade = false)
    (brief : ∀ i ∈ s.insertions, i.entry = e → i.delay < 60) (owned : s.owned e = true) :
    ∃ i ∈ s.insertions, i.entry = e ∧ s.wheel.tick_ ≤ i.at_ + i.delay ∧
      (s.tmp = [] → s.wheel.tick_ < i.at_ + i.delay) := by
  rw [owned_iff] at owned
  rcases owned with ⟨type,k,x,has,holds⟩ | ⟨x,inside,holds⟩
  · obtain ⟨i,among,ring,_,turn,rfl⟩ := (valid.rings.has_iff _ _ _).mp has
    have same := Insertion.holds_of_what (valid.logged.plain i among) plain holds
    have seconds := brief i among same
    rw [turn_second valid.logged among seconds,← ring,Insertion.ring_second.mpr seconds,
      valid.logged.seconds] at turn
    exact ⟨i,among,same,by omega,fun _ => by omega⟩
  · obtain ⟨i,among,_,_,out,rfl⟩ := valid.pending.out_log x (Or.inl inside)
    have same := Insertion.holds_of_what (valid.logged.plain i among) plain holds
    have seconds := brief i among same
    rw [Insertion.out,Insertion.ring_second.mpr seconds,unit,Nat.one_mul,
      turn_second valid.logged among seconds] at out
    refine ⟨i,among,same,by omega,fun empty => ?_⟩
    rw [empty] at inside
    cases inside

theorem release_latest (valid : Valid delays [] s)
    (brief : ∀ i ∈ s.insertions, i.entry = e → i.delay < 60) (r : Release)
    (released : r ∈ s.released) (same : r.entry = e) :
    r.at_ = latest e s ∧ latest e s ≤ s.wheel.tick_ := by
  subst same
  have gone := valid.past.gone r released
  obtain ⟨i,among,entry,when⟩ := valid.past.first r released
  have seconds := brief i among entry
  have asked : i.at_ + i.delay = r.at_ := by
    rcases when with ⟨_,due⟩ | ⟨_,beyond⟩
    · rwa [Insertion.due,if_pos seconds] at due
    · exact absurd (beyond i among entry) (not_refused_of_lt (by omega))
  have upper : latest r.entry s ≤ r.at_ := by
    apply latest_le
    intro j other also
    rcases valid.past.last r released j other also with beyond | ⟨_,due⟩
    · exact absurd beyond (not_refused_of_lt (by have := brief j other also; omega))
    · rwa [Insertion.due,if_pos (brief j other also)] at due
  have lower := le_latest i among entry
  have past := short_of_not_owned valid gone i among entry seconds
  omega

/-- An entry with short delays is destroyed once, at the latest of its ticks. -/
theorem fires_exactly (valid : Valid delays [] s) (i : Insertion) (inserted : i ∈ s.insertions)
    (entry : i.entry = e) (brief : ∀ i ∈ s.insertions, i.entry = e → i.delay < 60) :
    (releases e s = [] ∧ s.wheel.tick_ ≤ latest e s ∧ (s.tmp = [] → s.wheel.tick_ < latest e s)) ∨
      (releases e s = [latest e s] ∧ latest e s ≤ s.wheel.tick_) := by
  by_cases released : ∃ r ∈ s.released, r.entry = e
  · obtain ⟨r,among,same⟩ := released
    obtain ⟨when,past⟩ := release_latest valid brief r among same
    refine Or.inr ⟨?_,past⟩
    subst same
    rw [releases,filter_once s.released valid.past.once r among,← when]
    rfl
  · have none : releases e s = [] := by
      rw [releases,List.map_eq_nil_iff,List.filter_eq_nil_iff]
      intro r among same
      exact released ⟨r,among,by simpa using same⟩
    have plain : e.isCascade = false := entry ▸ valid.logged.plain i inserted
    have accepted := not_refused_of_lt (d := i.delay) (by have := brief i inserted entry; omega)
    rcases valid.past.live i inserted accepted with owned | ⟨r,among,same⟩ | ⟨x,loose,_⟩
    · rw [entry] at owned
      obtain ⟨j,among,same,later,strictly⟩ := tick_le_of_owned valid plain brief owned
      have bound := le_latest j among same
      refine Or.inl ⟨none,by omega,fun empty => ?_⟩
      have := strictly empty
      omega
    · exact absurd ⟨r,among,same.trans entry⟩ released
    · cases loose

/-- A destructor makes its callback once, in the tick it runs in. -/
theorem acts_among (p : EntryPtr → Bool) (other : ∀ id conn, p (.timeout id conn) = false) (list : List Release) :
    ((list.filterMap Release.act).filter (·.1.among p)).map Prod.snd =
      (list.filter fun r => p r.entry).map Release.at_ := by
  induction list with
  | nil => rfl
  | cons r rest ih =>
    obtain ⟨e,t,alive⟩ := r
    have next := congrArg (t :: ·) ih
    cases e with
    | timeout id conn => cases alive <;> simpa [Release.act,Act.among,other] using ih
    | _ => simp only [List.filterMap_cons,Release.act,List.filter_cons,Act.among]; split <;> assumption

theorem calls_among (valid : Valid delays [] s) (p : EntryPtr → Bool) (other : ∀ id conn, p (.timeout id conn) = false) :
    callsAmong p s = (s.released.filter fun r => p r.entry).map Release.at_ := by
  rw [callsAmong,valid.made.acted,acts_among p other]

theorem calls_eq (valid : Valid delays [] s) (other : ∀ id conn, e ≠ .timeout id conn) : calls e s = releases e s :=
  calls_among valid _ fun id conn => decide_eq_false fun same => other id conn same.symm

end Exact

theorem short_proper : ¬Bad short := by
  rintro ⟨d,allowed,_,whole⟩
  simp only [short,decide_eq_true_eq] at allowed
  omega

/-- In every run whose delays are between 1 and 59, each inserted entry is destroyed exactly
once, at the latest tick its insertions ask for: it is there until the callbacks of that
tick, and gone after them. Its destructor has then made its callback, once and in that tick, and what
destructors have called is one call for each entry destroyed, but for those whose connection was gone.
Nothing undefined happens. -/
theorem short_timers_exact (s : World) (c : Config World Query Answer Callback Method)
    (fresh : Fresh s) (reached : system.Reachable (environment short) s c) :
    (∀ rest, c.stack ≠ .code .fault :: rest) ∧
    (c.controlled → c.state.acts = c.state.released.filterMap Release.act ∧
      ∀ i ∈ c.state.insertions,
        ((∀ id conn, i.entry ≠ .timeout id conn) → calls i.entry c.state = releases i.entry c.state) ∧
        ((releases i.entry c.state = [] ∧ c.state.wheel.tick_ ≤ latest i.entry c.state ∧
            (c.stack = [] → c.state.wheel.tick_ < latest i.entry c.state)) ∨
          (releases i.entry c.state = [latest i.entry c.state] ∧
            latest i.entry c.state ≤ c.state.wheel.tick_))) := by
  constructor
  · exact fun rest => timers_no_fault short s c fresh reached short_proper
  intro controlled
  obtain ⟨valid,settled⟩ := timers_invariant short s c fresh reached controlled
  refine ⟨valid.made.acted,fun i inserted => ⟨calls_eq valid,?_⟩⟩
  have brief : ∀ j ∈ c.state.insertions, j.entry = i.entry → j.delay < 60 := by
    intro j among _
    by_contra long
    have allowed := valid.made.allowed j among (by omega)
    simp only [short,decide_eq_true_eq] at allowed
    omega
  rcases fires_exactly valid i inserted rfl brief with ⟨none,later,strictly⟩ | done
  · refine Or.inl ⟨none,later,fun outside => strictly (settled ?_).tmp⟩
    rw [outside]
    rfl
  · exact Or.inr done

/-- Delays of 2 and 1, asked for at ticks 0 and 1, meet in tick 2. -/
theorem short_timers_exact_twice :
    ∃ c : Config World Query Answer Callback Method, c.state.wheel.tick_ = 2 ∧ c.stack = [] ∧
      calls (.object 7) c.state = [2] ∧ (∀ rest, c.stack ≠ .code .fault :: rest) ∧
      (c.controlled → c.state.acts = c.state.released.filterMap Release.act ∧
        ∀ i ∈ c.state.insertions,
          ((∀ id conn, i.entry ≠ .timeout id conn) → calls i.entry c.state = releases i.entry c.state) ∧
          ((releases i.entry c.state = [] ∧ c.state.wheel.tick_ ≤ latest i.entry c.state ∧
              (c.stack = [] → c.state.wheel.tick_ < latest i.entry c.state)) ∨
            (releases i.entry c.state = [latest i.entry c.state] ∧
              latest i.entry c.state ≤ c.state.wheel.tick_))) := by
  have reached := system.play_reachable (environment short) 60
    [.enter (.insertEntry 2 (.object 7)),.enter (.onTimer 1000),.enter (.onTimer 2000),
      .enter (.insertEntry 1 (.object 7)),.enter (.onTimer 3000),.answer (.entry (.object 7)),
      .leave] start _ rfl
  refine ⟨_,?_,?_,?_,short_timers_exact start _ start_fresh reached⟩
  all_goals decide

end Tmms.Network.Timers
