import Tmms.Timers

/-! What the rings hold at any moment, in terms of the insertions made so far. An insertion
goes to the ring for its delay and comes out of it at a turn known from the start; between
the ring and its destruction an entry is in the popped slot, or loose in the hands of the
code that is letting go of it. -/
namespace Tmms.Network.Timers

open Reentrant TcpConnection TimingWheel

namespace Insertion

def ring (i : Insertion) : TImingType := ringOf i.delay

def turn (i : Insertion) : Nat := i.turns + i.delay / unit i.ring

def out (i : Insertion) : Nat := unit i.ring * i.turn

/-- What is left of the delay then. -/
def rest (i : Insertion) : Nat := i.delay % unit i.ring

def what (i : Insertion) : EntryPtr := placed i.id i.delay i.entry

theorem ring_second {i : Insertion} : i.ring = .kTimingTypeSecond ↔ i.delay < 60 := by
  unfold ring ringOf kTimingMinute
  split
  · simp_all
  · split
    · simp_all
    · split <;> simp_all

theorem ring_minute {i : Insertion} :
    i.ring = .kTimingTypeMinute ↔ 60 ≤ i.delay ∧ i.delay < 3600 := by
  unfold ring ringOf kTimingMinute kTimingHour kTimingDay
  split
  · simp; omega
  · split
    · simp; omega
    · split <;> simp <;> omega

theorem what_second {i : Insertion} (short : i.delay < 60) : i.what = i.entry := if_pos short

theorem what_coarse {i : Insertion} (long : ¬i.delay < 60) :
    i.what = .cascade i.id i.rest i.entry := if_neg long

theorem what_ne {i : Insertion} {e : EntryPtr} (long : ¬i.delay < 60)
    (plain : e.isCascade = false) : i.what ≠ e := by
  rintro rfl
  rw [what_coarse long] at plain
  cases plain

theorem turn_pos {i : Insertion} (positive : 0 < i.delay) (accepted : ¬refused i.delay) :
    i.turns < i.turn := by
  have := (ringOf_slot positive accepted).1
  simp only [turn,ring]
  omega

/-- What was put into the ring keeps the entry alive. -/
theorem what_holds (i : Insertion) : i.what.holds i.entry = true := by
  by_cases short : i.delay < 60
  · rw [what_second short]; exact EntryPtr.holds_self _
  · rw [what_coarse short]; simp [EntryPtr.holds]

theorem holds_of_what {i : Insertion} {e : EntryPtr} (plain : i.entry.isCascade = false)
    (target : e.isCascade = false) (holds : i.what.holds e = true) : i.entry = e := by
  by_cases short : i.delay < 60
  · rw [what_second short] at holds
    exact (EntryPtr.holds_plain plain).mp holds
  · rw [what_coarse short,EntryPtr.holds_cascade plain] at holds
    rcases holds with same | same
    · rw [← same] at target; simp [EntryPtr.isCascade] at target
    · exact same

end Insertion

/-- The clocks and the log of insertions. -/
structure Logged (s : World) : Prop where
  seconds : s.turns .kTimingTypeSecond = s.wheel.tick_
  minutes : 60 * s.turns .kTimingTypeMinute ≤ s.wheel.tick_ ∧
    s.wheel.tick_ ≤ 60 * s.turns .kTimingTypeMinute + 60
  never : s.turns .kTimingTypeHour = 0 ∧ s.turns .kTimingTypeDay = 0
  numbered : ∀ i ∈ s.insertions, i.id < s.made
  distinct : ∀ i ∈ s.insertions, ∀ j ∈ s.insertions, i.id = j.id → i = j
  plain : ∀ i ∈ s.insertions, i.entry.isCascade = false
  positive : ∀ i ∈ s.insertions, 0 < i.delay
  past : ∀ i ∈ s.insertions, i.at_ ≤ s.wheel.tick_
  second_turns : ∀ i ∈ s.insertions, i.ring = .kTimingTypeSecond → i.turns = i.at_
  minute_turns : ∀ i ∈ s.insertions, i.ring = .kTimingTypeMinute → 60 * i.turns ≤ i.at_

structure Rings (s : World) : Prop where
  sized : s.wheel.Sized
  has_iff : ∀ type k x, s.wheel.Has type k x ↔ ∃ i ∈ s.insertions, i.ring = type ∧
    ¬refused i.delay ∧ i.turn = s.turns type + 1 + k ∧ x = i.what

/-- The popped slot holds what came out at this tick, and what came out of a coarse ring has
been inserted again unless its entry is still on the way. -/
structure Pending (loose : List EntryPtr) (s : World) : Prop where
  out_log : ∀ x, x ∈ s.tmp ∨ (x ∈ loose ∧ x.isCascade = true) → ∃ i ∈ s.insertions,
    ¬refused i.delay ∧ i.turn ≤ s.turns i.ring ∧ i.out = s.wheel.tick_ ∧ x = i.what
  log_out : ∀ i ∈ s.insertions, ¬i.delay < 60 → ¬refused i.delay → i.turn ≤ s.turns i.ring →
    (i.out = s.wheel.tick_ ∧ (i.what ∈ s.tmp ∨ i.what ∈ loose)) ∨
      ∃ j ∈ s.insertions, j.entry = i.entry ∧ j.delay = i.rest ∧ j.at_ = i.out

/-- When an entry is destroyed that has come out of its ring for good. -/
def Insertion.due (i : Insertion) : Nat :=
  if i.delay < 60 then i.at_ + i.delay else i.out + i.rest

/-- An entry is destroyed once, when nothing holds it any more, and lives until then. -/
structure Past (loose : List EntryPtr) (s : World) : Prop where
  plain : ∀ r ∈ s.released, r.entry.isCascade = false
  gone : ∀ r ∈ s.released, s.owned r.entry = false
  apart : ∀ r ∈ s.released, ∀ x ∈ loose, x.holds r.entry = false
  last : ∀ r ∈ s.released, ∀ i ∈ s.insertions, i.entry = r.entry →
    refused i.delay ∨ (i.delay < 3600 ∧ i.due ≤ r.at_)
  first : ∀ r ∈ s.released, ∃ i ∈ s.insertions, i.entry = r.entry ∧
    ((i.delay < 60 ∧ i.due = r.at_) ∨
      (i.at_ = r.at_ ∧ ∀ j ∈ s.insertions, j.entry = r.entry → refused j.delay))
  once : (s.released.map Release.entry).Nodup
  live : ∀ i ∈ s.insertions, ¬refused i.delay → s.owned i.entry = true ∨
    (∃ r ∈ s.released, r.entry = i.entry) ∨ ∃ x ∈ loose, x.holds i.entry = true

/-- Delays that lead to `InsertEntry` without any delay, at once or after a turn. -/
def Bad (delays : Nat → Bool) : Prop := ∃ d, delays d = true ∧ d < 3600 ∧ d % 60 = 0

def serial : EntryPtr → Option Nat
  | .object _ => none
  | .timeout id _ | .after id _ | .every id _ _ | .cascade id _ _ => some id

/-- What the destructor called, and at which tick. -/
def Release.act : Release → Option (Act × Nat)
  | ⟨.timeout _ conn,t,alive⟩ => if alive then some (.onTimeout conn,t) else none
  | ⟨e,t,_⟩ => some (.callback e,t)

/-- What the entries themselves were made with, and what the destroyed ones have called. -/
structure Made (delays : Nat → Bool) (s : World) : Prop where
  allowed : ∀ i ∈ s.insertions, 60 ≤ i.delay → delays i.delay = true
  numbered : ∀ i ∈ s.insertions, ∀ n, serial i.entry = some n → n < s.made
  every : ∀ i ∈ s.insertions, ∀ id interval cb, i.entry = .every id interval cb →
    delays interval = true ∧ interval < 2^32
  short : ∀ i ∈ s.insertions, ∀ id conn, i.entry = .timeout id conn → i.delay < 60
  single : ∀ i ∈ s.insertions, ∀ j ∈ s.insertions, ∀ id conn, i.entry = .timeout id conn →
    j.entry = .timeout id conn → i = j
  timeouts : ∀ conn, conn ∈ s.timeouts ↔
    ∃ r ∈ s.released, ∃ id, r.entry = .timeout id conn ∧ r.alive = true
  acted : s.acts = s.released.filterMap Release.act

structure Valid (delays : Nat → Bool) (loose : List EntryPtr) (s : World) : Prop where
  logged : Logged s
  rings : Rings s
  pending : Pending loose s
  past : Past loose s
  made : Made delays s

theorem owned_iff (s : World) (e : EntryPtr) : s.owned e = true ↔
    (∃ type k x, s.wheel.Has type k x ∧ x.holds e = true) ∨ ∃ x ∈ s.tmp, x.holds e = true := by
  have each : ∀ type, ((s.wheel.Wheels_ type).any fun slot => slot.any (·.holds e)) = true ↔
      ∃ k x, s.wheel.Has type k x ∧ x.holds e = true := fun type => Ring.any_has _ _
  simp only [World.owned,Bool.or_eq_true,List.any_cons,List.any_nil,Bool.or_false,each,
    List.any_eq_true]
  apply or_congr_left
  constructor
  · rintro (held | held | held | held)
    all_goals exact ⟨_,held⟩
  · rintro ⟨type,held⟩
    cases type with
    | kTimingTypeSecond => exact Or.inl held
    | kTimingTypeMinute => exact Or.inr (Or.inl held)
    | kTimingTypeHour => exact Or.inr (Or.inr (Or.inl held))
    | kTimingTypeDay => exact Or.inr (Or.inr (Or.inr held))

/-- An entry that no slot, popped or not, holds. -/
theorem not_owned_iff (s : World) (e : EntryPtr) : s.owned e = false ↔
    (∀ type k x, s.wheel.Has type k x → x.holds e = false) ∧ ∀ x ∈ s.tmp, x.holds e = false := by
  rw [← Bool.not_eq_true,owned_iff]
  simp

section Unmoved
variable {delays : Nat → Bool} {loose : List EntryPtr} {s after : World}

structure Unmoved (s after : World) : Prop where
  wheels : after.wheel.Wheels_ = s.wheel.Wheels_
  tick : after.wheel.tick_ = s.wheel.tick_
  turns : after.turns = s.turns
  insertions : after.insertions = s.insertions
  made : s.made ≤ after.made

theorem Logged.unmoved (logged : Logged s) (same : Unmoved s after) : Logged after := by
  constructor
  · rw [same.turns,same.tick]; exact logged.seconds
  · rw [same.turns,same.tick]; exact logged.minutes
  · rw [same.turns]; exact logged.never
  · rw [same.insertions]
    exact fun i among => Nat.lt_of_lt_of_le (logged.numbered i among) same.made
  · rw [same.insertions]; exact logged.distinct
  · rw [same.insertions]; exact logged.plain
  · rw [same.insertions]; exact logged.positive
  · rw [same.insertions,same.tick]; exact logged.past
  · rw [same.insertions]; exact logged.second_turns
  · rw [same.insertions]; exact logged.minute_turns

theorem Rings.unmoved (rings : Rings s) (same : Unmoved s after) : Rings after := by
  constructor
  · intro type
    rw [same.wheels]
    exact rings.sized type
  · intro type k x
    rw [same.insertions,same.turns,TimingWheel.Has,same.wheels]
    exact rings.has_iff type k x

theorem Pending.unmoved (pending : Pending loose s) (same : Unmoved s after)
    (tmp : after.tmp = s.tmp) : Pending loose after := by
  constructor
  · rw [same.insertions,same.turns,same.tick,tmp]; exact pending.out_log
  · rw [same.insertions,same.turns,same.tick,tmp]; exact pending.log_out

theorem Made.unmoved (made : Made delays s) (same : Unmoved s after)
    (timeouts : ∀ conn, conn ∈ after.timeouts ↔
      ∃ r ∈ after.released, ∃ id, r.entry = .timeout id conn ∧ r.alive = true)
    (acted : after.acts = after.released.filterMap Release.act) : Made delays after := by
  constructor
  · rw [same.insertions]; exact made.allowed
  · rw [same.insertions]
    exact fun i among n number => Nat.lt_of_lt_of_le (made.numbered i among n number) same.made
  · rw [same.insertions]; exact made.every
  · rw [same.insertions]; exact made.short
  · rw [same.insertions]; exact made.single
  · exact timeouts
  · exact acted

theorem owned_unmoved (same : Unmoved s after) (tmp : after.tmp = s.tmp) (e : EntryPtr) :
    after.owned e = s.owned e := by
  rw [World.owned,World.owned,same.wheels,tmp]

/-- The invariant says nothing about connections, times of day and numbers not given out. -/
theorem valid_unmoved (valid : Valid delays loose s) (same : Unmoved s after)
    (tmp : after.tmp = s.tmp) (released : after.released = s.released)
    (timeouts : after.timeouts = s.timeouts) (acts : after.acts = s.acts) : Valid delays loose after where
  logged := valid.logged.unmoved same
  rings := valid.rings.unmoved same
  pending := valid.pending.unmoved same tmp
  past := by
    have owned := owned_unmoved same tmp
    constructor
    · rw [released]; exact valid.past.plain
    · simp only [released,owned]; exact valid.past.gone
    · rw [released]; exact valid.past.apart
    · rw [released,same.insertions]; exact valid.past.last
    · rw [released,same.insertions]; exact valid.past.first
    · rw [released]; exact valid.past.once
    · simp only [released,same.insertions,owned]; exact valid.past.live
  made := valid.made.unmoved same (by rw [timeouts,released]; exact valid.made.timeouts)
    (by rw [acts,released]; exact valid.made.acted)

end Unmoved

section Insert
variable {s after : World} {loose : List EntryPtr} {e : EntryPtr} {d : Nat}

/-- What the code makes sure of before it calls `InsertEntry`. The caller is user code, or the
destructor of a coarse ring's entry. -/
structure Inserts (loose : List EntryPtr) (d : Nat) (e : EntryPtr) (s : World) : Prop where
  plain : e.isCascade = false
  unreleased : ∀ r ∈ s.released, r.entry ≠ e
  caller : loose = [] ∨ (d < 60 ∧ ∃ id, loose = [.cascade id d e])

def inserted (d : Nat) (e : EntryPtr) (wheel : TimingWheel) (s : World) : World :=
  { began (.insertEntry d e) s with wheel := wheel, made := s.made + 1 }

def insertion (d : Nat) (e : EntryPtr) (s : World) : Insertion :=
  ⟨s.made,e,s.wheel.tick_,d,s.turns (ringOf d)⟩

theorem mem_inserted {wheel : TimingWheel} {i : Insertion} :
    i ∈ (inserted d e wheel s).insertions ↔ i = insertion d e s ∨ i ∈ s.insertions :=
  List.mem_cons

theorem logged_insert {wheel : TimingWheel} (logged : Logged s) (plain : e.isCascade = false)
    (positive : 0 < d) (same : wheel.tick_ = s.wheel.tick_) : Logged (inserted d e wheel s) where
  seconds := logged.seconds.trans same.symm
  minutes := by
    change _ ≤ wheel.tick_ ∧ wheel.tick_ ≤ _
    rw [same]
    exact logged.minutes
  never := logged.never
  numbered := by
    intro i among
    rcases mem_inserted.mp among with rfl | old
    · exact Nat.lt_succ_self _
    · exact Nat.lt_succ_of_lt (logged.numbered i old)
  distinct := by
    intro i among j other same
    rcases mem_inserted.mp among with rfl | old <;> rcases mem_inserted.mp other with rfl | older
    · rfl
    · exact absurd (same ▸ logged.numbered j older) (Nat.lt_irrefl _)
    · exact absurd (same ▸ logged.numbered i old) (Nat.lt_irrefl _)
    · exact logged.distinct i old j older same
  plain := by
    intro i among
    rcases mem_inserted.mp among with rfl | old
    · exact plain
    · exact logged.plain i old
  positive := by
    intro i among
    rcases mem_inserted.mp among with rfl | old
    · exact positive
    · exact logged.positive i old
  past := by
    intro i among
    change i.at_ ≤ wheel.tick_
    rw [same]
    rcases mem_inserted.mp among with rfl | old
    · exact Nat.le_refl _
    · exact logged.past i old
  second_turns := by
    intro i among short
    rcases mem_inserted.mp among with rfl | old
    · have ring : ringOf d = .kTimingTypeSecond := short
      change s.turns (ringOf d) = s.wheel.tick_
      rw [ring]
      exact logged.seconds
    · exact logged.second_turns i old short
  minute_turns := by
    intro i among long
    rcases mem_inserted.mp among with rfl | old
    · have ring : ringOf d = .kTimingTypeMinute := long
      change 60 * s.turns (ringOf d) ≤ s.wheel.tick_
      rw [ring]
      exact logged.minutes.1
    · exact logged.minute_turns i old long

def Put (d : Nat) (e : EntryPtr) (wheel : TimingWheel) (s : World) : Prop :=
  ∀ type k x, wheel.Has type k x ↔ s.wheel.Has type k x ∨
    (type = ringOf d ∧ k + 1 = d / unit (ringOf d) ∧ x = placed s.made d e)

theorem rings_insert {wheel : TimingWheel} (rings : Rings s) (sized : wheel.Sized)
    (accepted : ¬refused d) (put : Put d e wheel s) : Rings (inserted d e wheel s) where
  sized := sized
  has_iff := by
    intro type k x
    change wheel.Has type k x ↔ _
    rw [put,rings.has_iff]
    constructor
    · rintro (⟨i,old,holds⟩ | ⟨rfl,slot,rfl⟩)
      · exact ⟨i,mem_inserted.mpr (Or.inr old),holds⟩
      · refine ⟨insertion d e s,mem_inserted.mpr (Or.inl rfl),rfl,accepted,?_,rfl⟩
        change s.turns (ringOf d) + d / unit (ringOf d) = s.turns (ringOf d) + 1 + k
        omega
    · rintro ⟨i,among,ring,accepted,turn,rfl⟩
      rcases mem_inserted.mp among with rfl | old
      · refine Or.inr ⟨ring.symm,?_,rfl⟩
        subst ring
        change s.turns (ringOf d) + d / unit (ringOf d) = s.turns (ringOf d) + 1 + k at turn
        omega
      · exact Or.inl ⟨i,old,ring,accepted,turn,rfl⟩

theorem rings_refused (rings : Rings s) (beyond : refused d) : Rings (inserted d e s.wheel s) where
  sized := rings.sized
  has_iff := by
    intro type k x
    change s.wheel.Has type k x ↔ _
    rw [rings.has_iff]
    constructor
    · rintro ⟨i,old,holds⟩
      exact ⟨i,mem_inserted.mpr (Or.inr old),holds⟩
    · rintro ⟨i,among,ring,accepted,holds⟩
      rcases mem_inserted.mp among with rfl | old
      · exact absurd beyond accepted
      · exact ⟨i,old,ring,accepted,holds⟩

theorem not_refused_of_lt {d : Nat} (bound : d < 3600) : ¬refused d := by
  simp only [refused,kTimingDay]; omega

/-- The insertion made by a coarse ring's entry is the one it stands for. -/
theorem pending_insert {wheel : TimingWheel} (pending : Pending loose s)
    (inserts : Inserts loose d e s) (positive : 0 < d) (same : wheel.tick_ = s.wheel.tick_) :
    Pending [] (inserted d e wheel s) where
  out_log := by
    rintro x (inside | ⟨none,_⟩)
    · obtain ⟨i,old,accepted,turned,out,rfl⟩ := pending.out_log x (Or.inl inside)
      exact ⟨i,mem_inserted.mpr (Or.inr old),accepted,turned,out.trans same.symm,rfl⟩
    · cases none
  log_out := by
    intro i among long accepted turned
    change (i.out = wheel.tick_ ∧ _) ∨ _
    rw [same]
    rcases mem_inserted.mp among with rfl | old
    · exact absurd (lt_of_lt_of_le (Insertion.turn_pos positive accepted) turned) (Nat.lt_irrefl _)
    · rcases pending.log_out i old long accepted turned with ⟨out,inside | held⟩ | ⟨j,older,done⟩
      · exact Or.inl ⟨out,Or.inl inside⟩
      · refine Or.inr ⟨insertion d e s,mem_inserted.mpr (Or.inl rfl),?_⟩
        rcases inserts.caller with none | ⟨_,id,only⟩
        · rw [none] at held; cases held
        · rw [only,List.mem_singleton,Insertion.what_coarse long] at held
          injection held with _ rest entry
          exact ⟨entry.symm,rest.symm,out.symm⟩
      · exact Or.inr ⟨j,mem_inserted.mpr (Or.inr older),done⟩

theorem owned_put {wheel : TimingWheel} (put : Put d e wheel s) (plain : e.isCascade = false)
    (target : EntryPtr) (plainTarget : target.isCascade = false) :
    (inserted d e wheel s).owned target = true ↔ s.owned target = true ∨
      (0 < d / unit (ringOf d) ∧ e = target) := by
  have what : (placed s.made d e).holds target = true ↔ e = target := by
    constructor
    · exact Insertion.holds_of_what (i := insertion d e s) plain plainTarget
    · rintro rfl
      exact Insertion.what_holds (insertion d e s)
  rw [owned_iff,owned_iff]
  constructor
  · rintro (⟨type,k,x,has,holds⟩ | held)
    · rcases (put type k x).mp has with old | ⟨_,slot,rfl⟩
      · exact Or.inl (Or.inl ⟨type,k,x,old,holds⟩)
      · exact Or.inr ⟨slot ▸ Nat.succ_pos k,what.mp holds⟩
    · exact Or.inl (Or.inr held)
  · rintro ((⟨type,k,x,has,holds⟩ | held) | ⟨slot,same⟩)
    · exact Or.inl ⟨type,k,x,(put type k x).mpr (Or.inl has),holds⟩
    · exact Or.inr held
    · refine Or.inl ⟨ringOf d,d / unit (ringOf d) - 1,placed s.made d e,?_,what.mpr same⟩
      exact (put _ _ _).mpr (Or.inr ⟨rfl,Nat.sub_add_cancel slot,rfl⟩)

/-- What the history says is kept when an entry that is still alive is inserted. -/
theorem past_insert {wheel : TimingWheel} (past : Past loose s) (logged : Logged s)
    (inserts : Inserts loose d e s)
    (owned : ∀ target : EntryPtr, target.isCascade = false →
      ((inserted d e wheel s).owned target = true ↔ s.owned target = true ∨ (¬refused d ∧ e = target))) :
    Past [] (inserted d e wheel s) where
  plain := past.plain
  gone := by
    intro r among
    rw [← Bool.not_eq_true,owned _ (past.plain r among)]
    rintro (held | ⟨_,same⟩)
    · rw [past.gone r among] at held; cases held
    · exact inserts.unreleased r among same.symm
  apart := fun _ _ _ none => by cases none
  last := by
    intro r among i inside same
    rcases mem_inserted.mp inside with rfl | old
    · exact absurd same.symm (inserts.unreleased r among)
    · exact past.last r among i old same
  first := by
    intro r among
    obtain ⟨i,old,entry,when⟩ := past.first r among
    refine ⟨i,mem_inserted.mpr (Or.inr old),entry,when.imp_right fun beyond => ⟨beyond.1,?_⟩⟩
    intro j inside same
    rcases mem_inserted.mp inside with rfl | older
    · exact absurd same.symm (inserts.unreleased r among)
    · exact beyond.2 j older same
  once := past.once
  live := by
    intro i inside accepted
    rcases mem_inserted.mp inside with rfl | old
    · exact Or.inl ((owned e inserts.plain).mpr (Or.inr ⟨accepted,rfl⟩))
    · rcases past.live i old accepted with held | gone | ⟨x,loosed,holds⟩
      · exact Or.inl ((owned _ (logged.plain i old)).mpr (Or.inl held))
      · exact Or.inr (Or.inl gone)
      · refine Or.inl ((owned _ (logged.plain i old)).mpr (Or.inr ?_))
        rcases inserts.caller with none | ⟨short,id,only⟩
        · rw [none] at loosed; cases loosed
        · rw [only,List.mem_singleton] at loosed
          subst loosed
          rcases (EntryPtr.holds_cascade inserts.plain).mp holds with wrapper | same
          · have := logged.plain i old
            rw [← wrapper] at this
            cases this
          · exact ⟨not_refused_of_lt (by omega),same⟩

structure Ordered (delays : Nat → Bool) (d : Nat) (e : EntryPtr) (s : World) : Prop where
  allowed : 60 ≤ d → delays d = true
  numbered : ∀ n, serial e = some n → n < s.made
  every : ∀ id interval cb, e = .every id interval cb → delays interval = true ∧ interval < 2^32
  timeout : ∀ id conn, e = .timeout id conn → d < 60 ∧ ∀ i ∈ s.insertions, i.entry ≠ e

theorem made_insert {delays : Nat → Bool} (wheel : TimingWheel) (made : Made delays s)
    (ordered : Ordered delays d e s) : Made delays (inserted d e wheel s) where
  allowed := by
    intro i among
    rcases mem_inserted.mp among with rfl | old
    · exact ordered.allowed
    · exact made.allowed i old
  numbered := by
    intro i among n number
    rcases mem_inserted.mp among with rfl | old
    · exact Nat.lt_succ_of_lt (ordered.numbered n number)
    · exact Nat.lt_succ_of_lt (made.numbered i old n number)
  every := by
    intro i among
    rcases mem_inserted.mp among with rfl | old
    · exact ordered.every
    · exact made.every i old
  short := by
    intro i among id conn same
    rcases mem_inserted.mp among with rfl | old
    · exact (ordered.timeout id conn same).1
    · exact made.short i old id conn same
  single := by
    intro i among j other id conn same also
    rcases mem_inserted.mp among with rfl | old <;> rcases mem_inserted.mp other with rfl | older
    · rfl
    · exact absurd (also.trans same.symm) ((ordered.timeout id conn same).2 j older)
    · exact absurd (same.trans also.symm) ((ordered.timeout id conn also).2 i old)
    · exact made.single i old j older id conn same also
  timeouts := made.timeouts
  acted := made.acted

theorem valid_insert {delays : Nat → Bool} (valid : Valid delays loose s)
    (inserts : Inserts loose d e s) (ordered : Ordered delays d e s) (positive : 0 < d)
    (bound : d < 2^32) : ∃ wheel, s.wheel.insertEntry s.made d e = some wheel ∧
      wheel.tick_ = s.wheel.tick_ ∧ Valid delays [] (inserted d e wheel s) := by
  have made := fun wheel => made_insert wheel valid.made ordered
  by_cases beyond : refused d
  · refine ⟨s.wheel,insertEntry_refused _ _ beyond,rfl,?_⟩
    refine ⟨logged_insert valid.logged inserts.plain positive rfl,rings_refused valid.rings beyond,
      pending_insert valid.pending inserts positive rfl,?_,made s.wheel⟩
    apply past_insert valid.past valid.logged inserts
    intro target _
    exact ⟨Or.inl,fun held => held.resolve_right fun fits => fits.1 beyond⟩
  · obtain ⟨wheel,found,sized,_,tick,put⟩ :=
      insertEntry_spec (x := e) s.made d valid.rings.sized positive bound beyond
    refine ⟨wheel,found,tick,logged_insert valid.logged inserts.plain positive tick,
      rings_insert valid.rings sized beyond put,pending_insert valid.pending inserts positive tick,
      ?_,made wheel⟩
    apply past_insert valid.past valid.logged inserts
    intro target plain
    rw [owned_put put inserts.plain target plain]
    simp only [beyond,(ringOf_slot positive beyond).1,not_false_eq_true,true_and]

end Insert

section Drop
variable {s : World} {loose : List EntryPtr} {e : EntryPtr} {delays : Nat → Bool}

/-- The state after a pointer has been taken out of the popped slot. -/
def taken (e : EntryPtr) (s : World) : World := { s with tmp := s.tmp.filter (· ≠ e) }

theorem mem_taken {x : EntryPtr} : x ∈ (taken e s).tmp ↔ x ∈ s.tmp ∧ x ≠ e := by
  simp [taken]

theorem taken_unmoved (e : EntryPtr) (s : World) : Unmoved s (taken e s) :=
  ⟨rfl,rfl,rfl,rfl,Nat.le_refl _⟩

theorem valid_take (valid : Valid delays [] s) (inside : e ∈ s.tmp) :
    Valid delays [e] (taken e s) where
  logged := valid.logged.unmoved (taken_unmoved e s)
  rings := valid.rings.unmoved (taken_unmoved e s)
  pending := by
    constructor
    · rintro x (remains | ⟨loosed,_⟩)
      · exact valid.pending.out_log x (Or.inl (mem_taken.mp remains).1)
      · rw [List.mem_singleton.mp loosed]
        exact valid.pending.out_log e (Or.inl inside)
    · intro i among long accepted turned
      rcases valid.pending.log_out i among long accepted turned with ⟨out,held | none⟩ | done
      · left
        constructor
        · exact out
        by_cases same : i.what = e
        · exact Or.inr (List.mem_singleton.mpr same)
        · exact Or.inl (mem_taken.mpr ⟨held,same⟩)
      · cases none
      · exact Or.inr done
  past := by
    have less : ∀ target, s.owned target = false → (taken e s).owned target = false := by
      intro target gone
      rw [not_owned_iff] at gone ⊢
      exact ⟨gone.1,fun x remains => gone.2 x (mem_taken.mp remains).1⟩
    refine ⟨valid.past.plain,fun r among => less _ (valid.past.gone r among),?_,valid.past.last,
      valid.past.first,valid.past.once,?_⟩
    · intro r among x loosed
      rw [List.mem_singleton.mp loosed]
      exact ((not_owned_iff s _).mp (valid.past.gone r among)).2 e inside
    · intro i among accepted
      rcases valid.past.live i among accepted with held | gone | ⟨x,none,_⟩
      · rw [owned_iff] at held
        rcases held with slot | ⟨x,popped,holds⟩
        · exact Or.inl ((owned_iff _ _).mpr (Or.inl slot))
        · by_cases same : x = e
          · exact Or.inr (Or.inr ⟨e,List.mem_singleton_self e,same ▸ holds⟩)
          · exact Or.inl ((owned_iff _ _).mpr (Or.inr ⟨x,mem_taken.mpr ⟨popped,same⟩,holds⟩))
      · exact Or.inr (Or.inl gone)
      · cases none
  made := valid.made.unmoved (taken_unmoved e s) valid.made.timeouts valid.made.acted

/-- Why `e` may be loose: it is a coarse ring's entry that is nowhere else, or it came out of
the second ring at this tick, or it has just been refused for the first time. -/
structure Dropped (e : EntryPtr) (s : World) : Prop where
  cascade : e.isCascade = true → e ∉ s.tmp
  plain : e.isCascade = false → s.owned e = false → ∃ i ∈ s.insertions, i.entry = e ∧
    ((i.delay < 60 ∧ i.due = s.wheel.tick_) ∨
      (i.at_ = s.wheel.tick_ ∧ ∀ j ∈ s.insertions, j.entry = e → refused j.delay))

theorem turn_second (logged : Logged s) {i : Insertion} (among : i ∈ s.insertions)
    (short : i.delay < 60) : i.turn = i.at_ + i.delay := by
  have ring := Insertion.ring_second.mpr short
  rw [Insertion.turn,logged.second_turns i among ring,ring,unit,Nat.div_one]

theorem dropped_take (valid : Valid delays [] s) (inside : e ∈ s.tmp) : Dropped e (taken e s) where
  cascade := fun _ remains => (mem_taken.mp remains).2 rfl
  plain := by
    intro plain _
    obtain ⟨i,among,_,_,out,rfl⟩ := valid.pending.out_log e (Or.inl inside)
    by_cases short : i.delay < 60
    · refine ⟨i,among,(Insertion.what_second short).symm,Or.inl ⟨short,?_⟩⟩
      rw [Insertion.out,Insertion.ring_second.mpr short,unit,Nat.one_mul,
        turn_second valid.logged among short] at out
      rw [Insertion.due,if_pos short]
      exact out
    · rw [Insertion.what_coarse short] at plain
      cases plain

theorem valid_loosen (valid : Valid delays [] s) (plain : e.isCascade = false)
    (alive : ∀ r ∈ s.released, r.entry ≠ e) : Valid delays [e] s where
  logged := valid.logged
  rings := valid.rings
  pending := by
    constructor
    · rintro x (inside | ⟨loosed,wrapper⟩)
      · exact valid.pending.out_log x (Or.inl inside)
      · rw [List.mem_singleton.mp loosed,plain] at wrapper
        cases wrapper
    · intro i among long accepted turned
      rcases valid.pending.log_out i among long accepted turned with ⟨out,held | none⟩ | done
      · exact Or.inl ⟨out,Or.inl held⟩
      · cases none
      · exact Or.inr done
  past := by
    refine ⟨valid.past.plain,valid.past.gone,?_,valid.past.last,valid.past.first,valid.past.once,?_⟩
    · intro r among x loosed
      rw [List.mem_singleton.mp loosed,← Bool.not_eq_true,EntryPtr.holds_plain plain]
      exact fun same => alive r among same.symm
    · intro i among accepted
      rcases valid.past.live i among accepted with held | gone | ⟨x,none,_⟩
      · exact Or.inl held
      · exact Or.inr (Or.inl gone)
      · cases none
  made := valid.made

/-- Only a coarse ring's entry that is loose matters to what has come out of the rings. -/
theorem pending_settle (pending : Pending [e] s) (plain : e.isCascade = false) : Pending [] s where
  out_log := by
    rintro x (inside | ⟨none,_⟩)
    · exact pending.out_log x (Or.inl inside)
    · cases none
  log_out := by
    intro i among long accepted turned
    rcases pending.log_out i among long accepted turned with ⟨out,held | loosed⟩ | done
    · exact Or.inl ⟨out,Or.inl held⟩
    · exact absurd (List.mem_singleton.mp loosed) (Insertion.what_ne long plain)
    · exact Or.inr done

/-- A plain entry that something else holds need not be accounted for. -/
theorem valid_settle (valid : Valid delays [e] s) (plain : e.isCascade = false)
    (owned : s.owned e = true) : Valid delays [] s where
  logged := valid.logged
  rings := valid.rings
  pending := pending_settle valid.pending plain
  past := by
    refine ⟨valid.past.plain,valid.past.gone,fun _ _ _ none => absurd none List.not_mem_nil,
      valid.past.last,valid.past.first,valid.past.once,?_⟩
    intro i among accepted
    rcases valid.past.live i among accepted with held | gone | ⟨x,loosed,holds⟩
    · exact Or.inl held
    · exact Or.inr (Or.inl gone)
    · rw [List.mem_singleton.mp loosed,EntryPtr.holds_plain plain] at holds
      exact Or.inl (holds ▸ owned)
  made := valid.made

/-- Nothing but the code letting go of it has a coarse ring's entry that has come out. -/
theorem cascade_not_owned (valid : Valid delays [e] s) (wrapper : e.isCascade = true)
    (outside : e ∉ s.tmp) : s.owned e = false := by
  obtain ⟨i,among,_,turned,_,rfl⟩ :=
    valid.pending.out_log e (Or.inr ⟨List.mem_singleton_self e,wrapper⟩)
  have long : ¬i.delay < 60 := by
    intro short
    rw [Insertion.what_second short,valid.logged.plain i among] at wrapper
    cases wrapper
  -- another element that holds it would be it, and an insertion comes out only once
  have only : ∀ j ∈ s.insertions, j.what.holds i.what = true → j = i := by
    intro j other holds
    by_cases short : j.delay < 60
    · rw [Insertion.what_second short,EntryPtr.holds_plain (valid.logged.plain j other)] at holds
      rw [← holds,valid.logged.plain j other] at wrapper
      cases wrapper
    · rw [Insertion.what_coarse short,
        EntryPtr.holds_cascade (valid.logged.plain j other)] at holds
      rcases holds with same | same
      · rw [Insertion.what_coarse long] at same
        injection same with number
        exact valid.logged.distinct j other i among number
      · rw [← same,valid.logged.plain j other] at wrapper
        cases wrapper
  rw [not_owned_iff]
  constructor
  · intro type k x has
    obtain ⟨j,other,ring,_,turn,rfl⟩ := (valid.rings.has_iff type k x).mp has
    by_contra holds
    have same := only j other (Bool.not_eq_false _ ▸ holds)
    subst same ring
    omega
  · intro x inside
    obtain ⟨j,other,_,_,_,rfl⟩ := valid.pending.out_log x (Or.inl inside)
    by_contra holds
    have same := only j other (Bool.not_eq_false _ ▸ holds)
    subst same
    exact outside inside

/-- What holds no slot has come out of its ring. -/
theorem turned_of_not_owned (valid : Valid delays loose s) (gone : s.owned e = false)
    (i : Insertion) (among : i ∈ s.insertions) (same : i.entry = e) (accepted : ¬refused i.delay) :
    i.turn ≤ s.turns i.ring := by
  by_contra waiting
  have slot : i.turn = s.turns i.ring + 1 + (i.turn - s.turns i.ring - 1) := by omega
  have has := (valid.rings.has_iff _ _ _).mpr ⟨i,among,rfl,accepted,slot,rfl⟩
  have free := ((not_owned_iff s e).mp gone).1 _ _ _ has
  rw [← same,i.what_holds] at free
  cases free

theorem short_of_not_owned (valid : Valid delays loose s) (gone : s.owned e = false)
    (i : Insertion) (among : i ∈ s.insertions) (same : i.entry = e) (short : i.delay < 60) :
    i.at_ + i.delay ≤ s.wheel.tick_ := by
  have past := turned_of_not_owned valid gone i among same (not_refused_of_lt (by omega))
  rw [turn_second valid.logged among short,Insertion.ring_second.mpr short,
    valid.logged.seconds] at past
  exact past

/-- When nothing holds an entry any more, all its insertions have come due. -/
theorem due_of_not_owned (valid : Valid delays [e] s) (plain : e.isCascade = false)
    (gone : s.owned e = false) (i : Insertion) (among : i ∈ s.insertions) (same : i.entry = e) :
    refused i.delay ∨ (i.delay < 3600 ∧ i.due ≤ s.wheel.tick_) := by
  have short := short_of_not_owned valid gone
  by_cases accepted : refused i.delay
  · exact Or.inl accepted
  right
  have past := turned_of_not_owned valid gone i among same accepted
  have some := Insertion.turn_pos (valid.logged.positive i among) accepted
  cases ring : i.ring with
  | kTimingTypeSecond =>
    have bound := Insertion.ring_second.mp ring
    rw [Insertion.due,if_pos bound]
    exact ⟨by omega,short i among same bound⟩
  | kTimingTypeMinute =>
    have bound := Insertion.ring_minute.mp ring
    have long : ¬i.delay < 60 := by omega
    rw [Insertion.due,if_neg long]
    constructor
    · exact bound.2
    rcases valid.pending.log_out i among long accepted past with ⟨_,inside | loosed⟩ | ⟨j,other,also,rest,when⟩
    · have free := ((not_owned_iff s e).mp gone).2 _ inside
      rw [← same,i.what_holds] at free
      cases free
    · exact absurd (List.mem_singleton.mp loosed) (Insertion.what_ne long plain)
    · have bounded : j.delay < 60 := by
        rw [rest,Insertion.rest,ring]
        exact Nat.mod_lt _ (by decide)
      have := short j other (also.trans same) bounded
      omega
  | kTimingTypeHour => rw [ring,valid.logged.never.1] at past; omega
  | kTimingTypeDay => rw [ring,valid.logged.never.2] at past; omega

def gone (e : EntryPtr) (alive : Bool) (timeouts : List Nat) (acts : List (Act × Nat)) (s : World) : World :=
  { s with released := ⟨e,s.wheel.tick_,alive⟩ :: s.released, timeouts := timeouts, acts := acts }

theorem gone_unmoved (e : EntryPtr) (alive : Bool) (timeouts : List Nat) (acts : List (Act × Nat)) (s : World) :
    Unmoved s (gone e alive timeouts acts s) := ⟨rfl,rfl,rfl,rfl,Nat.le_refl _⟩

theorem valid_release (valid : Valid delays [e] s) (plain : e.isCascade = false)
    (free : s.owned e = false) (dropped : Dropped e s) (alive : Bool) (timeouts : List Nat)
    (acts : List (Act × Nat))
    (noted : ∀ conn, conn ∈ timeouts ↔
      (∃ id, e = .timeout id conn ∧ alive = true) ∨ conn ∈ s.timeouts)
    (acted : acts = (Release.act ⟨e,s.wheel.tick_,alive⟩).toList ++ s.acts) :
    Valid delays [] (gone e alive timeouts acts s) where
  logged := valid.logged.unmoved (gone_unmoved e alive timeouts acts s)
  rings := valid.rings.unmoved (gone_unmoved e alive timeouts acts s)
  pending := (pending_settle valid.pending plain).unmoved (gone_unmoved e alive timeouts acts s) rfl
  past := by
    constructor
    · exact List.forall_mem_cons.mpr ⟨plain,valid.past.plain⟩
    · exact List.forall_mem_cons.mpr ⟨free,valid.past.gone⟩
    · exact fun _ _ _ none => absurd none List.not_mem_nil
    · exact List.forall_mem_cons.mpr
        ⟨fun i among same => due_of_not_owned valid plain free i among same,valid.past.last⟩
    · exact List.forall_mem_cons.mpr ⟨dropped.plain plain free,valid.past.first⟩
    · refine List.nodup_cons.mpr ⟨fun again => ?_,valid.past.once⟩
      obtain ⟨r,among,same⟩ := List.mem_map.mp again
      have apart := valid.past.apart r among e (List.mem_singleton_self e)
      rw [same] at apart
      exact absurd (EntryPtr.holds_self e) (by rw [apart]; decide)
    · intro i among accepted
      rcases valid.past.live i among accepted with held | ⟨r,inside,same⟩ | ⟨x,loosed,holds⟩
      · exact Or.inl held
      · exact Or.inr (Or.inl ⟨r,List.mem_cons_of_mem _ inside,same⟩)
      · rw [List.mem_singleton.mp loosed,EntryPtr.holds_plain plain] at holds
        exact Or.inr (Or.inl ⟨_,List.mem_cons_self,holds⟩)
  made := by
    apply valid.made.unmoved (gone_unmoved e alive timeouts acts s)
    · intro conn
      rw [show (gone e alive timeouts acts s).timeouts = timeouts from rfl,noted,valid.made.timeouts]
      constructor
      · rintro (⟨id,same,lives⟩ | ⟨r,inside,fired⟩)
        · exact ⟨_,List.mem_cons_self,id,same,lives⟩
        · exact ⟨r,List.mem_cons_of_mem _ inside,fired⟩
      · rintro ⟨r,inside,fired⟩
        rcases List.mem_cons.mp inside with rfl | old
        · exact Or.inl fired
        · exact Or.inr ⟨r,old,fired⟩
    · rw [gone,acted,valid.made.acted]
      cases r : Release.act ⟨e,s.wheel.tick_,alive⟩ with
      | none => exact (List.filterMap_cons_none r).symm
      | some a => exact (List.filterMap_cons_some r).symm

end Drop

section PopUp
variable {s : World} {delays : Nat → Bool}

/-- The state after `PopUp` has taken the front slot out of a ring, at tick `tick`. -/
def popped (type : TImingType) (wheel : TimingWheel) (s : World) : World :=
  { began (.popUp type) s with wheel := (wheel.popUp type).2, tmp := (wheel.popUp type).1 }

theorem popped_turns (type other : TImingType) (wheel : TimingWheel) :
    (popped type wheel s).turns other = if other = type then s.turns type + 1 else s.turns other := by
  by_cases same : other = type
  · subst same; simp [popped,began]
  · simp [popped,began,same]

/-- A turn of the second ring comes with the next tick, one of the minute ring at its tick. -/
structure Turns (type : TImingType) (wheel : TimingWheel) (s : World) : Prop where
  rings : wheel.Wheels_ = s.wheel.Wheels_
  empty : s.tmp = []
  tick : unit type * (s.turns type + 1) = wheel.tick_
  advances : s.wheel.tick_ ≤ wheel.tick_
  ring : (type = .kTimingTypeSecond ∧ wheel.tick_ ≤ 60 * s.turns .kTimingTypeMinute + 60) ∨
    (type = .kTimingTypeMinute ∧ wheel.tick_ = s.wheel.tick_)

theorem logged_popped {type : TImingType} {wheel : TimingWheel} (logged : Logged s)
    (turns : Turns type wheel s) : Logged (popped type wheel s) := by
  have tick : (popped type wheel s).wheel.tick_ = wheel.tick_ := rfl
  have seconds := logged.seconds
  have minutes := logged.minutes
  have advance := turns.tick
  have clock : (popped type wheel s).turns .kTimingTypeSecond = wheel.tick_ ∧
      (60 * (popped type wheel s).turns .kTimingTypeMinute ≤ wheel.tick_ ∧
        wheel.tick_ ≤ 60 * (popped type wheel s).turns .kTimingTypeMinute + 60) ∧
      (popped type wheel s).turns .kTimingTypeHour = 0 ∧
      (popped type wheel s).turns .kTimingTypeDay = 0 := by
    simp only [popped_turns]
    rcases turns.ring with ⟨rfl,bound⟩ | ⟨rfl,same⟩
    · simp only [unit] at advance
      have advances := turns.advances
      simp [logged.never]
      omega
    · simp only [unit,kTimingMinute] at advance
      simp [logged.never]
      omega
  exact ⟨clock.1,clock.2.1,clock.2.2,logged.numbered,logged.distinct,logged.plain,
    logged.positive,fun i among => (logged.past i among).trans turns.advances,
    logged.second_turns,logged.minute_turns⟩

variable {type : TImingType} {wheel : TimingWheel}

theorem has_popped (turns : Turns type wheel s) (other : TImingType) (k : Nat) (x : EntryPtr) :
    (popped type wheel s).wheel.Has other k x ↔
      s.wheel.Has other (if other = type then k + 1 else k) x := by
  have same : ∀ j, wheel.Has other j x ↔ s.wheel.Has other j x := by
    intro j
    rw [TimingWheel.Has,TimingWheel.Has,turns.rings]
  exact (has_popUp other).trans (same _)

theorem mem_popped (turns : Turns type wheel s) (x : EntryPtr) :
    x ∈ (popped type wheel s).tmp ↔ s.wheel.Has type 0 x := by
  rw [TimingWheel.Has,← turns.rings]
  exact popUp_front x

theorem rings_popped (rings : Rings s) (turns : Turns type wheel s) :
    Rings (popped type wheel s) where
  sized := by
    have sized : wheel.Sized := by
      intro other
      rw [turns.rings]
      exact rings.sized other
    exact popUp_sized sized
  has_iff := by
    intro other k x
    rw [has_popped turns,rings.has_iff,popped_turns]
    by_cases same : other = type
    · subst same
      simp only [if_true]
      have shift : ∀ i : Insertion, i.turn = s.turns other + 1 + (k + 1) ↔
          i.turn = s.turns other + 1 + 1 + k := fun i => by omega
      simp only [shift]
      rfl
    · simp only [if_neg same]
      rfl

/-- What comes out of a ring comes out at its turn. -/
theorem pending_popped (valid : Valid delays [] s) (turns : Turns type wheel s) :
    Pending [] (popped type wheel s) where
  out_log := by
    rintro x (inside | ⟨none,_⟩)
    · rw [mem_popped turns,valid.rings.has_iff] at inside
      obtain ⟨i,among,ring,accepted,turn,rfl⟩ := inside
      refine ⟨i,among,accepted,?_,?_,rfl⟩
      · rw [popped_turns,if_pos ring]
        omega
      · change unit i.ring * i.turn = wheel.tick_
        rw [ring,turn,← turns.tick]
    · cases none
  log_out := by
    intro i among long accepted turned
    rw [popped_turns] at turned
    by_cases now : i.ring = type ∧ i.turn = s.turns type + 1
    · refine Or.inl ⟨?_,Or.inl ?_⟩
      · change unit i.ring * i.turn = wheel.tick_
        rw [now.1,now.2,← turns.tick]
      · rw [mem_popped turns,valid.rings.has_iff]
        exact ⟨i,among,now.1,accepted,by omega,rfl⟩
    · have before : i.turn ≤ s.turns i.ring := by
        by_cases ring : i.ring = type
        · rw [if_pos ring] at turned
          rw [ring]
          have : i.turn ≠ s.turns type + 1 := fun turn => now ⟨ring,turn⟩
          omega
        · rwa [if_neg ring] at turned
      rcases valid.pending.log_out i among long accepted before with ⟨_,inside | none⟩ | done
      · rw [turns.empty] at inside; cases inside
      · cases none
      · exact Or.inr done

theorem owned_popped (turns : Turns type wheel s) (e : EntryPtr) :
    (popped type wheel s).owned e = s.owned e := by
  rw [Bool.eq_iff_iff,owned_iff,owned_iff]
  constructor
  · rintro (⟨other,k,x,has,holds⟩ | ⟨x,inside,holds⟩)
    · exact Or.inl ⟨other,_,x,(has_popped turns other k x).mp has,holds⟩
    · exact Or.inl ⟨type,0,x,(mem_popped turns x).mp inside,holds⟩
  · rintro (⟨other,k,x,has,holds⟩ | ⟨x,inside,_⟩)
    · by_cases front : other = type ∧ k = 0
      · obtain ⟨rfl,rfl⟩ := front
        exact Or.inr ⟨x,(mem_popped turns x).mpr has,holds⟩
      · by_cases same : other = type
        · subst same
          obtain ⟨j,rfl⟩ := Nat.exists_eq_succ_of_ne_zero fun zero => front ⟨rfl,zero⟩
          exact Or.inl ⟨other,j,x,(has_popped turns other j x).mpr (by rwa [if_pos rfl]),holds⟩
        · exact Or.inl ⟨other,k,x,(has_popped turns other k x).mpr (by rwa [if_neg same]),holds⟩
    · rw [turns.empty] at inside; cases inside

theorem valid_popped (valid : Valid delays [] s) (turns : Turns type wheel s) :
    Valid delays [] (popped type wheel s) where
  logged := logged_popped valid.logged turns
  rings := rings_popped valid.rings turns
  pending := pending_popped valid turns
  past := by
    refine ⟨valid.past.plain,?_,valid.past.apart,valid.past.last,valid.past.first,
      valid.past.once,?_⟩
    · intro r among
      rw [owned_popped turns]
      exact valid.past.gone r among
    · intro i among
      rw [owned_popped turns]
      exact valid.past.live i among
  made := ⟨valid.made.allowed,valid.made.numbered,valid.made.every,valid.made.short,
    valid.made.single,valid.made.timeouts,valid.made.acted⟩

end PopUp

end Tmms.Network.Timers
