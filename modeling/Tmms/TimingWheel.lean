import Mathlib.Data.BitVec
import Mathlib.Logic.Function.Basic
import Tmms.Ring

/-! The timing wheel's four rings and where an insertion puts its entry. A slot holds shared
pointers to objects that act when they are destroyed; a delay of a minute or more goes to a
coarse ring inside a callback entry that inserts the remainder. -/
namespace Tmms.Network

def kTimingMinute : Nat := 60
def kTimingHour : Nat := 60 * 60
def kTimingDay : Nat := 60 * 60 * 24

inductive TImingType where
  | kTimingTypeSecond
  | kTimingTypeMinute
  | kTimingTypeHour
  | kTimingTypeDay
  deriving DecidableEq

/-- What an `EntryPtr` points to, by what its destructor does. The first number tells apart
objects that do the same. -/
inductive EntryPtr where
  | object (id : Nat)
  | timeout (id conn : Nat)
  | after (id cb : Nat)
  | every (id interval cb : Nat)
  -- of a coarse ring, which calls `InsertEntry(second, entryPtr)`
  | cascade (id second : Nat) (entryPtr : EntryPtr)
  deriving DecidableEq

namespace EntryPtr

def isCascade : EntryPtr → Bool
  | .cascade _ _ _ => true
  | _ => false

/-- Whether a pointer to this object keeps `e` alive. -/
def holds : EntryPtr → EntryPtr → Bool
  | .cascade id second entry,e => .cascade id second entry == e || entry.holds e
  | x,e => x == e

@[simp] theorem holds_self (e : EntryPtr) : e.holds e = true := by
  cases e <;> simp [holds]

theorem holds_plain {x e : EntryPtr} (plain : x.isCascade = false) : x.holds e = true ↔ x = e := by
  cases x with
  | cascade => simp [isCascade] at plain
  | _ => simp [holds]

theorem holds_cascade {id second : Nat} {entry e : EntryPtr} (plain : entry.isCascade = false) :
    (EntryPtr.cascade id second entry).holds e = true ↔ .cascade id second entry = e ∨ entry = e := by
  simp [holds,holds_plain plain]

end EntryPtr

structure TimingWheel where
  Wheels_ : TImingType → List (List EntryPtr)
  last_ts_ : Int
  tick_ : Nat

namespace TimingWheel

def slots : TImingType → Nat
  | .kTimingTypeSecond => 60
  | .kTimingTypeMinute => 60
  | .kTimingTypeHour => 24
  | .kTimingTypeDay => 30

def initial : TimingWheel where
  Wheels_ := fun type => List.replicate (slots type) []
  last_ts_ := 0
  tick_ := 0

/-- `Wheels_[type][index].emplace(entryPtr)`; `none` is an index past the end. -/
def emplace (type : TImingType) (index : Nat) (entryPtr : EntryPtr) (w : TimingWheel) :
    Option TimingWheel :=
  (Ring.emplace (w.Wheels_ type) index entryPtr).map fun wheel =>
    { w with Wheels_ := Function.update w.Wheels_ type wheel }

/-- `n - 1` for a `uint32_t`. -/
def pred32 (n : Nat) : Nat := (n + 2^32 - 1) % 2^32

def insertSecondEntry (delay : Nat) (entryPtr : EntryPtr) (w : TimingWheel) : Option TimingWheel :=
  w.emplace .kTimingTypeSecond (pred32 delay) entryPtr

/-- What the three coarse insertions have in common; `id` names the new entry. -/
def insertCoarseEntry (type : TImingType) (unit id delay : Nat) (entryPtr : EntryPtr)
    (w : TimingWheel) : Option TimingWheel :=
  w.emplace type (pred32 (delay / unit)) (.cascade id (delay % unit) entryPtr)

def insertMinuteEntry : Nat → Nat → EntryPtr → TimingWheel → Option TimingWheel :=
  insertCoarseEntry .kTimingTypeMinute 60

def insertHourEntry : Nat → Nat → EntryPtr → TimingWheel → Option TimingWheel :=
  insertCoarseEntry .kTimingTypeHour kTimingHour

def insertDayEntry : Nat → Nat → EntryPtr → TimingWheel → Option TimingWheel :=
  insertCoarseEntry .kTimingTypeDay kTimingDay

/-- The early `entryPtr.reset()` only drops the parameter, which the caller holds too. -/
def insertEntry (id delay : Nat) (entryPtr : EntryPtr) (w : TimingWheel) : Option TimingWheel :=
  if delay < kTimingMinute then w.insertSecondEntry delay entryPtr
  else if delay < kTimingHour then w.insertMinuteEntry id delay entryPtr
  else if delay < kTimingDay then w.insertHourEntry id delay entryPtr
  else if delay / kTimingDay > 30 then some w
  else w.insertDayEntry id delay entryPtr

/-- The first half of `PopUp`: the front slot, and the ring without it. -/
def popUp (type : TImingType) (w : TimingWheel) : List EntryPtr × TimingWheel :=
  (Ring.front (w.Wheels_ type),
    { w with Wheels_ := Function.update w.Wheels_ type (Ring.rotate (w.Wheels_ type)) })

def Sized (w : TimingWheel) : Prop := ∀ type, (w.Wheels_ type).length = slots type

def Has (w : TimingWheel) (type : TImingType) (k : Nat) (e : EntryPtr) : Prop :=
  Ring.Has (w.Wheels_ type) k e

def ringOf (delay : Nat) : TImingType :=
  if delay < kTimingMinute then .kTimingTypeSecond
  else if delay < kTimingHour then .kTimingTypeMinute
  else if delay < kTimingDay then .kTimingTypeHour
  else .kTimingTypeDay

def unit : TImingType → Nat
  | .kTimingTypeSecond => 1
  | .kTimingTypeMinute => kTimingMinute
  | .kTimingTypeHour => kTimingHour
  | .kTimingTypeDay => kTimingDay

def placed (id delay : Nat) (entryPtr : EntryPtr) : EntryPtr :=
  if delay < kTimingMinute then entryPtr
  else .cascade id (delay % unit (ringOf delay)) entryPtr

/-- The day ring has slots for thirty days. -/
def refused (delay : Nat) : Prop := 30 < delay / kTimingDay

variable {w after : TimingWheel} {type : TImingType} {k : Nat} {x : EntryPtr}

theorem pred32_pos {n : Nat} (positive : 0 < n) (bound : n < 2^32) : pred32 n = n - 1 := by
  simp only [pred32]; omega

theorem initial_sized : initial.Sized := fun _ => List.length_replicate

theorem not_has_initial : ¬initial.Has type k x := Ring.not_has_empty _ k x

theorem emplace_spec (sized : w.Sized) (bound : k < slots type) :
    ∃ after, w.emplace type k x = some after ∧ after.Sized ∧ after.last_ts_ = w.last_ts_ ∧
      after.tick_ = w.tick_ ∧ ∀ other j y, after.Has other j y ↔
        w.Has other j y ∨ (other = type ∧ j = k ∧ y = x) := by
  rw [← sized type] at bound
  obtain ⟨ring,put⟩ := Ring.emplace_of_lt (x := x) bound
  refine ⟨{ w with Wheels_ := Function.update w.Wheels_ type ring },by rw [emplace,put]; rfl,
    ?_,rfl,rfl,?_⟩
  · intro other
    by_cases same : other = type
    · subst same
      simp [Ring.length_emplace put,sized other]
    · simp [same,sized other]
  · intro other j y
    by_cases same : other = type
    · subst same
      simp [Has,Ring.has_emplace put]
    · simp [Has,same]

theorem emplace_pred {index : Nat} (sized : w.Sized) (positive : 0 < index)
    (inside : index ≤ slots type) (bound : index < 2^32) :
    ∃ after, w.emplace type (pred32 index) x = some after ∧ after.Sized ∧
      after.last_ts_ = w.last_ts_ ∧ after.tick_ = w.tick_ ∧ ∀ other j y, after.Has other j y ↔
        w.Has other j y ∨ (other = type ∧ j + 1 = index ∧ y = x) := by
  have slot : index - 1 < slots type := by omega
  rw [pred32_pos positive bound]
  obtain ⟨after,put,sized,last,tick,has⟩ := emplace_spec (x := x) sized slot
  refine ⟨after,put,sized,last,tick,fun other j y => ?_⟩
  have same : j = index - 1 ↔ j + 1 = index := by omega
  rw [has,same]

/-- The four branches of `InsertEntry` are one. -/
theorem insertEntry_eq (id delay : Nat) (accepted : ¬refused delay) :
    w.insertEntry id delay x =
      w.emplace (ringOf delay) (pred32 (delay / unit (ringOf delay))) (placed id delay x) := by
  unfold insertEntry placed ringOf
  by_cases seconds : delay < kTimingMinute
  · simp only [if_pos seconds,unit,Nat.div_one]
    rfl
  · by_cases minutes : delay < kTimingHour
    · simp only [if_neg seconds,if_pos minutes]
      rfl
    · by_cases hours : delay < kTimingDay
      · simp only [if_neg seconds,if_neg minutes,if_pos hours]
        rfl
      · simp only [if_neg seconds,if_neg minutes,if_neg hours]
        exact if_neg accepted

theorem ringOf_slot {delay : Nat} (positive : 0 < delay) (accepted : ¬refused delay) :
    0 < delay / unit (ringOf delay) ∧ delay / unit (ringOf delay) ≤ slots (ringOf delay) := by
  simp only [refused,kTimingDay] at accepted
  unfold ringOf
  split
  · next seconds => simp only [unit,slots,kTimingMinute] at *; omega
  · split
    · next minutes => simp only [unit,slots,kTimingMinute,kTimingHour] at *; omega
    · split
      · next hours => simp only [unit,slots,kTimingHour,kTimingDay] at *; omega
      · simp only [unit,slots,kTimingDay] at *; omega

/-- An accepted insertion adds one element to one slot. -/
theorem insertEntry_spec (id delay : Nat) (sized : w.Sized) (positive : 0 < delay)
    (bound : delay < 2^32) (accepted : ¬refused delay) :
    ∃ after, w.insertEntry id delay x = some after ∧ after.Sized ∧ after.last_ts_ = w.last_ts_ ∧
      after.tick_ = w.tick_ ∧ ∀ type k y, after.Has type k y ↔ w.Has type k y ∨
        (type = ringOf delay ∧ k + 1 = delay / unit (ringOf delay) ∧ y = placed id delay x) := by
  obtain ⟨some,inside⟩ := ringOf_slot positive accepted
  rw [insertEntry_eq id delay accepted]
  exact emplace_pred sized some inside (lt_of_le_of_lt (Nat.div_le_self _ _) bound)

theorem insertEntry_refused (id delay : Nat) (beyond : refused delay) :
    w.insertEntry id delay x = some w := by
  have large : ∀ limit ≤ kTimingDay, ¬delay < limit := by
    simp only [refused,kTimingDay] at beyond ⊢
    omega
  unfold insertEntry
  rw [if_neg (large kTimingMinute (by decide)),if_neg (large kTimingHour (by decide)),
    if_neg (large kTimingDay (by decide))]
  exact if_pos beyond

/-- An insertion without delay addresses the slot before the first. -/
theorem insertEntry_zero (id : Nat) (sized : w.Sized) : w.insertEntry id 0 x = none := by
  have beyond : ¬pred32 0 < (w.Wheels_ .kTimingTypeSecond).length := by
    rw [sized]
    decide
  simp [insertEntry,kTimingMinute,insertSecondEntry,emplace,Ring.emplace,beyond]

theorem popUp_front (e : EntryPtr) : e ∈ (w.popUp type).1 ↔ w.Has type 0 e := Ring.has_front _ e

theorem popUp_sized (sized : w.Sized) : (w.popUp type).2.Sized := by
  intro other
  by_cases same : other = type
  · subst same
    have some : 0 < (w.Wheels_ other).length := by rw [sized]; cases other <;> decide
    simp [popUp,Ring.length_rotate _ some,sized other]
  · simp [popUp,same,sized other]

theorem has_popUp (other : TImingType) :
    (w.popUp type).2.Has other k x ↔ w.Has other (if other = type then k + 1 else k) x := by
  by_cases same : other = type
  · subst same
    simp [popUp,Has,Ring.has_rotate]
  · simp [popUp,Has,same]

end TimingWheel
end Tmms.Network
