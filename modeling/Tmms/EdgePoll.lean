import Tmms.Event

/-! Edge-triggered `epoll` for one registered descriptor. It is reported once for each new
edge and each `EPOLL_CTL_MOD`, with all bits of its mask that are ready then. -/
namespace Tmms.Network

/-- What the kernel keeps of the descriptor. -/
structure Watch where
  interest : Mask
  ready : Mask
  -- an edge or an `EPOLL_CTL_MOD` that no report has answered
  armed : Bool

namespace Watch

def watched (w : Watch) : Mask := w.interest ||| EPOLLERR ||| EPOLLHUP

/-- The descriptor becomes ready for `bits`, or again. -/
def rise (bits : Mask) (w : Watch) : Watch :=
  { w with ready := w.ready ||| bits, armed := w.armed || w.watched.has bits }

def fall (bits : Mask) (w : Watch) : Watch := { w with ready := w.ready &&& ~~~bits }

def modify (events : Mask) (w : Watch) : Watch :=
  let w := { w with interest := events }
  { w with armed := w.armed || w.watched.has w.ready }

/-- The report that the next `epoll_wait` finds. -/
def pending (w : Watch) : Mask := if w.armed then w.ready &&& w.watched else 0

/-- `epoll_wait` takes the report; without one the descriptor is not in the batch. -/
def poll (w : Watch) : Option Mask × Watch :=
  (if w.pending = 0 then none else some w.pending,{ w with armed := false })

end Watch

theorem Mask.has_twoPow (mask : Mask) (i : Nat) (bound : i < 32) :
    mask.has (BitVec.twoPow 32 i) = mask.getLsbD i := by
  rw [Mask.has,BitVec.and_twoPow]
  cases mask.getLsbD i with
  | false => rfl
  | true =>
    have different : BitVec.twoPow 32 i ≠ 0#32 := by
      intro same
      have bit := congrArg (BitVec.getLsbD · i) same
      simp [bound] at bit
    simpa using different

theorem Mask.has_output (mask : Mask) : mask.has EPOLLOUT = mask.getLsbD 2 :=
  mask.has_twoPow 2 (by decide)

/-- What is left of the mask that asks for output. -/
theorem Mask.enable_output (mask : Mask) : (mask.enable kEventWrite true).getLsbD 2 = true := by
  simp [Mask.enable,kEventWrite,EPOLLOUT,EPOLLET]

theorem Mask.has_of_bit {a b : Mask} (i : Nat) (left : a.getLsbD i = true) (right : b.getLsbD i = true) :
    a.has b = true := by
  have bit : (a &&& b).getLsbD i = true := by rw [BitVec.getLsbD_and,left,right]; rfl
  rw [Mask.has,bne_iff_ne]
  intro none
  rw [none] at bit
  simp at bit

namespace Watch

theorem watched_output (w : Watch) : w.watched.getLsbD 2 = w.interest.getLsbD 2 := by
  simp [watched,EPOLLERR,EPOLLHUP]

/-- Readiness for output is watched, and its report is on its way. -/
structure Hears (w : Watch) : Prop where
  asked : w.interest.getLsbD 2 = true
  armed : w.ready.getLsbD 2 = true → w.armed = true

variable {w : Watch}

theorem Hears.rise (hears : w.Hears) (bits : Mask) : (w.rise bits).Hears := by
  refine ⟨hears.asked,?_⟩
  intro ready
  rw [Watch.rise,BitVec.getLsbD_or,Bool.or_eq_true] at ready
  change (w.armed || w.watched.has bits) = true
  rcases ready with before | now
  · rw [hears.armed before]
    rfl
  · rw [Mask.has_of_bit 2 (w.watched_output.trans hears.asked) now,Bool.or_true]

theorem Hears.fall (hears : w.Hears) (bits : Mask) : (w.fall bits).Hears := by
  refine ⟨hears.asked,?_⟩
  intro ready
  rw [Watch.fall,BitVec.getLsbD_and,Bool.and_eq_true] at ready
  exact hears.armed ready.1

/-- `EPOLL_CTL_MOD` that asks for output reports what is ready now. -/
theorem modify_hears (events : Mask) (asked : events.getLsbD 2 = true) : (w.modify events).Hears := by
  refine ⟨asked,?_⟩
  intro ready
  have reported : (Watch.watched ⟨events,w.ready,w.armed⟩).has w.ready = true :=
    Mask.has_of_bit 2 ((watched_output _).trans asked) ready
  exact Bool.or_eq_true_iff.mpr (Or.inr reported)

theorem Hears.pending (hears : w.Hears) (ready : w.ready.getLsbD 2 = true) :
    w.pending.getLsbD 2 = true := by
  rw [Watch.pending,if_pos (hears.armed ready),BitVec.getLsbD_and,ready,w.watched_output,hears.asked]
  rfl

/-- A report carries readiness for output if there is any to report. -/
theorem Hears.poll (hears : w.Hears) (ready : w.ready.getLsbD 2 = true) :
    ∃ events, w.poll.1 = some events ∧ events.getLsbD 2 = true := by
  have bit := hears.pending ready
  refine ⟨w.pending,?_,bit⟩
  rw [Watch.poll,if_neg]
  intro none
  rw [none] at bit
  simp at bit

end Watch
end Tmms.Network
