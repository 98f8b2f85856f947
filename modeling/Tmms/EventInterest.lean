import Tmms.EventLoop

/-! The two directions of an event's interest. Each has its bits in `event_`, and both have the
bit that makes the event edge-triggered, which goes when either is taken away. -/
namespace Tmms.Network.EventInterest

inductive Call where
  | addEvent
  | delEvent
  | enableReading (enable : Bool)
  | enableWriting (enable : Bool)
  | others (loop : EventLoop)

/-- An event and its loop, and the directions its calls have last enabled. -/
structure State where
  event : Event
  loop : EventLoop
  reading : Bool
  writing : Bool

namespace State

def registered (s : State) : Bool := (s.loop.events_.lookup s.event.fd_).isSome

def made (fd : Int) (loop : EventLoop) : State := ⟨⟨fd,0⟩,loop,false,false⟩

end State

def step (ptr : EventPtr) (s : State) : Call → State
  | .addEvent =>
    let added := s.loop.addEvent ptr s.event
    ⟨added.1,added.2,s.reading || !s.registered,s.writing⟩
  | .delEvent => { s with loop := s.loop.delEvent s.event }
  | .enableReading enable =>
    match s.loop.enableEvent kEventRead s.event enable with
    | some (event,loop) => ⟨event,loop,enable,s.writing⟩
    | none => s
  | .enableWriting enable =>
    match s.loop.enableEvent kEventWrite s.event enable with
    | some (event,loop) => ⟨event,loop,s.reading,enable⟩
    | none => s
  | .others loop => { s with loop := loop }

def Covers (mask bits : Mask) : Prop := mask &&& bits = bits

instance (mask bits : Mask) : Decidable (Covers mask bits) := inferInstanceAs (Decidable (_ = _))

/-- What epoll is asked for in this direction, the trigger mode included. -/
def interest (mask bits : Mask) : Mask := if mask.has (bits &&& ~~~EPOLLET) then mask &&& bits else 0

/-- Each direction is in the mask as it was last enabled. -/
structure Agrees (s : State) : Prop where
  reading : Covers s.event.event_ kEventRead ↔ s.reading = true
  writing : Covers s.event.event_ kEventWrite ↔ s.writing = true

def Untouched (s after : State) : Call → Prop
  | .addEvent | .enableReading _ => interest after.event.event_ kEventWrite = interest s.event.event_ kEventWrite
  | .enableWriting _ => interest after.event.event_ kEventRead = interest s.event.event_ kEventRead
  | .delEvent | .others _ => after.event.event_ = s.event.event_

/-- The directions are independent all along these calls. -/
def Independent (ptr : EventPtr) : List Call → State → Prop
  | [],s => Agrees s
  | call :: calls,s => Agrees s ∧ Untouched s (step ptr s call) call ∧ Independent ptr calls (step ptr s call)

/-- A direction of a registered event is disabled where the other one is not enabled. -/
def Apart (s : State) : Call → Prop
  | .enableReading false => s.registered = true → s.writing = false
  | .enableWriting false => s.registered = true → s.reading = false
  | _ => True

def AllApart (ptr : EventPtr) : List Call → State → Prop
  | [],_ => True
  | call :: calls,s => Apart s call ∧ AllApart ptr calls (step ptr s call)

/-- The mask of an event none of whose calls has taken the trigger mode of the other direction. -/
def wanted (reading writing : Bool) : Mask :=
  (if reading then kEventRead else 0) ||| (if writing then kEventWrite else 0)

section Masks

theorem wanted_read (reading writing : Bool) : Covers (wanted reading writing) kEventRead ↔ reading = true := by
  cases reading <;> cases writing <;> decide

theorem wanted_write (reading writing : Bool) : Covers (wanted reading writing) kEventWrite ↔ writing = true := by
  cases reading <;> cases writing <;> decide

theorem agrees_of_wanted {s : State} (mask : s.event.event_ = wanted s.reading s.writing) : Agrees s := by
  constructor
  · rw [mask]
    exact wanted_read _ _
  · rw [mask]
    exact wanted_write _ _

/-- Reading is enabled, or disabled where writing is not enabled. -/
theorem wanted_enable_read (reading writing on : Bool) (apart : on = false → writing = false) :
    (wanted reading writing).enable kEventRead on = wanted on writing ∧
      interest (wanted on writing) kEventWrite = interest (wanted reading writing) kEventWrite := by
  cases on with
  | true => cases reading <;> cases writing <;> decide
  | false =>
    rw [apart rfl]
    cases reading <;> decide

theorem wanted_enable_write (reading writing on : Bool) (apart : on = false → reading = false) :
    (wanted reading writing).enable kEventWrite on = wanted reading on ∧
      interest (wanted reading on) kEventRead = interest (wanted reading writing) kEventRead := by
  cases on with
  | true => cases reading <;> cases writing <;> decide
  | false =>
    rw [apart rfl]
    cases writing <;> decide

/-- Taking a direction's bits away leaves no mask that covers the other's: both have `EPOLLET`. -/
theorem disable_uncovers (mask bits other : Mask) (edge : bits.getLsbD 31 = true) (both : other.getLsbD 31 = true) :
    ¬Covers (mask.enable bits false) other := by
  intro covers
  have bit := congrArg (BitVec.getLsbD · 31) covers
  simp [Mask.enable] at bit edge both
  simp [edge,both] at bit

end Masks

section Calls
variable {ptr : EventPtr} {s : State}

/-- A call that keeps apart from the other direction does what it should. -/
theorem step_wanted (mask : s.event.event_ = wanted s.reading s.writing) (call : Call) (apart : Apart s call) :
    (step ptr s call).event.event_ = wanted (step ptr s call).reading (step ptr s call).writing ∧
      Untouched s (step ptr s call) call := by
  cases call with
  | addEvent =>
    simp only [step,EventLoop.addEvent,Untouched,State.registered]
    cases found : s.loop.events_.lookup s.event.fd_ with
    | some other => simpa using mask
    | none =>
      obtain ⟨enabled,kept⟩ := wanted_enable_read s.reading s.writing true (fun none => by cases none)
      simp only [mask,Option.isSome_none,Bool.not_false,Bool.or_true]
      exact ⟨enabled,by rw [show wanted s.reading s.writing ||| kEventRead = _ from enabled]; exact kept⟩
  | delEvent => exact ⟨mask,rfl⟩
  | others loop => exact ⟨mask,rfl⟩
  | enableReading enable =>
    simp only [step,EventLoop.enableEvent,Untouched]
    cases found : s.loop.events_.lookup s.event.fd_ with
    | none => exact ⟨mask,rfl⟩
    | some other =>
      have careful : enable = false → s.writing = false := by
        rintro rfl
        exact apart (by rw [State.registered,found]; rfl)
      obtain ⟨enabled,kept⟩ := wanted_enable_read s.reading s.writing enable careful
      simp only [mask,enabled]
      exact ⟨trivial,kept⟩
  | enableWriting enable =>
    simp only [step,EventLoop.enableEvent,Untouched]
    cases found : s.loop.events_.lookup s.event.fd_ with
    | none => exact ⟨mask,rfl⟩
    | some other =>
      have careful : enable = false → s.reading = false := by
        rintro rfl
        exact apart (by rw [State.registered,found]; rfl)
      obtain ⟨enabled,kept⟩ := wanted_enable_write s.reading s.writing enable careful
      simp only [mask,enabled]
      exact ⟨trivial,kept⟩

/-- After any other call a direction is enabled that the mask does not cover. -/
theorem apart_of_agrees (call : Call) (agrees : Agrees (step ptr s call)) : Apart s call := by
  cases call with
  | enableReading enable =>
    cases enable with
    | true => trivial
    | false =>
      intro registered
      obtain ⟨other,found⟩ := Option.isSome_iff_exists.mp registered
      have covers := agrees.writing
      simp only [step,EventLoop.enableEvent,found] at covers
      rw [← Bool.not_eq_true,← covers]
      exact disable_uncovers _ _ _ (by decide) (by decide)
  | enableWriting enable =>
    cases enable with
    | true => trivial
    | false =>
      intro registered
      obtain ⟨other,found⟩ := Option.isSome_iff_exists.mp registered
      have covers := agrees.reading
      simp only [step,EventLoop.enableEvent,found] at covers
      rw [← Bool.not_eq_true,← covers]
      exact disable_uncovers _ _ _ (by decide) (by decide)
  | _ => trivial

theorem Independent.agrees {calls : List Call} (independent : Independent ptr calls s) : Agrees s := by
  cases calls with
  | nil => exact independent
  | cons call calls => exact independent.1

theorem wanted_made (fd : Int) (loop : EventLoop) :
    (State.made fd loop).event.event_ = wanted (State.made fd loop).reading (State.made fd loop).writing := by
  change (0 : Mask) = wanted false false
  decide

theorem independent_iff (calls : List Call) (mask : s.event.event_ = wanted s.reading s.writing) :
    Independent ptr calls s ↔ AllApart ptr calls s := by
  induction calls generalizing s with
  | nil => exact iff_true_intro (agrees_of_wanted mask)
  | cons call calls ih =>
    constructor
    · rintro ⟨_,_,rest⟩
      have apart := apart_of_agrees call rest.agrees
      exact ⟨apart,(ih (step_wanted mask call apart).1).mp rest⟩
    · rintro ⟨apart,rest⟩
      obtain ⟨next,untouched⟩ := step_wanted mask call apart
      exact ⟨agrees_of_wanted mask,untouched,(ih next).mpr rest⟩

end Calls

/-- Whatever happens to the loop, all along the calls made on a new event the mask says which
directions were last enabled, and a call leaves the other direction's interest, if and only if no
call disables one direction while the other is enabled. -/
theorem directions_independent_iff (ptr : EventPtr) (fd : Int) (loop : EventLoop) (calls : List Call) :
    Independent ptr calls (.made fd loop) ↔ AllApart ptr calls (.made fd loop) :=
  independent_iff calls (wanted_made fd loop)

/-- What `OnWrite` does when its queue is empty: reading is no longer edge-triggered. -/
theorem disable_loses_edge :
    (step (.connection 0) (step (.connection 0) (step (.connection 0)
        (.made 5 ⟨∅,⟨[5],fun _ => none⟩⟩) .addEvent) (.enableWriting true)) (.enableWriting false)).event.event_ =
          EPOLLIN ||| EPOLLPRI ∧
      ¬Independent (.connection 0) [.addEvent,.enableWriting true,.enableWriting false]
        (.made 5 ⟨∅,⟨[5],fun _ => none⟩⟩) := by
  constructor
  · decide
  · rintro ⟨_,_,_,_,_,_,agrees⟩
    exact absurd (agrees.reading.mpr rfl) (by decide)

end Tmms.Network.EventInterest
