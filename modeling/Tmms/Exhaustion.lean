import Tmms.TcpConnection

/-! When a handler of an edge-triggered descriptor may return: the descriptor has said that it
is not ready, or has nothing more to say, or is the object's no longer. What is recorded ends
with the last of these: what an object does with its next descriptor is not the handler's. -/
namespace Tmms.Network

/-- The handlers that work their descriptor off. -/
inductive EdgeHandler where
  | tcpOnRead
  | tcpOnWrite
  | clientOnRead
  | acceptorOnRead
  | udpOnRead
  deriving DecidableEq

def EdgeHandler.stream : EdgeHandler → Bool
  | .tcpOnRead | .clientOnRead => true
  | _ => false

namespace Exhaustion

/-- What happens to a descriptor while its handler runs. -/
inductive Happening where
  | outcome (a : Result)
  | drained
  | forceClose
  | closed
  -- the object has another descriptor opened in its place
  | reopened
  deriving DecidableEq

def Happening.result? : Happening → Option Result
  | .outcome a => some a
  | _ => none

def outcomes (history : List Happening) : List Result := history.filterMap Happening.result?

def blocked (a : Result) : Prop := a.ret < 0 ∧ (a.errno = EAGAIN ∨ a.errno = EWOULDBLOCK)

def interrupted (a : Result) : Prop := a.ret < 0 ∧ a.errno = EINTR

def Released (history : List Happening) : Prop := .closed ∈ history ∨ .reopened ∈ history

/-- The handler leaves nothing on a ready descriptor. Bytes that are sent once the queue has
been found empty ask for their own readiness. -/
def Exhausted (h : EdgeHandler) (history : List Happening) : Prop :=
  (∃ a ∈ (outcomes history).getLast?, blocked a ∨ (h.stream = true ∧ a.ret = 0)) ∨
    (h = .tcpOnWrite ∧ .drained ∈ history) ∨ Released history

def Interrupted (history : List Happening) : Prop := ∃ a ∈ outcomes history, interrupted a

instance (a : Result) : Decidable (blocked a) := inferInstanceAs (Decidable (_ ∧ _))

instance (a : Result) : Decidable (interrupted a) := inferInstanceAs (Decidable (_ ∧ _))

instance (history : List Happening) : Decidable (Released history) := inferInstanceAs (Decidable (_ ∨ _))

instance (h : EdgeHandler) (history : List Happening) : Decidable (Exhausted h history) :=
  inferInstanceAs (Decidable (_ ∨ _))

instance (history : List Happening) : Decidable (Interrupted history) :=
  inferInstanceAs (Decidable (∃ a ∈ outcomes history, interrupted a))

/-- The descriptor a handler was called for, as long as its object holds it, and what has
happened to it until then. -/
structure Tenure where
  fd : Option Int
  history : List Happening

namespace Tenure

def start (fd : Int) : Tenure := ⟨some fd,[]⟩

def note (h : Happening) (w : Tenure) : Tenure :=
  if w.fd.isSome then { w with history := w.history ++ [h] } else w

def returned (fd : Int) (a : Result) (w : Tenure) : Tenure :=
  if w.fd = some fd then w.note (.outcome a) else w

def close (fd : Int) (w : Tenure) : Tenure :=
  if w.fd = some fd then ⟨none,w.history ++ [.closed]⟩ else w

def reopen (w : Tenure) : Tenure := ⟨none,(w.note .reopened).history⟩

structure Holds (fd : Int) (w : Tenure) : Prop where
  fd : w.fd = some fd
  released : ¬Released w.history

structure Gone (w : Tenure) : Prop where
  fd : w.fd = none
  released : Released w.history

end Tenure

/-- Things happen that are not the handler's calls. -/
def Aside (before after : List Happening) : Prop :=
  ∃ more, after = before ++ more ∧ outcomes more = []

section Events
variable {history before after last : List Happening} {a : Result} {h : EdgeHandler}

@[simp] theorem outcomes_append : outcomes (before ++ after) = outcomes before ++ outcomes after :=
  List.filterMap_append

@[simp] theorem outcomes_outcome : outcomes [.outcome a] = [a] := rfl

theorem Aside.refl : Aside before before := ⟨[],(List.append_nil _).symm,rfl⟩

theorem Aside.trans (first : Aside before after) (second : Aside after last) : Aside before last := by
  obtain ⟨more,same,none⟩ := first
  obtain ⟨further,eq,nothing⟩ := second
  refine ⟨more ++ further,by rw [eq,same,List.append_assoc],?_⟩
  rw [outcomes_append,none,nothing]
  rfl

theorem Aside.outcomes (aside : Aside before after) : outcomes after = outcomes before := by
  obtain ⟨more,same,none⟩ := aside
  rw [same,outcomes_append,none,List.append_nil]

theorem Aside.mem (aside : Aside before after) {event : Happening} (among : event ∈ before) : event ∈ after := by
  obtain ⟨more,same,_⟩ := aside
  rw [same]
  exact List.mem_append_left _ among

theorem Aside.released (aside : Aside before after) (released : Released before) : Released after :=
  released.imp aside.mem aside.mem

theorem interrupted_append :
    Interrupted (history ++ [.outcome a]) ↔ Interrupted history ∨ interrupted a := by
  simp only [Interrupted,outcomes_append,outcomes_outcome,List.mem_append,List.mem_singleton]
  constructor
  · rintro ⟨b,old | rfl,found⟩
    · exact Or.inl ⟨b,old,found⟩
    · exact Or.inr found
  · rintro (⟨b,old,found⟩ | found)
    · exact ⟨b,Or.inl old,found⟩
    · exact ⟨a,Or.inr rfl,found⟩

theorem not_exhausted_nil : ¬Exhausted h [] := by
  rintro (⟨a,found,_⟩ | ⟨_,among⟩ | among | among)
  · cases found
  · cases among
  · cases among
  · cases among

/-- Without a call of its own, only the queue or the loss of the descriptor excuses a handler. -/
theorem exhausted_uncalled (reads : h ≠ .tcpOnWrite) (none : outcomes history = []) :
    Exhausted h history ↔ Released history := by
  simp [Exhausted,none,reads]

theorem exhausted_released (released : Released history) : Exhausted h history :=
  Or.inr (Or.inr released)

/-- The last call decides, where the descriptor is held. -/
theorem exhausted_last (undrained : h = .tcpOnWrite → .drained ∉ history) (held : ¬Released history) :
    Exhausted h (history ++ [.outcome a]) ↔ blocked a ∨ (h.stream = true ∧ a.ret = 0) := by
  have unreleased : ¬Released (history ++ [.outcome a]) := by simpa [Released] using held
  simp only [Exhausted,outcomes_append,outcomes_outcome,List.getLast?_concat,Option.mem_def,Option.some.injEq,
    List.mem_append,List.mem_singleton,reduceCtorEq,or_false,unreleased]
  constructor
  · rintro (⟨b,rfl,ends⟩ | ⟨writes,among⟩)
    · exact ends
    · exact absurd among (undrained writes)
  · exact fun ends => Or.inl ⟨a,rfl,ends⟩

/-- A failed call that is no reason to close: the descriptor is not ready, or the call was
interrupted. -/
theorem blocked_iff (failed : a.ret < 0) (passing : fatal a.errno = false) :
    blocked a ↔ ¬interrupted a := by
  simp only [fatal,Bool.and_eq_false_iff,bne_eq_false_iff_eq] at passing
  simp only [blocked,interrupted,failed,true_and]
  constructor
  · rintro (again | again) <;> rw [again] <;> decide
  · intro other
    rcases passing with (same | again) | again
    · exact absurd same other
    · exact Or.inl again
    · exact Or.inr again

theorem not_interrupted_of_fatal (fails : fatal a.errno = true) : ¬interrupted a := by
  rintro ⟨_,same⟩
  rw [same] at fails
  exact absurd fails (by decide)

theorem not_interrupted_of_nonneg (nonneg : ∀ a ∈ outcomes history, 0 ≤ a.ret) : ¬Interrupted history := by
  rintro ⟨a,among,negative,_⟩
  exact absurd (nonneg a among) (by omega)

end Events

namespace Tenure
variable {w : Tenure} {fd : Int} {a : Result} {h : Happening}

theorem start_holds : (start fd).Holds fd := ⟨rfl,by simp [start,Released]⟩

theorem Holds.note_eq (holds : w.Holds fd) : w.note h = ⟨some fd,w.history ++ [h]⟩ := by
  rw [note,holds.fd]
  rfl

theorem Holds.returned_eq (holds : w.Holds fd) : w.returned fd a = ⟨some fd,w.history ++ [.outcome a]⟩ := by
  rw [returned,if_pos holds.fd,holds.note_eq]

theorem Holds.close_eq (holds : w.Holds fd) : w.close fd = ⟨none,w.history ++ [.closed]⟩ :=
  if_pos holds.fd

theorem Holds.reopen_eq (holds : w.Holds fd) : w.reopen = ⟨none,w.history ++ [.reopened]⟩ := by
  rw [reopen,holds.note_eq]

theorem Holds.returned (holds : w.Holds fd) : (w.returned fd a).Holds fd := by
  rw [holds.returned_eq]
  exact ⟨rfl,by simpa [Released] using holds.released⟩

theorem Holds.close (holds : w.Holds fd) : (w.close fd).Gone := by
  rw [holds.close_eq]
  exact ⟨rfl,Or.inl (by simp)⟩

theorem Holds.reopen (holds : w.Holds fd) : w.reopen.Gone := by
  rw [holds.reopen_eq]
  exact ⟨rfl,Or.inr (by simp)⟩

theorem Holds.note (holds : w.Holds fd) (closed : h ≠ .closed) (reopened : h ≠ .reopened) :
    (w.note h).Holds fd := by
  rw [holds.note_eq]
  exact ⟨rfl,by simpa [Released,closed.symm,reopened.symm] using holds.released⟩

/-- After the end nothing is recorded. -/
theorem Gone.note_eq (gone : w.Gone) : w.note h = w := by
  rw [note,gone.fd]
  rfl

theorem Gone.returned_eq (gone : w.Gone) : w.returned fd a = w :=
  if_neg (by rw [gone.fd]; exact fun same => by cases same)

theorem Gone.close_eq (gone : w.Gone) : w.close fd = w :=
  if_neg (by rw [gone.fd]; exact fun same => by cases same)

theorem Gone.reopen_eq (gone : w.Gone) : w.reopen = w := by
  rw [reopen,gone.note_eq,← gone.fd]

theorem mem_returned {b : Result} (among : b ∈ outcomes (w.returned fd a).history) :
    b ∈ outcomes w.history ∨ b = a := by
  unfold Tenure.returned Tenure.note at among
  split at among
  · split at among
    · simpa using among
    · exact Or.inl among
  · exact Or.inl among

/-- What is gone stays gone. -/
theorem Gone.aside {later : Tenure} (gone : w.Gone) (aside : Aside w.history later.history) : ¬later.Holds fd :=
  fun holds => holds.released (aside.released gone.released)

theorem aside_note (other : h.result? = none) : Aside w.history (w.note h).history := by
  unfold note
  split
  · exact ⟨[h],rfl,by simp [outcomes,other]⟩
  · exact Aside.refl

theorem aside_close : Aside w.history (w.close fd).history := by
  unfold close
  split
  · exact ⟨[.closed],rfl,rfl⟩
  · exact Aside.refl

theorem aside_reopen : Aside w.history w.reopen.history := aside_note rfl

end Tenure
end Exhaustion
end Tmms.Network
