import Tmms.FileMgr

/-! Which checks rotate. `OnCheck` compares the day, the hour and the minute of a check with
those stored, each by itself, so two checks in different calendar units may agree in the field
that stands for the unit. The runs are recorded: for each call, what it saw of each log. -/
namespace Tmms.Base.Logs

namespace LocalTime

def unit (t : LocalTime) : RotateType → List Int
  | .kRotateNone => []
  | .kRotateMinute => [t.year,t.month,t.day,t.hour,t.minute]
  | .kRotateHour => [t.year,t.month,t.day,t.hour]
  | .kRotateDay => [t.year,t.month,t.day]

/-- The field that `OnCheck` compares for them. -/
def field (t : LocalTime) : RotateType → Option Int
  | .kRotateNone => none
  | .kRotateMinute => some t.minute
  | .kRotateHour => some t.hour
  | .kRotateDay => some t.day

def Alike (t u : LocalTime) : Prop := t.day = u.day ∧ t.hour = u.hour ∧ t.minute = u.minute

theorem Alike.symm {t u : LocalTime} (alike : t.Alike u) : u.Alike t :=
  ⟨alike.1.symm,alike.2.1.symm,alike.2.2.symm⟩

theorem Alike.trans {t u v : LocalTime} (first : t.Alike u) (second : u.Alike v) : t.Alike v :=
  ⟨first.1.trans second.1,first.2.1.trans second.2.1,first.2.2.trans second.2.2⟩

theorem Alike.field {t u : LocalTime} (alike : t.Alike u) (kind : RotateType) : t.field kind = u.field kind := by
  obtain ⟨day,hour,minute⟩ := alike
  cases kind with
  | kRotateNone => rfl
  | kRotateMinute => exact congrArg some minute
  | kRotateHour => exact congrArg some hour
  | kRotateDay => exact congrArg some day

end LocalTime

/-- A log as a check comes to it, and whether the check has called `Rotate` for it, once. -/
structure Seen where
  log : Nat
  kind : RotateType
  nonempty : Bool
  rotated : Bool
  deriving DecidableEq

/-- A call of `OnCheck` that has returned: the time of the call before it and its own, the logs in
`logs_`, what it did with each, and the `last_*` fields when it returned. -/
structure Call where
  before : Option LocalTime
  now : LocalTime
  registered : List Nat
  seen : List Seen
  stamp : LocalTime
  deriving DecidableEq

namespace Call

end Call

/-- A run with what its checks saw: the one under way and, latest first, those that have
returned. -/
structure Recorded where
  world : World
  seen : List Seen
  calls : List Call

namespace World

def registered (s : World) : List Nat := s.logs_.map Prod.snd

def look (s after : World) (id : Nat) : Seen :=
  ⟨id,(s.logs id).rotateType_,s.fileSize id > 0,after.rotations = id :: s.rotations⟩

def upcoming (s : World) : List Nat :=
  match s.check with
  | none => []
  | some check => check.todo.take 1

structure Same (s after : World) : Prop where
  check : after.check = s.check
  logs_ : after.logs_ = s.logs_
  last : after.last = s.last
  made : after.made = s.made

end World

namespace Recorded

/-- The call at `now` has returned. -/
def returned (now : LocalTime) (seen : List Seen) (after : World) (s : Recorded) : Recorded :=
  ⟨after,[],⟨s.calls.head?.map Call.now,now,after.registered,seen,after.last⟩ :: s.calls⟩

/-- `localtime_r` counts the days of a month from 1. -/
def step (s : Recorded) (move : Move) : Option Recorded :=
  (Logs.step s.world move).bind fun after =>
    match move with
    | .onCheck now order =>
      if now.day < 1 then none
      else
        match after.check with
        | none => some (s.returned now (order.map (s.world.look after)) after)
        | some _ => some { s with world := after, seen := [] }
    | .visit _ _ => some { s with world := after, seen := s.seen ++ s.world.upcoming.map (s.world.look after) }
    | .checked => s.world.check.map fun check => s.returned check.now s.seen after
    | _ => some { s with world := after }

def exec : List Move → Recorded → Option Recorded
  | [],s => some s
  | move :: moves,s => (step s move).bind (exec moves)

theorem step_world {s next : Recorded} {move : Move} (stepped : s.step move = some next) :
    Logs.step s.world move = some next.world := by
  obtain ⟨after,moved,rest⟩ := Option.bind_eq_some_iff.mp stepped
  rw [moved]
  cases move with
  | onCheck now order =>
    dsimp only at rest
    split at rest
    · cases rest
    · split at rest <;> cases rest <;> rfl
  | checked =>
    obtain ⟨check,_,rfl⟩ := Option.map_eq_some_iff.mp rest
    rfl
  | getFileLog | removeFileLog | setRotate | writeLog | visit =>
    cases rest
    rfl

theorem exec_world {moves : List Move} {s final : Recorded} (ran : exec moves s = some final) :
    Logs.exec moves s.world = some final.world := by
  induction moves generalizing s with
  | nil =>
    cases ran
    rfl
  | cons move moves ih =>
    obtain ⟨next,stepped,rest⟩ := Option.bind_eq_some_iff.mp ran
    exact Option.bind_eq_some_iff.mpr ⟨next.world,step_world stepped,ih rest⟩

end Recorded

/-- A call and the one before it: what is rotated follows the fields, and the stamp is that of
the earlier call where the two agree in all three. -/
structure Fits (earlier : Option Call) (call : Call) : Prop where
  before : call.before = earlier.map Call.now
  once : call.registered.Nodup ∧ (call.seen.map Seen.log).Perm call.registered
  rotated : ∀ seen ∈ call.seen, seen.nonempty = true →
    (seen.rotated = true ↔ ∃ before, call.before = some before ∧ before.field seen.kind ≠ call.now.field seen.kind)
  near : ∀ e, earlier = some e → e.now.Alike call.now → call.stamp = e.stamp
  far : (∀ e, earlier = some e → ¬e.now.Alike call.now) → call.stamp = call.now

def History : List Call → Prop
  | [] => True
  | call :: earlier => Fits earlier.head? call ∧ History earlier

/-- A check between two logs. -/
structure UnderWay (s : Recorded) (check : Check) : Prop where
  day : 0 < check.now.day
  due : ∀ kind, check.due kind = true ↔ s.world.last.field kind ≠ check.now.field kind
  apart : ¬s.world.last.Alike check.now
  order : (s.seen.map Seen.log ++ check.todo).Perm s.world.registered
  rotated : ∀ seen ∈ s.seen, seen.nonempty = true → (seen.rotated = true ↔ check.due seen.kind = true)

variable {s : Recorded}

theorem UnderWay.same {check : Check} (going : UnderWay s check) (after : Recorded)
    (last : after.world.last = s.world.last) (logs_ : after.world.logs_ = s.world.logs_)
    (seen : after.seen = s.seen) : UnderWay after check := by
  have registered : after.world.registered = s.world.registered := congrArg (List.map Prod.snd) logs_
  constructor
  · exact going.day
  · rw [last]
    exact going.due
  · rw [last]
    exact going.apart
  · rw [seen,registered]
    exact going.order
  · rw [seen]
    exact going.rotated

def unused : World where
  fs := ⟨fun _ => none,fun _ => [],0⟩
  logs := fun _ => ⟨none,[],.kRotateNone⟩
  made := 0
  logs_ := []
  last := ⟨-1,-1,-1,-1,-1⟩
  check := none
  written := []
  rotations := []

def logged : List Move := [.getFileLog ['a'] true,.setRotate 0 .kRotateMinute,.writeLog 0 [65]]

end Tmms.Base.Logs
