import Tmms.LogOrder

/-! Which lines there are, and under what names. The level of the logger decides what is printed,
but warnings and errors do not ask for it; and a rotation that takes a clear name keeps every line. -/
namespace Tmms.Base.Logging

open Tmms.Base.Configuration (LoggerLevel)

/-- A line of this level is printed where the logger has this one. -/
def Loud (low level : LoggerLevel) : Prop := level = .kWarn ∨ level = .kError ∨ value low ≤ value level

/-- No level below this one is set. A logger that is made begins with `kDebug`. -/
def Move.AtLeast (low : LoggerLevel) : Move → Prop
  | .newLogger _ => value low ≤ value .kDebug
  | .setLoggerLevel level => value low ≤ value level
  | _ => True

structure Levelled (low : LoggerLevel) (s : World) : Prop where
  loggers : ∀ logger ∈ s.loggers, value low ≤ value logger.level_
  building : ∀ thread, ∀ x ∈ s.streams thread, Loud low x.statement.site.level
  ended : ∀ done ∈ s.ended, Loud low done.1.site.level

section Levels
variable {low : LoggerLevel} {s next : World}

theorem admits_loud {level : LoggerLevel} (loggers : ∀ logger ∈ s.loggers, value low ≤ value logger.level_)
    (admitted : s.admits level = true) : Loud low level := by
  have asked : s.asks level = true → Loud low level := by
    intro asked
    unfold World.asks at asked
    split at asked
    · next logger current =>
      obtain ⟨i,_,inside⟩ := Option.bind_eq_some_iff.mp current
      have above := loggers logger (List.mem_of_getElem? inside)
      exact Or.inr (Or.inr (Nat.le_trans above (of_decide_eq_true asked)))
    · cases asked
  cases level with
  | kWarn => exact Or.inl rfl
  | kError => exact Or.inr (Or.inl rfl)
  | kTrace | kDebug | kInfo => exact asked admitted

theorem modify_level {loggers : List Logger} {i : Nat} {level : LoggerLevel}
    (others : ∀ logger ∈ loggers, value low ≤ value logger.level_) (here : value low ≤ value level) :
    ∀ logger ∈ loggers.modify i fun logger => { logger with level_ := level }, value low ≤ value logger.level_ := by
  intro logger among
  obtain ⟨j,found⟩ := List.mem_iff_getElem?.mp among
  rw [List.getElem?_modify] at found
  obtain ⟨before,there,same⟩ := Option.map_eq_some_iff.mp found
  subst same
  split
  · exact here
  · exact others before (List.mem_of_getElem? there)

theorem Levelled.step {move : Move} (levelled : Levelled low s) (least : move.AtLeast low)
    (stepped : Stepped s move next) : Levelled low next := by
  have whole := levelled
  obtain ⟨loggers,building,ended⟩ := levelled
  cases stepped with
  | passed | managed => exact ⟨loggers,building,ended⟩
  | dropped => exact whole
  | made log known =>
    refine ⟨?_,building,ended⟩
    rw [List.forall_mem_append,List.forall_mem_singleton]
    exact ⟨loggers,least⟩
  | leveled i level current => exact ⟨modify_level loggers least,building,ended⟩
  | started thread site admitted =>
    refine ⟨loggers,forall_update building ?_,ended⟩
    rw [List.forall_mem_cons]
    exact ⟨admits_loud loggers admitted,building thread⟩
  | printed thread value x rest top =>
    have here := building thread
    rw [top,List.forall_mem_cons] at here
    exact ⟨loggers,forall_update building (List.forall_mem_cons.mpr here),ended⟩
  | finished thread x rest top =>
    have here := building thread
    rw [top,List.forall_mem_cons] at here
    have streams : ∀ t, ∀ y ∈ Function.update s.streams thread rest t, Loud low y.statement.site.level :=
      forall_update building here.2
    unfold World.end_
    split
    all_goals
      refine ⟨loggers,streams,?_⟩
      rw [List.forall_mem_append,List.forall_mem_singleton]
      exact ⟨ended,here.1⟩

/-- No line is below the least level that a logger has had, but for warnings and errors, which are
printed at any level. -/
theorem lines_loud (s final : World) (ready : Ready s) (low : LoggerLevel)
    (loggers : ∀ logger ∈ s.loggers, value low ≤ value logger.level_) (moves : List Move)
    (least : ∀ move ∈ moves, move.AtLeast low) (ran : exec moves s = some final) :
    ∀ done ∈ final.ended, Loud low done.1.site.level := by
  have start : Levelled low s := ⟨loggers,by simp [ready.silent],by simp [ready.new]⟩
  have levelled : Levelled low final :=
    exec_kept (fun _ move _ among levelled stepped => levelled.step (least move among) stepped) start ran
  exact levelled.ended

end Levels

def Careful : List Move → World → Prop
  | [],_ => True
  | move :: moves,s =>
    (∀ opened id, move = .files (.visit true opened) → s.files.rotating = some id →
      Logs.Clear (Logs.World.target (s.files.logs id).file_path_) s.files) ∧
    ∀ next, step s move = some next → Careful moves next

section Names
variable {initial : Nat → List UInt8} {s next final : World}

theorem step_kept {move : Move} (recorded : Recorded initial s) (kept : Logs.Kept s.files)
    (clear : ∀ opened id, move = .files (.visit true opened) → s.files.rotating = some id →
      Logs.Clear (Logs.World.target (s.files.logs id).file_path_) s.files)
    (stepped : Stepped s move next) : Logs.Kept next.files := by
  cases stepped with
  | passed | made | leveled | dropped | started | printed => exact kept
  | managed move files quiet stepped =>
    apply Logs.step_kept kept move files stepped
    rintro opened id rfl
    exact clear opened id rfl
  | finished thread x rest top =>
    unfold World.end_
    split
    · next id log =>
      obtain ⟨logger,found,open_⟩ := Option.bind_eq_some_iff.mp log
      obtain ⟨i,_,inside⟩ := Option.bind_eq_some_iff.mp found
      exact Logs.writeLog_kept kept (recorded.loggers logger (List.mem_of_getElem? inside) id open_) _
    · exact kept

theorem run_kept {moves : List Move} (recorded : Recorded initial s) (kept : Logs.Kept s.files)
    (careful : Careful moves s) (ran : exec moves s = some final) : Logs.Kept final.files := by
  induction moves generalizing s with
  | nil =>
    cases ran
    exact kept
  | cons move moves ih =>
    obtain ⟨next,stepped,rest⟩ := Option.bind_eq_some_iff.mp ran
    have inverted := step_cases stepped
    exact ih (recorded.step inverted) (step_kept recorded kept careful.1 inverted) (careful.2 next stepped) rest

/-- A line that went to a file is in it, and the file has one name. -/
theorem line_kept {moves : List Move} (ready : Ready s) (kept : Logs.Kept s.files) (careful : Careful moves s)
    (ran : exec moves s = some final) (done : Statement × Option Nat) (among : done ∈ final.ended) (file : Nat)
    (went : done.2 = some file) : done.1.text <:+: final.files.text file ∧
      ∃ path, final.files.fs.entry path = some file ∧ ∀ other, final.files.fs.entry other = some file → other = path := by
  have content := (run_recorded ready ran).content file
  have intact := (run_kept ready.recorded kept careful ran).intact
  have line : done.1 ∈ linesIn file final.ended := List.mem_map_of_mem (by simp [among,went])
  have inside : done.1.text <:+: final.files.text file := by
    rw [content]
    exact (List.infix_of_mem_flatten (List.mem_map_of_mem line)).trans (List.suffix_append _ _).isInfix
  refine ⟨inside,?_⟩
  have ends : newline ∈ final.files.text file := inside.subset (by simp [Statement.text])
  obtain ⟨byte,stored,_⟩ := List.mem_map.mp ends
  obtain ⟨path,named⟩ := intact.kept file byte stored
  exact ⟨path,named,fun other also => intact.alone other path file also named⟩

/-- If each rotation of a run takes a clear name, every line that went to a file stands in it in one
piece, and the file has a name, and only that one. -/
theorem lines_named (s final : World) (ready : Ready s) (kept : Logs.Kept s.files) (moves : List Move)
    (careful : Careful moves s) (ran : exec moves s = some final) :
    ∀ done ∈ final.ended, ∀ file, done.2 = some file → done.1.text <:+: final.files.text file ∧
      ∃ path, final.files.fs.entry path = some file ∧ ∀ other, final.files.fs.entry other = some file → other = path :=
  fun done among file went => line_kept ready kept careful ran done among file went

/-- Where there is no file of that name, the name is clear. -/
def takesFree (move : Move) (s : World) : Bool :=
  match move,s.files.rotating with
  | .files (.visit true _),some id => (s.files.fs.entry (Logs.World.target (s.files.logs id).file_path_)).isNone
  | _,_ => true

def free : List Move → World → Bool
  | [],_ => true
  | move :: moves,s => takesFree move s && (step s move).all (free moves)

theorem careful_of_free {moves : List Move} (checked : free moves s = true) : Careful moves s := by
  induction moves generalizing s with
  | nil => trivial
  | cons move moves ih =>
    obtain ⟨here,further⟩ := Bool.and_eq_true_iff.mp checked
    constructor
    · rintro opened id rfl rotating file found
      simp [takesFree,rotating,found] at here
    · intro next stepped
      rw [stepped] at further
      exact ih further

theorem lines_named_interleaved :
    ∃ final, exec interleaved quiet = some final ∧ ∀ done ∈ final.ended, ∀ file, done.2 = some file →
      done.1.text <:+: final.files.text file ∧ ∃ path, final.files.fs.entry path = some file ∧
        ∀ other, final.files.fs.entry other = some file → other = path := by
  obtain ⟨final,ran,_⟩ := Option.map_eq_some_iff.mp interleaved_ended
  have careful : Careful interleaved quiet := careful_of_free (by decide +kernel)
  exact ⟨final,ran,lines_named quiet final quiet_ready (Logs.fresh_kept Logs.empty_fresh) interleaved careful ran⟩

end Names
end Tmms.Base.Logging
