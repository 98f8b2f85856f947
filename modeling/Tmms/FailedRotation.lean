import Tmms.FileMgr

/-! A log by itself, whose calls may fail. `Rotate` has two ways out before it is done: where
`rename` fails nothing has happened, and where `open` fails the file has gone. -/
namespace Tmms.Base.Logs

variable {β : Type}

structure Single (β : Type) where
  log : FileLog
  fs : FileSystem Path β

namespace Single

/-- `FileLog::Open`; whether `open` succeeds. -/
def open_ (filePath : Path) (opened : Bool) (s : Single β) : Single β :=
  let log := { s.log with file_path_ := filePath }
  if opened then
    let made := s.fs.openAppend filePath
    ⟨{ log with fd_ := some made.1 },made.2⟩
  else ⟨log,s.fs⟩

/-- `FileLog::WriteLog`. Without a file a log writes to the standard output. -/
def writeLog (msg : List β) (s : Single β) : Single β :=
  match s.log.fd_ with
  | none => s
  | some file => { s with fs := s.fs.append file msg }

/-- `FileLog::Rotate`. `dup2` to a descriptor that is not open does nothing. -/
def rotate (file : Path) (renamed opened : Bool) (s : Single β) : Single β :=
  if s.log.file_path_ = [] then s
  else
    match if renamed then s.fs.rename s.log.file_path_ file else none with
    | none => s
    | some fs =>
      if opened then
        let made := fs.openAppend s.log.file_path_
        ⟨{ s.log with fd_ := s.log.fd_.map fun _ => made.1 },made.2⟩
      else { s with fs := fs }

end Single

inductive Use (β : Type) where
  | open_ (filePath : Path) (opened : Bool)
  | writeLog (msg : List β)
  | rotate (file : Path) (renamed opened : Bool)

namespace Single

def use (s : Single β) : Use β → Single β
  | .open_ filePath opened => s.open_ filePath opened
  | .writeLog msg => s.writeLog msg
  | .rotate file renamed opened => s.rotate file renamed opened

def run (uses : List (Use β)) (s : Single β) : Single β := uses.foldl use s

/-- Where the log has its file, the manager's rotation is this one. -/
theorem rotate_agrees (s : World) (id : Nat) (file : Path) (renamed opened : Bool)
    (has : (s.logs id).fd_.isSome = true) :
    let after := (Single.mk (s.logs id) s.fs).rotate file renamed opened
    s.rotate id file renamed opened =
      { s with fs := after.fs, logs := Function.update s.logs id after.log, rotations := id :: s.rotations } := by
  obtain ⟨open_,found⟩ := Option.isSome_iff_exists.mp has
  have same : Function.update s.logs id (s.logs id) = s.logs := Function.update_eq_self _ _
  simp only [World.rotate,rotate]
  split
  · rw [same]
  · split
    · next failed => simp only [failed,same]
    · next fs moved =>
      cases opened with
      | false => simp [moved]
      | true => simp [moved,found,World.updateLog]

/-- The file behind `fd_` is the one under `file_path_`. -/
def Whole (s : Single β) : Prop := s.fs.entry s.log.file_path_ = s.log.fd_

def completes (file : Path) (renamed opened : Bool) (s : Single β) : Bool :=
  s.log.file_path_ ≠ [] && renamed && (s.fs.rename s.log.file_path_ file).isSome && opened

def Moves (file : Path) (renamed : Bool) (s : Single β) : Prop :=
  s.log.file_path_ ≠ [] ∧ renamed = true ∧ s.fs.entry s.log.file_path_ ≠ none ∧
    s.fs.entry file ≠ s.fs.entry s.log.file_path_

/-- The log, its file and what is done with them later are as they were. -/
structure Spared (s after : Single β) : Prop where
  log : after.log = s.log
  named : after.fs.entry s.log.file_path_ = s.fs.entry s.log.file_path_
  content : after.fs.content = s.fs.content
  whole : s.Whole → after.Whole
  later : ∀ uses, after.run uses = s.run uses

theorem Spared.refl (s : Single β) : Spared s s := ⟨rfl,rfl,rfl,id,fun _ => rfl⟩

/-- A rotation that does not complete leaves the log as it was, if and only if `rename` has not
given its file another name. -/
theorem rotate_spares_iff (s : Single β) (file : Path) (renamed opened : Bool)
    (failed : s.completes file renamed opened = false) :
    Spared s (s.rotate file renamed opened) ↔ ¬s.Moves file renamed := by
  by_cases unnamed : s.log.file_path_ = []
  · have same : s.rotate file renamed opened = s := if_pos unnamed
    rw [same]
    exact iff_of_true (.refl s) fun moves => moves.1 unnamed
  cases renamed with
  | false =>
    have same : s.rotate file false opened = s := by simp [rotate]
    rw [same]
    exact iff_of_true (.refl s) fun moves => by simp [Moves] at moves
  | true =>
    cases moved : s.fs.rename s.log.file_path_ file with
    | none =>
      have same : s.rotate file true opened = s := by simp [rotate,moved]
      have absent : s.fs.entry s.log.file_path_ = none := FileSystem.rename_none_iff.mp moved
      rw [same]
      exact iff_of_true (.refl s) fun moves => moves.2.2.1 absent
    | some fs =>
      have closed : opened = false := by simpa [completes,unnamed,moved] using failed
      have after : s.rotate file true opened = { s with fs := fs } := by simp [rotate,unnamed,moved,closed]
      rw [after]
      by_cases differ : s.fs.entry file = s.fs.entry s.log.file_path_
      · rw [FileSystem.rename_alias moved differ]
        exact iff_of_true (.refl s) fun moves => moves.2.2.2 differ
      · have present : s.fs.entry s.log.file_path_ ≠ none := by
          intro absent
          rw [FileSystem.rename_none_iff.mpr absent] at moved
          cases moved
        refine iff_of_false (fun spared => present ?_) fun moves => moves ⟨unnamed,rfl,present,differ⟩
        have other : s.log.file_path_ ≠ file := fun same => differ (by rw [← same])
        rw [← spared.named,FileSystem.rename_entry moved differ,if_neg other,if_pos rfl]

def made : Single UInt8 := ⟨⟨none,[],.kRotateNone⟩,⟨fun _ => none,fun _ => [],0⟩⟩

def written : Single UInt8 := made.run [.open_ ['a'] true,.writeLog [65]]

/-- `rename` fails. -/
theorem rotate_spares_refused : Spared written (written.rotate ['b'] false true) :=
  (rotate_spares_iff written ['b'] false true rfl).mpr fun moves => absurd moves.2.1 (by decide)

/-- `rename` succeeds and `open` fails: there is no file `a`, and the log goes on in `b`. -/
theorem rotate_strands :
    written.Whole ∧ written.completes ['b'] true false = false ∧
      (written.rotate ['b'] true false).fs.entry ['a'] = none ∧
      (written.rotate ['b'] true false).fs.entry ['b'] = (written.rotate ['b'] true false).log.fd_ ∧
      ¬(written.rotate ['b'] true false).Whole ∧ ¬Spared written (written.rotate ['b'] true false) := by
  refine ⟨rfl,rfl,rfl,rfl,fun whole => (by cases whole),fun spared => ?_⟩
  have none : (written.rotate ['b'] true false).fs.entry ['a'] = some 0 := spared.named
  cases none

end Single
end Tmms.Base.Logs
