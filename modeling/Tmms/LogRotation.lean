import Tmms.FileMgr

/-! What becomes of the bytes of a log. A rotation gives the old file a name that is the same
each time, so it loses bytes when a file of that name is there already; as long as none is,
every byte stays in one file. -/
namespace Tmms.Base.Logs

open FileSystem

/-- Nothing is lost when a file is given this name: a file that has it is empty, and no log
writes to it. -/
def Clear (path : Path) (s : World) : Prop :=
  ∀ file, s.fs.entry path = some file →
    s.fs.content file = [] ∧ ∀ id < s.made, (s.logs id).fd_ ≠ some file

structure Kept (s : World) : Prop where
  intact : s.fs.Intact
  opened : ∀ id < s.made, ∀ file, (s.logs id).fd_ = some file → s.fs.Named file
  stored : ∀ byte ∈ s.written, ∃ file, byte ∈ s.fs.content file
  numbered : ∀ file, ∀ byte ∈ s.fs.content file, byte.serial < s.written.length

variable {s : World}

theorem open_kept (kept : Kept s) (path : Path) : Kept (s.open_ path) := by
  have content : (s.fs.openAppend path).2.content = s.fs.content := kept.intact.openAppend_content
  constructor
  · exact kept.intact.openAppend
  · intro id made file descriptor
    by_cases new : id = s.made
    · subst new
      have same : (s.fs.openAppend path).1 = file := by simpa [World.open_] using descriptor
      exact ⟨path,same ▸ openAppend_entry path s.fs⟩
    · have made : id < s.made := by
        simp only [World.open_] at made
        omega
      simp only [World.open_,Function.update_of_ne new] at descriptor
      exact openAppend_named (kept.opened id made file descriptor)
  · intro byte among
    simp only [World.open_,content]
    exact kept.stored byte among
  · intro file byte
    simp only [World.open_,content]
    exact kept.numbered file byte

theorem writeLog_kept (kept : Kept s) {id : Nat} (made : id < s.made) (msg : List UInt8) :
    Kept (s.writeLog id msg) := by
  unfold World.writeLog
  split
  · exact kept
  · next file descriptor =>
    have serial : ∀ byte ∈ msg.mapIdx fun k value => (⟨s.written.length + k,value⟩ : Byte),
        s.written.length ≤ byte.serial ∧ byte.serial < s.written.length + msg.length := by
      intro byte among
      obtain ⟨k,inside,rfl⟩ := List.mem_mapIdx.mp among
      exact ⟨Nat.le_add_right _ _,Nat.add_lt_add_left inside _⟩
    constructor
    · apply kept.intact.append (kept.opened id made file descriptor)
      intro byte among i stored
      have earlier := kept.numbered i byte stored
      have later := (serial byte among).1
      omega
    · exact fun other made descriptor => kept.opened other made descriptor
    · intro byte among
      rcases List.mem_append.mp among with before | added
      · obtain ⟨i,inside⟩ := kept.stored byte before
        exact ⟨i,(append_content file _ i byte).mpr (Or.inl inside)⟩
      · exact ⟨file,(append_content file _ file byte).mpr (Or.inr ⟨rfl,added⟩)⟩
    · intro i byte among
      rw [List.length_append,List.length_mapIdx]
      rcases (append_content file _ i byte).mp among with before | ⟨_,added⟩
      · exact Nat.lt_add_right _ (kept.numbered i byte before)
      · exact (serial byte added).2

/-- Taking a clear name loses nothing. -/
theorem rename_kept (kept : Kept s) {old file : Path} {fs : Files} (clear : Clear file s)
    (moved : s.fs.rename old file = some fs) : Kept { s with fs := fs } := by
  obtain ⟨content,_⟩ := rename_same moved
  constructor
  · exact kept.intact.rename moved fun i target => (clear i target).1
  · intro id made i descriptor
    apply rename_named moved (kept.opened id made i descriptor)
    exact fun target => (clear i target).2 id made descriptor
  · intro byte among
    simp only [content]
    exact kept.stored byte among
  · intro i byte
    simp only [content]
    exact kept.numbered i byte

theorem reopen_kept (kept : Kept s) (id : Nat) (path : Path) :
    Kept ({ s with fs := (s.fs.openAppend path).2 }.updateLog id fun log =>
      { log with fd_ := some (s.fs.openAppend path).1 }) := by
  have content : (s.fs.openAppend path).2.content = s.fs.content := kept.intact.openAppend_content
  constructor
  · exact kept.intact.openAppend
  · intro other made i descriptor
    by_cases same : other = id
    · subst same
      have same : (s.fs.openAppend path).1 = i := by simpa [World.updateLog] using descriptor
      exact ⟨path,same ▸ openAppend_entry path s.fs⟩
    · simp only [World.updateLog,Function.update_of_ne same] at descriptor
      exact openAppend_named (kept.opened other made i descriptor)
  · intro byte among
    simp only [World.updateLog,content]
    exact kept.stored byte among
  · intro i byte
    simp only [World.updateLog,content]
    exact kept.numbered i byte

theorem Kept.same (kept : Kept s) (after : World) (fs : after.fs = s.fs) (logs : after.logs = s.logs)
    (made : after.made = s.made) (written : after.written = s.written) : Kept after := by
  obtain ⟨intact,opened,stored,numbered⟩ := kept
  rw [← fs] at intact stored numbered
  rw [← fs,← logs,← made] at opened
  rw [← written] at stored numbered
  exact ⟨intact,opened,stored,numbered⟩

/-- A rotation onto a clear name keeps every byte, whichever of its calls fail. -/
theorem rotate_kept (kept : Kept s) (id : Nat) (file : Path) (renamed opened : Bool)
    (clear : renamed = true → Clear file s) : Kept (s.rotate id file renamed opened) := by
  have kept : Kept { s with rotations := id :: s.rotations } := kept.same _ rfl rfl rfl rfl
  rw [World.rotate]
  dsimp only
  by_cases unnamed : (s.logs id).file_path_ = []
  · rw [if_pos unnamed]
    exact kept
  rw [if_neg unnamed]
  cases renamed with
  | false => exact kept
  | true =>
    rw [if_pos rfl]
    cases moved : s.fs.rename (s.logs id).file_path_ file with
    | none => exact kept
    | some fs =>
      have whole := rename_kept kept (clear rfl) moved
      cases opened with
      | false => exact whole
      | true => exact reopen_kept whole id (s.logs id).file_path_

theorem visit_kept (kept : Kept s) (check : Check) (id : Nat) (renamed opened : Bool)
    (clear : renamed = true → check.due (s.logs id).rotateType_ = true → s.fileSize id > 0 →
      Clear (World.target (s.logs id).file_path_) s) : Kept (s.visit check id renamed opened) := by
  have rotated : check.due (s.logs id).rotateType_ = true → Kept (s.rotateLog id renamed opened) := by
    intro due
    rw [World.rotateLog]
    split
    · next nonempty => exact rotate_kept kept id _ renamed opened fun moves => clear moves due nonempty
    · exact kept
  unfold World.visit
  cases type : (s.logs id).rotateType_ with
  | kRotateNone => exact kept
  | kRotateMinute | kRotateHour | kRotateDay =>
    rw [type] at rotated
    dsimp only
    split
    · next changed => exact rotated changed
    · exact kept

theorem setRotate_kept (kept : Kept s) (id : Nat) (type : RotateType) :
    Kept (s.updateLog id fun log => { log with rotateType_ := type }) := by
  refine ⟨kept.intact,fun other made file descriptor => kept.opened other made file ?_,kept.stored,kept.numbered⟩
  by_cases itself : other = id
  · subst itself
    simpa [World.updateLog] using descriptor
  · simpa [World.updateLog,itself] using descriptor

theorem onCheck_kept (kept : Kept s) (now : LocalTime) (order : List Nat) : Kept (s.onCheck now order) := by
  simp only [World.onCheck]
  split
  · split
    · exact kept.same _ rfl rfl rfl rfl
    · exact kept.same _ rfl rfl rfl rfl
  · split
    · exact kept.same _ rfl rfl rfl rfl
    · exact kept.same _ rfl rfl rfl rfl

theorem step_kept (kept : Kept s) (move : Move) (next : World) (stepped : step s move = some next)
    (clear : ∀ opened id, move = .visit true opened → s.rotating = some id →
      Clear (World.target (s.logs id).file_path_) s) : Kept next := by
  cases step_cases stepped with
  | found path opened => exact kept
  | opened path opened => exact open_kept kept path
  | removed id => exact kept.same _ rfl rfl rfl rfl
  | kept id type => exact setRotate_kept kept id type
  | written id msg made => exact writeLog_kept kept made msg
  | begun now order => exact onCheck_kept kept now order
  | visited now day hour minute id todo renamed opened checking =>
    have going := kept.same { s with check := some ⟨now,day,hour,minute,todo⟩ } rfl rfl rfl rfl
    apply visit_kept going
    rintro rfl due nonempty
    have rotating : s.rotating = some id := by
      simp only [World.rotating,checking]
      exact if_pos ⟨due,nonempty⟩
    exact clear opened id rfl rotating
  | ended now => exact kept.same _ rfl rfl rfl rfl

/-- A manager that has just been made, in whatever directory it finds; what is stored there
has been written before. -/
structure Fresh (s : World) : Prop where
  intact : s.fs.Intact
  made : s.made = 0
  stored : ∀ byte, byte ∈ s.written ↔ ∃ file, byte ∈ s.fs.content file
  numbered : ∀ byte ∈ s.written, byte.serial < s.written.length

theorem fresh_kept (fresh : Fresh s) : Kept s := by
  constructor
  · exact fresh.intact
  · intro id made
    rw [fresh.made] at made
    cases made
  · exact fun byte => (fresh.stored byte).mp
  · exact fun file byte among => fresh.numbered byte ((fresh.stored byte).mpr ⟨file,among⟩)

def Careful : List Move → World → Prop
  | [],_ => True
  | move :: moves,s =>
    (∀ opened id, move = .visit true opened → s.rotating = some id →
      Clear (World.target (s.logs id).file_path_) s) ∧
    ∀ next, step s move = some next → Careful moves next

theorem exec_kept (moves : List Move) (s final : World) (kept : Kept s)
    (ran : exec moves s = some final) (careful : Careful moves s) : Kept final := by
  induction moves generalizing s with
  | nil =>
    cases ran
    exact kept
  | cons move moves ih =>
    obtain ⟨next,stepped,rest⟩ := Option.bind_eq_some_iff.mp ran
    exact ih next (step_kept kept move next stepped careful.1) rest (careful.2 next stepped)

/-- If each rotation of a run gives the old file a name under which there is no file, or only
an empty one that no log has open, every byte ever written is in exactly one file. -/
theorem rotation_keeps_bytes (s final : World) (fresh : Fresh s) (moves : List Move)
    (ran : exec moves s = some final) (careful : Careful moves s) :
    ∀ byte ∈ final.written, ∃ path, final.fs.Holds byte path ∧
      ∀ other, final.fs.Holds byte other → other = path := by
  have kept := exec_kept moves s final (fresh_kept fresh) ran careful
  intro byte among
  obtain ⟨file,inside⟩ := kept.stored byte among
  obtain ⟨path,named⟩ := kept.intact.kept file byte inside
  have holds : final.fs.Holds byte path := ⟨file,named,inside⟩
  exact ⟨path,holds,fun other also => kept.intact.holds_unique also holds⟩

def empty : World where
  fs := ⟨fun _ => none,fun _ => [],0⟩
  logs := fun _ => ⟨none,[],.kRotateNone⟩
  made := 0
  logs_ := []
  last := ⟨-1,-1,-1,-1,-1⟩
  check := none
  written := []
  rotations := []

theorem empty_fresh : Fresh empty := by
  refine ⟨⟨?_,?_,?_,?_⟩,rfl,fun byte => ⟨?_,?_⟩,?_⟩
  · exact fun _ _ none => by cases none
  · exact fun _ _ _ none => by cases none
  · exact fun _ _ _ none => by cases none
  · exact fun _ _ none => by cases none
  · exact fun none => by cases none
  · rintro ⟨_,none⟩
    cases none
  · exact fun _ none => by cases none

def rotated : List Move :=
  [.getFileLog ['a','/','b','.','l','o','g'] true,.setRotate 0 .kRotateMinute,.writeLog 0 [65],
    .onCheck ⟨2024,9,27,11,1⟩ [0],.onCheck ⟨2024,9,27,11,2⟩ [0],.visit true true,.checked]

theorem rotation_keeps_bytes_once :
    ∃ final, exec rotated empty = some final ∧ final.written = [⟨0,65⟩] ∧
      ∀ byte ∈ final.written, ∃ path, final.fs.Holds byte path ∧
        ∀ other, final.fs.Holds byte other → other = path := by
  refine ⟨_,rfl,rfl,rotation_keeps_bytes empty _ empty_fresh rotated rfl ?_⟩
  have other : ∀ {move moves s next}, (∀ opened, move ≠ .visit true opened) →
      step s move = some next → Careful moves next → Careful (move :: moves) s := by
    intro move moves s next quiet stepped careful
    refine ⟨fun opened _ same => absurd same (quiet opened),fun after took => ?_⟩
    rw [stepped] at took
    cases took
    exact careful
  apply other (fun _ same => by cases same) rfl
  apply other (fun _ same => by cases same) rfl
  apply other (fun _ same => by cases same) rfl
  apply other (fun _ same => by cases same) rfl
  apply other (fun _ same => by cases same) rfl
  constructor
  · rintro opened id ⟨⟩ ⟨⟩ file found
    cases found
  · rintro next ⟨⟩
    exact other (fun _ same => by cases same) rfl trivial

def rotatedTwice : List Move :=
  rotated ++ [.writeLog 0 [66],.onCheck ⟨2024,9,27,11,3⟩ [0],.visit true true,.checked]

/-- The first byte is nowhere: the second rotation took the name of the first. -/
theorem rotation_loses_byte :
    ∃ final, exec rotatedTwice empty = some final ∧ ⟨0,65⟩ ∈ final.written ∧
      ∀ path, ¬final.fs.Holds ⟨0,65⟩ path := by
  refine ⟨_,rfl,?_,?_⟩
  · decide
  · rintro path ⟨file,entry,among⟩
    by_cases target : path = ['a','b','l','o','g']
    · subst target
      cases entry
      revert among
      decide
    by_cases log : path = ['a','/','b','.','l','o','g']
    · subst log
      cases entry
      revert among
      decide
    · -- what the two openings and renamings have put under other names
      have none : Function.update (Function.update (Function.update (Function.update
          (Function.update (Function.update (Function.update (fun _ => none)
            ['a','/','b','.','l','o','g'] (some 0)) ['a','/','b','.','l','o','g'] none)
            ['a','b','l','o','g'] (some 0)) ['a','/','b','.','l','o','g'] (some 1))
            ['a','/','b','.','l','o','g'] none) ['a','b','l','o','g'] (some 1))
            ['a','/','b','.','l','o','g'] (some 2) path = some file := entry
      simp [target,log] at none

end Tmms.Base.Logs
