import Tmms.FileMgr

/-! What the logs and their manager leave alone. Only writing changes what is in a file, and it
changes the file that the log has open then. -/
namespace Tmms.Base.Logs

open FileSystem

/-- Files that are under a name or open have been made, and there is nothing in the others. -/
structure Sound (s : World) : Prop where
  known : ∀ path file, s.fs.entry path = some file → file < s.fs.files
  blank : ∀ file, s.fs.files ≤ file → s.fs.content file = []
  opened : ∀ id < s.made, ∀ file, (s.logs id).fd_ = some file → file < s.fs.files

structure Unwritten (s after : World) : Prop where
  content : after.fs.content = s.fs.content
  made : s.made ≤ after.made

variable {s : World}

/-- Opening a name may make a file, which is empty. -/
theorem Sound.openAppend (sound : Sound s) (path : Path) :
    let opened := s.fs.openAppend path
    opened.2.content = s.fs.content ∧ opened.1 < opened.2.files ∧ s.fs.files ≤ opened.2.files ∧
      ∀ name file, opened.2.entry name = some file → file < opened.2.files := by
  simp only [FileSystem.openAppend]
  split
  · next file found => exact ⟨rfl,sound.known path file found,Nat.le_refl _,sound.known⟩
  · refine ⟨?_,Nat.lt_succ_self _,Nat.le_succ _,?_⟩
    · funext i
      by_cases new : i = s.fs.files
      · subst new
        simp [sound.blank]
      · simp [new]
    · intro name file entry
      by_cases same : name = path
      · subst same
        simp only [Function.update_self,Option.some.injEq] at entry
        exact entry ▸ Nat.lt_succ_self _
      · simp only [Function.update_of_ne same] at entry
        exact Nat.lt_succ_of_lt (sound.known name file entry)

/-- A file more does no harm, nor does a log with it. -/
theorem Sound.reopen (sound : Sound s) (path : Path) (id made : Nat) (log : FileLog)
    (descriptor : log.fd_ = some (s.fs.openAppend path).1) (kept : ∀ other < made, other ≠ id → other < s.made)
    (after : World) (fs : after.fs = (s.fs.openAppend path).2) (logs : after.logs = Function.update s.logs id log)
    (count : after.made = made) : Sound after := by
  obtain ⟨content,inside,more,known⟩ := sound.openAppend path
  constructor
  · rw [fs]
    exact known
  · rw [fs,content]
    exact fun file above => sound.blank file (Nat.le_trans more above)
  · intro other below file open_
    rw [fs]
    rw [logs] at open_
    by_cases same : other = id
    · subst same
      rw [Function.update_self,descriptor,Option.some.injEq] at open_
      exact open_ ▸ inside
    · rw [Function.update_of_ne same] at open_
      exact Nat.lt_of_lt_of_le (sound.opened other (kept other (count ▸ below) same) file open_) more

/-- A renaming loses names, but no content. -/
theorem Sound.rename (sound : Sound s) {old new : Path} {fs : Files} (renamed : s.fs.rename old new = some fs) :
    Sound { s with fs := fs } ∧ fs.content = s.fs.content := by
  obtain ⟨content,files⟩ := rename_same renamed
  refine ⟨⟨?_,?_,?_⟩,content⟩
  · intro path file entry
    rw [files]
    by_cases differ : s.fs.entry new = s.fs.entry old
    · rw [rename_alias renamed differ] at entry
      exact sound.known path file entry
    · rw [rename_entry renamed differ] at entry
      split at entry
      · exact sound.known old file entry
      · split at entry
        · cases entry
        · exact sound.known path file entry
  · rw [files,content]
    exact sound.blank
  · rw [files]
    exact sound.opened

theorem Sound.rotate (sound : Sound s) (id : Nat) (file : Path) (renamed opened : Bool) :
    Sound (s.rotate id file renamed opened) ∧ Unwritten s (s.rotate id file renamed opened) := by
  have noted : Sound { s with rotations := id :: s.rotations } := ⟨sound.known,sound.blank,sound.opened⟩
  simp only [World.rotate]
  split
  · exact ⟨noted,rfl,Nat.le_refl _⟩
  · split
    · exact ⟨noted,rfl,Nat.le_refl _⟩
    · next fs moved =>
      cases renamed with
      | false => cases moved
      | true =>
        obtain ⟨going,content⟩ := noted.rename moved
        cases opened with
        | false => exact ⟨going,content,Nat.le_refl _⟩
        | true =>
          have again := going.openAppend (s.logs id).file_path_
          refine ⟨?_,again.1.trans content,Nat.le_refl _⟩
          exact going.reopen _ id s.made _ rfl (fun _ below _ => below) _ rfl rfl rfl

theorem Sound.visit (sound : Sound s) (check : Check) (id : Nat) (renamed opened : Bool) :
    Sound (s.visit check id renamed opened) ∧ Unwritten s (s.visit check id renamed opened) := by
  have still : Sound s ∧ Unwritten s s := ⟨sound,rfl,Nat.le_refl _⟩
  have rotates : Sound (s.rotateLog id renamed opened) ∧ Unwritten s (s.rotateLog id renamed opened) := by
    unfold World.rotateLog
    split
    · exact sound.rotate id _ renamed opened
    · exact still
  simp only [World.visit,World.rotateMinute,World.rotateHours,World.rotateDays]
  split
  · exact still
  all_goals
    split
    · exact rotates
    · exact still

theorem Sound.same (sound : Sound s) (after : World) (fs : after.fs = s.fs) (made : after.made = s.made)
    (logs : ∀ id, (after.logs id).fd_ = (s.logs id).fd_) : Sound after ∧ Unwritten s after := by
  refine ⟨⟨?_,?_,?_⟩,by rw [fs],Nat.le_of_eq made.symm⟩
  · rw [fs]
    exact sound.known
  · rw [fs]
    exact sound.blank
  · rw [fs,made]
    exact fun id below file open_ => sound.opened id below file (logs id ▸ open_)

theorem Sound.onCheck (sound : Sound s) (now : LocalTime) (order : List Nat) :
    Sound (s.onCheck now order) ∧ Unwritten s (s.onCheck now order) := by
  simp only [World.onCheck]
  split
  · split
    · exact sound.same _ rfl rfl fun _ => rfl
    · exact sound.same _ rfl rfl fun _ => rfl
  · split
    · exact sound.same _ rfl rfl fun _ => rfl
    · exact sound.same _ rfl rfl fun _ => rfl

/-- Everything but writing leaves every file's content as it is. -/
theorem Sound.step (sound : Sound s) {move : Move} {next : World} (stepped : Logs.step s move = some next)
    (other : ∀ id msg, move ≠ .writeLog id msg) : Sound next ∧ Unwritten s next := by
  cases step_cases stepped with
  | found path opened => exact ⟨sound,rfl,Nat.le_refl _⟩
  | opened path opened =>
    refine ⟨?_,(sound.openAppend path).1,Nat.le_succ _⟩
    exact sound.reopen path s.made (s.made + 1) _ rfl (fun _ below new => by omega) _ rfl rfl rfl
  | removed id => exact sound.same _ rfl rfl fun _ => rfl
  | kept id type =>
    refine sound.same _ rfl rfl fun i => ?_
    by_cases itself : i = id
    · subst itself
      simp [World.updateLog]
    · simp [World.updateLog,itself]
  | written id msg => exact absurd rfl (other id msg)
  | begun now order => exact sound.onCheck now order
  | visited now day hour minute id todo renamed opened checking =>
    have going := sound.same { s with check := some ⟨now,day,hour,minute,todo⟩ } rfl rfl fun _ => rfl
    obtain ⟨after,unwritten⟩ := going.1.visit ⟨now,day,hour,minute,todo⟩ id renamed opened
    exact ⟨after,unwritten.content,unwritten.made⟩
  | ended now => exact sound.same _ rfl rfl fun _ => rfl

def World.text (s : World) (file : Nat) : List UInt8 := (s.fs.content file).map Byte.value

theorem numbered_values (msg : List UInt8) (count : Nat) :
    (msg.mapIdx fun k value => (⟨count + k,value⟩ : Byte)).map Byte.value = msg :=
  List.ext_getElem (by simp) fun i _ _ => by simp

/-- A message goes whole to the file that the log has open. -/
theorem Sound.writeLog (sound : Sound s) {id : Nat} (made : id < s.made) (msg : List UInt8) :
    Sound (s.writeLog id msg) ∧ (s.writeLog id msg).made = s.made ∧
      ∀ file, (s.writeLog id msg).text file =
        s.text file ++ if (s.logs id).fd_ = some file then msg else [] := by
  unfold World.writeLog
  split
  · next none => exact ⟨sound,rfl,fun file => by simp [none]⟩
  · next open_ descriptor =>
    have inside := sound.opened id made open_ descriptor
    refine ⟨⟨sound.known,fun file above => ?_,sound.opened⟩,rfl,fun file => ?_⟩
    · have other : file ≠ open_ := by
        rintro rfl
        exact absurd inside (Nat.not_lt.mpr above)
      simp only [FileSystem.append,Function.update_of_ne other]
      exact sound.blank file above
    · by_cases target : file = open_
      · subst target
        simp [World.text,FileSystem.append,descriptor,numbered_values]
      · have other : ¬open_ = file := fun same => target same.symm
        simp [World.text,FileSystem.append,descriptor,target,other]

end Tmms.Base.Logs
