import Tmms.FileSystem
import Tmms.StringUtils

/-! Log files and their manager. A log appends to the file it has open; the manager, asked
now and then for the local time, moves the file of a log away and opens a new one under its
name. `OnCheck` holds the manager's lock from one log to the next, but writers take none. -/
namespace Tmms.Base.Logs

open StringUtils

structure Byte where
  serial : Nat
  value : UInt8
  deriving DecidableEq

abbrev Path := List Char
abbrev Files := FileSystem Path Byte

inductive RotateType where
  | kRotateNone
  | kRotateMinute
  | kRotateHour
  | kRotateDay
  deriving DecidableEq

/-- `fd_` is the file that the descriptor refers to. -/
structure FileLog where
  fd_ : Option Nat
  file_path_ : Path
  rotateType_ : RotateType

/-- What `TTime::Now` finds. -/
structure LocalTime where
  year : Int
  month : Int
  day : Int
  hour : Int
  minute : Int
  deriving DecidableEq

/-- An `OnCheck` under way: what has changed since the last one, and the logs to come. -/
structure Check where
  now : LocalTime
  day_change : Bool
  hour_change : Bool
  minute_change : Bool
  todo : List Nat

def Check.due (check : Check) : RotateType → Bool
  | .kRotateNone => false
  | .kRotateMinute => check.minute_change
  | .kRotateHour => check.hour_change
  | .kRotateDay => check.day_change

/-- The logs that have been made, and how many; `logs_` and the `last_*` fields of the manager; and
its check under way, whose thread holds `lock_`. The rest is what has happened: everything written to a
log with a file, oldest first, and the logs that `Rotate` was called for, latest first. -/
structure World where
  fs : Files
  logs : Nat → FileLog
  made : Nat
  logs_ : List (Path × Nat)
  last : LocalTime
  check : Option Check
  written : List Byte
  rotations : List Nat

inductive Move where
  | getFileLog (path : Path) (opened : Bool)
  | removeFileLog (log : Nat)
  | setRotate (log : Nat) (type : RotateType)
  | writeLog (log : Nat) (msg : List UInt8)
  -- the map is gone through in this order
  | onCheck (now : LocalTime) (order : List Nat)
  -- whether `rename` and `open` succeed
  | visit (renamed opened : Bool)
  | checked
  deriving DecidableEq

namespace World

def updateLog (id : Nat) (f : FileLog → FileLog) (s : World) : World :=
  { s with logs := Function.update s.logs id (f (s.logs id)) }

/-- `FileLog::Open` of a log that has just been made. -/
def open_ (path : Path) (s : World) : World :=
  let opened := s.fs.openAppend path
  { s with
    fs := opened.2,
    logs := Function.update s.logs s.made ⟨some opened.1,path,.kRotateNone⟩,
    logs_ := (path,s.made) :: s.logs_,
    made := s.made + 1 }

/-- Without a file a log writes to the standard output. -/
def writeLog (id : Nat) (msg : List UInt8) (s : World) : World :=
  match (s.logs id).fd_ with
  | none => s
  | some file =>
    let bytes := msg.mapIdx fun k value => ⟨s.written.length + k,value⟩
    { s with fs := s.fs.append file bytes, written := s.written ++ bytes }

/-- `FileLog::Rotate`. The log writes to its old file until the new one is open. -/
def rotate (id : Nat) (file : Path) (renamed opened : Bool) (s : World) : World :=
  let log := s.logs id
  let s := { s with rotations := id :: s.rotations }
  if log.file_path_ = [] then s
  else
    match if renamed then s.fs.rename log.file_path_ file else none with
    | none => s
    | some fs =>
      if opened then
        let reopened := fs.openAppend log.file_path_
        { s with fs := reopened.2 }.updateLog id fun log => { log with fd_ := some reopened.1 }
      else { s with fs := fs }

def fileSize (id : Nat) (s : World) : Nat :=
  match (s.logs id).fd_ with
  | none => 0
  | some file => (s.fs.content file).length

/-- The name a rotation gives to the old file. Each of the three rotations also prints its
time stamp into `buf`, but the name is put together without it. -/
def target (file_path : Path) : Path :=
  filePath file_path ++ fileName file_path ++ extension file_path

/-- What `RotateMinute`, `RotateHours` and `RotateDays` have in common. -/
def rotateLog (id : Nat) (renamed opened : Bool) (s : World) : World :=
  if s.fileSize id > 0 then s.rotate id (target (s.logs id).file_path_) renamed opened else s

def rotateMinute : Nat → Bool → Bool → World → World := rotateLog
def rotateHours : Nat → Bool → Bool → World → World := rotateLog
def rotateDays : Nat → Bool → Bool → World → World := rotateLog

def visit (check : Check) (id : Nat) (renamed opened : Bool) (s : World) : World :=
  match (s.logs id).rotateType_ with
  | .kRotateNone => s
  | .kRotateMinute => if check.minute_change then s.rotateMinute id renamed opened else s
  | .kRotateHour => if check.hour_change then s.rotateHours id renamed opened else s
  | .kRotateDay => if check.day_change then s.rotateDays id renamed opened else s

/-- The log that the check under way rotates next, if it comes to one. -/
def rotating (s : World) : Option Nat :=
  match s.check with
  | none => none
  | some check =>
    match check.todo with
    | [] => none
    | id :: _ => if check.due (s.logs id).rotateType_ ∧ s.fileSize id > 0 then some id else none

def onCheck (now : LocalTime) (order : List Nat) (s : World) : World :=
  let s := if s.last.day = -1 then { s with last := now } else s
  let check : Check := {
    now := now
    day_change := s.last.day ≠ now.day
    hour_change := s.last.hour ≠ now.hour
    minute_change := s.last.minute ≠ now.minute
    todo := order }
  if check.hour_change || check.day_change || check.minute_change then { s with check := some check }
  else s

end World

def step (s : World) : Move → Option World
  | .getFileLog path opened =>
    match s.check with
    | some _ => none
    | none => if s.logs_.any (·.1 = path) || !opened then some s else some (s.open_ path)
  | .removeFileLog id =>
    match s.check with
    | some _ => none
    | none => if id < s.made then
        some { s with logs_ := s.logs_.filter (·.1 ≠ (s.logs id).file_path_) }
      else none
  | .setRotate id type => if id < s.made then
      some (s.updateLog id fun log => { log with rotateType_ := type })
    else none
  | .writeLog id msg => if id < s.made then some (s.writeLog id msg) else none
  | .onCheck now order =>
    match s.check with
    | some _ => none
    | none => if order.isPerm (s.logs_.map Prod.snd) then some (s.onCheck now order) else none
  | .visit renamed opened =>
    match s.check with
    | some ⟨now,day,hour,minute,id :: todo⟩ =>
      some ({ s with check := some ⟨now,day,hour,minute,todo⟩ }.visit
        ⟨now,day,hour,minute,todo⟩ id renamed opened)
    | _ => none
  | .checked =>
    match s.check with
    | some ⟨now,_,_,_,[]⟩ => some { s with check := none, last := now }
    | _ => none

/-- The moves that a state allows, each with what it requires and the state it leads to. -/
inductive Stepped (s : World) : Move → World → Prop
  | found (path : Path) (opened : Bool) (idle : s.check = none)
      (nothing : (s.logs_.any (·.1 = path) || !opened) = true) : Stepped s (.getFileLog path opened) s
  | opened (path : Path) (opened : Bool) (idle : s.check = none)
      (new : ¬(s.logs_.any (·.1 = path) || !opened) = true) : Stepped s (.getFileLog path opened) (s.open_ path)
  | removed (id : Nat) (idle : s.check = none) (made : id < s.made) :
    Stepped s (.removeFileLog id) { s with logs_ := s.logs_.filter (·.1 ≠ (s.logs id).file_path_) }
  | kept (id : Nat) (type : RotateType) (made : id < s.made) :
    Stepped s (.setRotate id type) (s.updateLog id fun log => { log with rotateType_ := type })
  | written (id : Nat) (msg : List UInt8) (made : id < s.made) : Stepped s (.writeLog id msg) (s.writeLog id msg)
  | begun (now : LocalTime) (order : List Nat) (idle : s.check = none) (among : order.Perm (s.logs_.map Prod.snd)) :
    Stepped s (.onCheck now order) (s.onCheck now order)
  | visited (now : LocalTime) (day hour minute : Bool) (id : Nat) (todo : List Nat) (renamed opened : Bool)
      (checking : s.check = some ⟨now,day,hour,minute,id :: todo⟩) :
    Stepped s (.visit renamed opened) ({ s with check := some ⟨now,day,hour,minute,todo⟩ }.visit
      ⟨now,day,hour,minute,todo⟩ id renamed opened)
  | ended (now : LocalTime) (day hour minute : Bool) (checking : s.check = some ⟨now,day,hour,minute,[]⟩) :
    Stepped s .checked { s with check := none, last := now }

theorem step_cases {s next : World} {move : Move} (stepped : step s move = some next) : Stepped s move next := by
  cases move with
  | getFileLog path opened =>
    simp only [step] at stepped
    split at stepped
    · cases stepped
    · next idle =>
      split at stepped
      · next nothing => cases stepped; exact .found path opened idle nothing
      · next new => cases stepped; exact .opened path opened idle new
  | removeFileLog id =>
    simp only [step] at stepped
    split at stepped
    · cases stepped
    · next idle =>
      split at stepped
      · next made => cases stepped; exact .removed id idle made
      · cases stepped
  | setRotate id type =>
    simp only [step] at stepped
    split at stepped
    · next made => cases stepped; exact .kept id type made
    · cases stepped
  | writeLog id msg =>
    simp only [step] at stepped
    split at stepped
    · next made => cases stepped; exact .written id msg made
    · cases stepped
  | onCheck now order =>
    simp only [step] at stepped
    split at stepped
    · cases stepped
    · next idle =>
      split at stepped
      · next among => cases stepped; exact .begun now order idle (List.isPerm_iff.mp among)
      · cases stepped
  | visit renamed opened =>
    simp only [step] at stepped
    split at stepped
    · next now day hour minute id todo checking =>
      cases stepped
      exact .visited now day hour minute id todo renamed opened checking
    · cases stepped
  | checked =>
    simp only [step] at stepped
    split at stepped
    · next now day hour minute checking => cases stepped; exact .ended now day hour minute checking
    · cases stepped

def exec : List Move → World → Option World
  | [],s => some s
  | move :: moves,s => (step s move).bind (exec moves)

end Tmms.Base.Logs
