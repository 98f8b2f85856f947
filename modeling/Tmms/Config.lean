import Tmms.FileMgr

/-! The configuration, read from a file once. jsoncpp is given, by what it makes of a file and
by what its accessors return or throw. -/
namespace Tmms.Base.Configuration

open Logs

inductive LoggerLevel where
  | kTrace
  | kDebug
  | kInfo
  | kWarn
  | kError
  deriving DecidableEq

/-- `get` is `operator[]`; `parseFromStream` yields no value where it returns false. -/
structure Json (File Value Error : Type) where
  parseFromStream : File → Except Error (Option Value)
  isNull : Value → Bool
  get : Value → String → Except Error Value
  asString : Value → Except Error String
  asInt : Value → Except Error Int

structure LogInfo where
  level : LoggerLevel
  path : String
  name : String
  rotate_type : RotateType
  deriving DecidableEq

/-- `std::make_shared<LogInfo>()` sets what has no initializer to zero. -/
def LogInfo.made : LogInfo := ⟨.kTrace,"","",.kRotateNone⟩

structure Config where
  log_info_ : Option LogInfo
  name_ : String
  cpu_start_ : Int
  thread_num_ : Int
  deriving DecidableEq

def Config.made : Config := ⟨none,"",0,1⟩

def levelOf (level : String) : Option LoggerLevel :=
  if level = "TRACE" then some .kTrace
  else if level = "DEBUG" then some .kDebug
  else if level = "ERROR" then some .kError
  else if level = "INFO" then some .kInfo
  else if level = "WARN" then some .kWarn
  else none

def rotateOf (rt : String) : Option RotateType :=
  if rt = "Day" then some .kRotateDay
  else if rt = "HOUR" then some .kRotateHour
  else none

section Load
variable {File Value Error α : Type} (json : Json File Value Error)

def read (as : Value → Except Error α) (root : Value) (key : String) : Except Error (Option α) := do
  let obj ← json.get root key
  if json.isNull obj then pure none
  else return some (← as obj)

def parseLogInfo (root : Value) (config : Config) : Except Error (Bool × Config) := do
  let level ← read json json.asString root "level"
  let path ← read json json.asString root "path"
  let name ← read json json.asString root "name"
  let rt ← read json json.asString root "rotate"
  let info : LogInfo := {
    level := (level.bind levelOf).getD LogInfo.made.level
    path := path.getD LogInfo.made.path
    name := name.getD LogInfo.made.name
    rotate_type := (rt.bind rotateOf).getD LogInfo.made.rotate_type }
  return (level.isSome && path.isSome && name.isSome,{ config with log_info_ := some info })

/-- `Config::LoadConfig`. What `ParseLogInfo` returns is not looked at. -/
def loadConfig (file : File) (config : Config) : Except Error (Bool × Config) := do
  match ← json.parseFromStream file with
  | none => return (false,config)
  | some root => do
    let name ← read json json.asString root "name"
    let cups ← read json json.asInt root "cup_start"
    let threads ← read json json.asInt root "threads"
    let config := { config with
      name_ := name.getD config.name_
      cpu_start_ := cups.getD config.cpu_start_
      thread_num_ := threads.getD config.thread_num_ }
    let logObj ← json.get root "log"
    if json.isNull logObj then return (true,config)
    else do
      let parsed ← parseLogInfo json logObj config
      return (true,parsed.2)

end Load

structure ConfigMgr where
  config_ : Option Config

/-- `ConfigMgr::LoadConfig`. An exception leaves it before `config_` is set. -/
def ConfigMgr.loadConfig {File Value Error : Type} (json : Json File Value Error) (file : File)
    (mgr : ConfigMgr) : Except Error Bool × ConfigMgr :=
  match Configuration.loadConfig json file .made with
  | .ok (true,config) => (.ok true,{ mgr with config_ := some config })
  | .ok (false,_) => (.ok false,mgr)
  | .error error => (.error error,mgr)

theorem bind_ok {ε α β : Type} {x : Except ε α} {f : α → Except ε β} {b : β} :
    x >>= f = .ok b ↔ ∃ a, x = .ok a ∧ f a = .ok b := by
  cases x with
  | error e => simp [bind,Except.bind]
  | ok a => simp [bind,Except.bind]

theorem ok_bind {ε α β : Type} (a : α) (f : α → Except ε β) : (Except.ok a : Except ε α) >>= f = f a := rfl

section Documents
variable {File Value Error : Type} (json : Json File Value Error)

/-- The log section has these keys, none of them null, and its level has a name that is known. -/
structure Section (log : Value) (info : LogInfo) : Prop where
  level : ∃ level, read json json.asString log "level" = .ok (some level) ∧ levelOf level = some info.level
  path : read json json.asString log "path" = .ok (some info.path)
  name : read json json.asString log "name" = .ok (some info.name)

def Taken (root : Value) (info : LogInfo) : Prop :=
  ∃ log, json.get root "log" = .ok log ∧ json.isNull log = false ∧ Section json log info

structure LogReadable (log : Value) : Prop where
  level : ∃ level, read json json.asString log "level" = .ok level
  path : ∃ path, read json json.asString log "path" = .ok path
  name : ∃ name, read json json.asString log "name" = .ok name
  rotate : ∃ rt, read json json.asString log "rotate" = .ok rt

/-- The file has this document in it, and everything that is read from it converts. -/
structure Readable (file : File) (root : Value) : Prop where
  parsed : json.parseFromStream file = .ok (some root)
  name : ∃ name, read json json.asString root "name" = .ok name
  cup_start : ∃ cups, read json json.asInt root "cup_start" = .ok cups
  threads : ∃ threads, read json json.asInt root "threads" = .ok threads
  log : ∃ log, json.get root "log" = .ok log ∧ (json.isNull log = false → LogReadable json log)

variable {json} {file : File} {root log : Value} {before config : Config}

/-- `ParseLogInfo` always leaves a `LogInfo` behind; it is the section's if there is one. -/
theorem parseLogInfo_ok {parsed : Bool × Config} (ok : parseLogInfo json log before = .ok parsed) :
    LogReadable json log ∧ ∃ info, parsed.2.log_info_ = some info ∧
      ∀ wanted, Section json log wanted → Section json log info := by
  simp only [parseLogInfo,bind_ok] at ok
  obtain ⟨level,atLevel,path,atPath,name,atName,rt,atRotate,same⟩ := ok
  cases same
  refine ⟨⟨⟨_,atLevel⟩,⟨_,atPath⟩,⟨_,atName⟩,⟨_,atRotate⟩⟩,_,rfl,?_⟩
  intro wanted whole
  obtain ⟨text,found,known⟩ := whole.level
  cases atLevel.symm.trans found
  cases atPath.symm.trans whole.path
  cases atName.symm.trans whole.name
  exact ⟨⟨text,found,by simp [known]⟩,whole.path,whole.name⟩

theorem parseLogInfo_of_readable (readable : LogReadable json log) (before : Config) :
    ∃ parsed, parseLogInfo json log before = .ok parsed := by
  obtain ⟨⟨level,atLevel⟩,⟨path,atPath⟩,⟨name,atName⟩,rt,atRotate⟩ := readable
  simp only [parseLogInfo,atLevel,atPath,atName,atRotate]
  exact ⟨_,rfl⟩

/-- `LoadConfig` returns true where everything it reads converts; the log section is there if
it has any. -/
theorem loadConfig_true (ok : loadConfig json file .made = .ok (true,config)) :
    ∃ root, Readable json file root ∧
      ∀ wanted, Taken json root wanted → ∃ info, config.log_info_ = some info ∧ Taken json root info := by
  simp only [loadConfig,bind_ok] at ok
  obtain ⟨document,parsed,ok⟩ := ok
  cases document with
  | none => cases ok
  | some root =>
    simp only [bind_ok] at ok
    obtain ⟨name,atName,cups,atCups,threads,atThreads,log,atLog,ok⟩ := ok
    refine ⟨root,⟨parsed,⟨_,atName⟩,⟨_,atCups⟩,⟨_,atThreads⟩,log,atLog,?_⟩,?_⟩
    · intro present
      rw [present] at ok
      simp only [Bool.false_eq_true,if_false,bind_ok] at ok
      obtain ⟨parsed,ok,_⟩ := ok
      exact (parseLogInfo_ok ok).1
    · rintro wanted ⟨found,here,present,whole⟩
      cases atLog.symm.trans here
      rw [present] at ok
      simp only [Bool.false_eq_true,if_false,bind_ok] at ok
      obtain ⟨parsed,ok,same⟩ := ok
      cases same
      obtain ⟨_,info,left,taken⟩ := parseLogInfo_ok ok
      exact ⟨info,left,log,atLog,present,taken wanted whole⟩

theorem loadConfig_of_readable (readable : Readable json file root) :
    ∃ config, loadConfig json file .made = .ok (true,config) := by
  obtain ⟨parsed,⟨name,atName⟩,⟨cups,atCups⟩,⟨threads,atThreads⟩,log,atLog,inside⟩ := readable
  simp only [loadConfig,parsed,ok_bind,atName,atCups,atThreads,atLog]
  cases present : json.isNull log with
  | true => exact ⟨_,rfl⟩
  | false =>
    obtain ⟨result,ok⟩ := parseLogInfo_of_readable (inside present)
      ⟨Config.made.log_info_,name.getD Config.made.name_,cups.getD Config.made.cpu_start_,
        threads.getD Config.made.thread_num_⟩
    exact ⟨result.2,bind_ok.mpr ⟨result,ok,rfl⟩⟩

/-- `LoadConfig` returns true with a complete configuration, or false or throws with nothing changed. -/
def Meets (json : Json File Value Error) (file : File) (mgr : ConfigMgr) : Prop :=
  match mgr.loadConfig json file with
  | (.ok true,after) => ∃ root config info, json.parseFromStream file = .ok (some root) ∧
      after.config_ = some config ∧ config.log_info_ = some info ∧ Taken json root info
  | (_,after) => after = mgr

/-- Loading is all or nothing if and only if a document that can be read to its end has a log
section with level, path and name, and the level is one that is known. -/
theorem loadConfig_complete_iff (json : Json File Value Error) (file : File) (mgr : ConfigMgr) :
    Meets json file mgr ↔ ∀ root, Readable json file root → ∃ info, Taken json root info := by
  cases loaded : loadConfig json file .made with
  | error error =>
    have same : mgr.loadConfig json file = (.error error,mgr) := by rw [ConfigMgr.loadConfig,loaded]
    rw [Meets,same]
    refine iff_of_true rfl fun root readable => ?_
    obtain ⟨config,ok⟩ := loadConfig_of_readable readable
    rw [loaded] at ok
    cases ok
  | ok result =>
    obtain ⟨done,config⟩ := result
    cases done with
    | false =>
      have same : mgr.loadConfig json file = (.ok false,mgr) := by rw [ConfigMgr.loadConfig,loaded]
      rw [Meets,same]
      refine iff_of_true rfl fun root readable => ?_
      obtain ⟨config,ok⟩ := loadConfig_of_readable readable
      rw [loaded] at ok
      cases ok
    | true =>
      have same : mgr.loadConfig json file = (.ok true,⟨some config⟩) := by rw [ConfigMgr.loadConfig,loaded]
      obtain ⟨document,readable,kept⟩ := loadConfig_true loaded
      rw [Meets,same]
      constructor
      · rintro ⟨root,_,info,parsed,_,_,taken⟩ other readable
        cases parsed.symm.trans readable.parsed
        exact ⟨info,taken⟩
      · intro complete
        obtain ⟨wanted,taken⟩ := complete document readable
        obtain ⟨info,left,taken⟩ := kept wanted taken
        exact ⟨document,config,info,readable.parsed,rfl,left,taken⟩

end Documents

/-- A document as far as the configuration needs it, and what the accessors do with it. The
`Json::LogicError` that some of them throw is without its text. -/
inductive Document where
  | null
  | string (text : String)
  | object (members : List (String × Document))

def Document.get (key : String) : Document → Except Unit Document
  | .null => .ok .null
  | .string _ => .error ()
  | .object members => .ok ((members.lookup key).getD .null)

def Document.asString : Document → Except Unit String
  | .null => .ok ""
  | .string text => .ok text
  | .object _ => .error ()

def Document.asInt : Document → Except Unit Int
  | .null => .ok 0
  | _ => .error ()

def documents : Json Document Document Unit where
  parseFromStream := fun file => .ok (some file)
  isNull := fun
    | .null => true
    | _ => false
  get := fun root key => root.get key
  asString := Document.asString
  asInt := Document.asInt

/-- A document with nothing but a name is loaded, without the `LogInfo` that `main` dereferences. -/
theorem loadConfig_incomplete :
    ((ConfigMgr.mk none).loadConfig documents (.object [("name",.string "tmms")])).1 = .ok true ∧
      ((ConfigMgr.mk none).loadConfig documents (.object [("name",.string "tmms")])).2.config_ =
        some ⟨none,"tmms",0,1⟩ ∧
      ¬Meets documents (.object [("name",.string "tmms")]) ⟨none⟩ := by
  refine ⟨rfl,rfl,?_⟩
  rintro ⟨_,config,info,_,installed,left,_⟩
  cases installed
  cases left

end Tmms.Base.Configuration
