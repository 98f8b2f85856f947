import Tmms.LogNames

/-! The program: it reads its configuration, opens the log that is named there, and then writes a
line and lets the manager of its tasks work, over and over. -/
namespace Tmms.Base.Program

open Logging
open Tmms.Base.Configuration (Json LoggerLevel LogInfo Config ConfigMgr Readable bind_ok)

/-- What `main` comes to before its loop: it returns -1, ends with an exception, uses a `LogInfo`
that is not there, or goes on. -/
inductive Start (Error : Type) where
  | returns
  | throws (error : Error)
  | crashes
  | loops (info : LogInfo)

/-- `main` up to its loop; whether its log can be opened. -/
def start {File Value Error : Type} (json : Json File Value Error) (file : File) (opened : Bool) : Start Error :=
  match (ConfigMgr.mk none).loadConfig json file with
  | (.error error,_) => .throws error
  | (.ok false,_) => .returns
  | (.ok true,mgr) =>
    match mgr.config_.bind Config.log_info_ with
    | none => .crashes
    | some info => if opened then .loops info else .returns

section Start
variable {File Value Error : Type} {json : Json File Value Error} {file : File}

/-- There is no `LogInfo` after a load if and only if there is no log section. -/
theorem log_info_none_iff {config : Config}
    (loaded : Configuration.loadConfig json file .made = .ok (true,config)) :
    config.log_info_ = none ↔ ∃ root log, json.parseFromStream file = .ok (some root) ∧
      json.get root "log" = .ok log ∧ json.isNull log = true := by
  simp only [Configuration.loadConfig,bind_ok] at loaded
  obtain ⟨document,parsed,loaded⟩ := loaded
  cases document with
  | none => cases loaded
  | some root =>
    simp only [bind_ok] at loaded
    obtain ⟨name,_,cups,_,threads,_,log,found,loaded⟩ := loaded
    cases present : json.isNull log with
    | true =>
      rw [present] at loaded
      cases loaded
      exact iff_of_true rfl ⟨root,log,parsed,found,present⟩
    | false =>
      rw [present] at loaded
      simp only [Bool.false_eq_true,if_false,bind_ok] at loaded
      obtain ⟨result,ok,same⟩ := loaded
      cases same
      obtain ⟨_,info,left,_⟩ := Configuration.parseLogInfo_ok ok
      refine iff_of_false (by rw [left]; simp) ?_
      rintro ⟨other,section_,again,there,null⟩
      cases parsed.symm.trans again
      cases found.symm.trans there
      rw [present] at null
      cases null

/-- `main` crashes exactly on a document that can be read to its end and has no log section. -/
theorem start_crashes_iff (opened : Bool) : start json file opened = .crashes ↔
    ∃ root log, Readable json file root ∧ json.get root "log" = .ok log ∧ json.isNull log = true := by
  cases loaded : Configuration.loadConfig json file .made with
  | error error =>
    have same : start json file opened = .throws error := by
      rw [start,ConfigMgr.loadConfig,loaded]
    rw [same]
    refine iff_of_false (by simp) ?_
    rintro ⟨root,_,readable,_⟩
    obtain ⟨config,ok⟩ := Configuration.loadConfig_of_readable readable
    rw [loaded] at ok
    cases ok
  | ok result =>
    obtain ⟨done,config⟩ := result
    cases done with
    | false =>
      have same : start json file opened = .returns := by rw [start,ConfigMgr.loadConfig,loaded]
      rw [same]
      refine iff_of_false (by simp) ?_
      rintro ⟨root,_,readable,_⟩
      obtain ⟨config,ok⟩ := Configuration.loadConfig_of_readable readable
      rw [loaded] at ok
      cases ok
    | true =>
      obtain ⟨root,readable,_⟩ := Configuration.loadConfig_true loaded
      have absent := log_info_none_iff loaded
      have known : start json file opened = .crashes ↔ config.log_info_ = none := by
        rw [start,ConfigMgr.loadConfig,loaded]
        cases left : config.log_info_ with
        | none => simp [left]
        | some info => cases opened <;> simp [left]
      rw [known,absent]
      constructor
      · rintro ⟨other,log,parsed,found,null⟩
        cases parsed.symm.trans readable.parsed
        exact ⟨root,log,readable,found,null⟩
      · rintro ⟨other,log,read,found,null⟩
        exact ⟨other,log,read.parsed,found,null⟩

end Start

def path (info : LogInfo) : Logs.Path := (info.path ++ info.name).toList

def utf8 (text : String) : List UInt8 := text.toUTF8.toList

/-- A part of the program: the moves it makes from the state it begins in. -/
abbrev Part := World → List Move

namespace Part

def run (part : Part) (s : World) : Option World := exec (part s) s

def always (moves : List Move) : Part := fun _ => moves

def seq : List Part → Part
  | [],_ => []
  | part :: parts,s => part s ++ ((part.run s).map (seq parts)).getD []

theorem run_seq (part : Part) (parts : List Part) (s : World) :
    (seq (part :: parts)).run s = (part.run s).bind (seq parts).run := by
  rw [run,seq,exec_append,← run]
  cases ended : part.run s with
  | none => rfl
  | some next => rfl

theorem run_nil (s : World) : (seq []).run s = some s := rfl

end Part

/-- A log statement: the macro decides whether there is a stream to print into. -/
def statement (thread : Nat) (site : Site) (parts : List (List UInt8)) : Part := fun s =>
  .start thread site :: if s.admits site.level then parts.map (.put thread) ++ [.finish thread] else []

section Statement
variable {thread : Nat} {site : Site} {parts : List (List UInt8)} {s : World}

theorem exec_puts {x : LogStream} {rest : List LogStream} (top : s.streams thread = x :: rest) :
    exec (parts.map (.put thread)) s = some { s with
      streams := Function.update s.streams thread (⟨x.stream_ ++ parts.flatten,x.logger_,
        { x.statement with parts := x.statement.parts ++ parts }⟩ :: rest) } := by
  induction parts generalizing s x with
  | nil =>
    simp only [List.flatten_nil,List.append_nil]
    rw [← top,Function.update_eq_self]
    rfl
  | cons part parts ih =>
    have put : step s (.put thread part) =
        some { s with streams := Function.update s.streams thread (x.put part :: rest) } := by
      simp only [step,top]
    rw [List.map_cons,exec,put,Option.bind_some,ih (Function.update_self _ _ _)]
    simp only [LogStream.put,Function.update_idem,List.flatten_cons,List.append_assoc,List.singleton_append]

/-- A statement can always be executed, and where its thread is inside no other, this is what it does. -/
theorem statement_runs (silent : s.streams thread = []) : (statement thread site parts).run s =
    some (if s.admits site.level then
      s.end_ ⟨header s.time thread site ++ parts.flatten,s.g_logger,⟨thread,0,s.time,site,parts⟩⟩ else s) := by
  unfold statement Part.run
  rw [exec,step,Option.bind_some]
  split
  · have top : (s.begin_ thread site).streams thread =
        ⟨header s.time thread site,s.g_logger,⟨thread,0,s.time,site,[]⟩⟩ :: [] := by
      simp only [World.begin_,silent,Function.update_self,List.length_nil]
    rw [exec_append,exec_puts top,Option.bind_some]
    simp only [exec,step,World.begin_,Function.update_self,Option.bind_some,Function.update_idem,List.nil_append]
    rw [← silent,Function.update_eq_self]
  · rfl

end Statement

section Opening
variable (config : List UInt8) (thread : Nat) (managed loaded : Tm)

/-- Where the two `LoadConfig` log; `__FILE__` is what the compiler makes it. -/
def loadSite (line : Nat) : Site := ⟨.kDebug,config,line,some (ascii ['L','o','a','d','C','o','n','f','i','g'])⟩

def managedParts : List (List UInt8) := [utf8 "加载配置文件：",utf8 "../config/config.json"]

def loadedParts : List (List UInt8) := [utf8 "配置文件路径：",utf8 "../config/config.json"]

def loading : List Statement :=
  [⟨thread,0,managed,loadSite config 109,managedParts⟩,⟨thread,0,loaded,loadSite config 8,loadedParts⟩]

/-- `main` from its first logger to its second, where the configuration can be read. -/
def opening (info : LogInfo) : Part := .seq [
  .always [.newLogger none,.setLoggerLevel .kTrace,.passes managed],
  statement thread (loadSite config 109) managedParts,
  .always [.passes loaded],
  statement thread (loadSite config 8) loadedParts,
  .always [.files (.getFileLog (path info) true),.files (.setRotate 0 info.rotate_type),.newLogger (some 0),
    .setLoggerLevel info.level]]

end Opening

/-- A turn of the loop: the time it begins at, and what the manager of the logs does in `OnWork`. -/
structure Turn where
  time : Tm
  work : List Logs.Move

/-- Moves of `OnCheck`. -/
def Checks : Logs.Move → Prop
  | .onCheck _ _ | .visit _ _ | .checked => True
  | _ => False

section Loop
variable (file : List UInt8) (thread : Nat)

/-- Where `main` logs; `__FILE__` is what the compiler makes it. -/
def site : Site := ⟨.kDebug,file,42,some (ascii ['m','a','i','n'])⟩

def message : List UInt8 := ascii ['T','E','S','T',' ','L','O','G','!']

def spoken (t : Turn) : Part := .seq [.always [.passes t.time],statement thread (site file) [message]]

def turn (t : Turn) : Part := .seq [spoken file thread t,.always (t.work.map .files)]

/-- Whether what the manager does is possible, in each turn from the state that its statement has left. -/
def works : List Turn → World → Bool
  | [],_ => true
  | t :: turns,s => ((spoken file thread t).run s).all fun said =>
      (exec (t.work.map .files) said).any (works turns)

def line (t : Turn) : Statement := ⟨thread,0,t.time,site file,[message]⟩

structure Running (level : LoggerLevel) (s : World) : Prop where
  g_logger : s.g_logger = some 1
  loggers : s.loggers = [⟨.kTrace,none⟩,⟨level,some 0⟩]
  silent : s.streams thread = []
  opened : (s.files.logs 0).fd_ ≠ none

section Steps
variable {level : LoggerLevel} {s next : World}

/-- A rotation leaves a log that has a file with a file. -/
theorem checks_open {s next : Logs.World} {move : Logs.Move} (checks : Checks move)
    (stepped : Logs.step s move = some next) (opened : (s.logs 0).fd_ ≠ none) : (next.logs 0).fd_ ≠ none := by
  have rotates : ∀ (s : Logs.World) id path renamed opened, (s.logs 0).fd_ ≠ none →
      ((s.rotate id path renamed opened).logs 0).fd_ ≠ none := by
    intro s id path renamed opened before
    simp only [Logs.World.rotate]
    split
    · exact before
    · split
      · exact before
      · split
        · by_cases same : id = 0
          · simp [Logs.World.updateLog,same]
          · simpa [Logs.World.updateLog,Function.update_of_ne (Ne.symm same)] using before
        · exact before
  have visits : ∀ (s : Logs.World) id renamed opened, (s.logs 0).fd_ ≠ none →
      ((s.rotateLog id renamed opened).logs 0).fd_ ≠ none := by
    intro s id renamed opened before
    unfold Logs.World.rotateLog
    split
    · exact rotates s id _ renamed opened before
    · exact before
  cases Logs.step_cases stepped with
  | found | opened | removed | kept | written => exact checks.elim
  | begun now order =>
    simp only [Logs.World.onCheck]
    split <;> split <;> exact opened
  | visited now day hour minute id todo renamed reopened =>
    have later := visits { s with check := some ⟨now,day,hour,minute,todo⟩ } id renamed reopened opened
    simp only [Logs.World.visit,Logs.World.rotateMinute,Logs.World.rotateHours,Logs.World.rotateDays]
    split
    · exact opened
    all_goals
      split
      · exact later
      · exact opened
  | ended now => exact opened

/-- What the manager does prints nothing. -/
theorem work_running {work : List Logs.Move} (checks : ∀ move ∈ work, Checks move) (running : Running thread level s)
    (ran : exec (work.map .files) s = some next) : Running thread level next ∧ next.ended = s.ended := by
  induction work generalizing s with
  | nil =>
    cases ran
    exact ⟨running,rfl⟩
  | cons move work ih =>
    rw [List.forall_mem_cons] at checks
    obtain ⟨after,stepped,rest⟩ := Option.bind_eq_some_iff.mp ran
    cases step_cases stepped with
    | managed _ files quiet moved =>
      have going : Running thread level { s with files := files } :=
        ⟨running.g_logger,running.loggers,running.silent,checks_open checks.1 moved running.opened⟩
      have later := ih checks.2 going rest
      exact later

theorem writeLog_logs (id : Nat) (msg : List UInt8) (s : Logs.World) : (s.writeLog id msg).logs = s.logs := by
  unfold Logs.World.writeLog
  split <;> rfl

theorem running_asks (running : Running thread level s) :
    s.admits .kDebug = decide (value level ≤ value .kDebug) := by
  simp [World.admits,World.asks,World.logger,running.g_logger,running.loggers]

/-- A turn prints its line to the log, or nothing. -/
theorem spoken_running (t : Turn) (running : Running thread level s) :
    ∃ said went, (spoken file thread t).run s = some said ∧ Running thread level said ∧ went ≠ none ∧
      said.ended = s.ended ++ if value level ≤ value .kDebug then [(line file thread t,went)] else [] := by
  let timed : World := { s with time := t.time }
  have timely : Running thread level timed := ⟨running.g_logger,running.loggers,running.silent,running.opened⟩
  have passed : (Part.always [.passes t.time]).run s = some timed := rfl
  rw [spoken,Part.run_seq,passed,Option.bind_some,Part.run_seq,statement_runs timely.silent,Option.bind_some,
    Part.run_nil]
  have asks : timed.admits (site file).level = decide (value level ≤ value .kDebug) := running_asks thread timely
  rw [asks]
  by_cases low : value level ≤ value .kDebug
  · refine ⟨_,(s.files.logs 0).fd_,rfl,?_,running.opened,?_⟩
    all_goals
      have log : (timed.logger timed.g_logger).bind Logger.log_ = some 0 := by
        simp [timed,World.logger,running.g_logger,running.loggers]
      rw [if_pos (decide_eq_true low),World.end_,log]
    · refine ⟨running.g_logger,running.loggers,running.silent,?_⟩
      rw [writeLog_logs]
      exact running.opened
    · rw [if_pos low]
      rfl
  · refine ⟨timed,(s.files.logs 0).fd_,by rw [decide_eq_false low]; rfl,timely,running.opened,?_⟩
    rw [if_neg low,List.append_nil]

theorem turns_running (turns : List Turn) (checks : ∀ t ∈ turns, ∀ move ∈ t.work, Checks move)
    (running : Running thread level s) (working : works file thread turns s = true) :
    ∃ final lines, (Part.seq (turns.map (turn file thread))).run s = some final ∧ final.ended = s.ended ++ lines ∧
      (∀ done ∈ lines, done.2 ≠ none) ∧
      lines.map Prod.fst = if value level ≤ value .kDebug then turns.map (line file thread) else [] := by
  induction turns generalizing s with
  | nil => exact ⟨s,[],rfl,(List.append_nil _).symm,by simp,by simp⟩
  | cons t turns ih =>
    rw [List.forall_mem_cons] at checks
    obtain ⟨said,went,spoke,kept,some_,added⟩ := spoken_running file thread t running
    rw [works,spoke] at working
    obtain ⟨after,worked,working⟩ := (Option.any_eq_true _ _).mp working
    obtain ⟨later,same⟩ := work_running thread checks.1 kept worked
    obtain ⟨final,lines,ran,ended,others,printed⟩ := ih checks.2 later working
    have turned : (turn file thread t).run s = some after := by
      rw [turn,Part.run_seq,spoke,Option.bind_some,Part.run_seq]
      exact congrArg (Option.bind · _) worked
    rw [same,added,List.append_assoc] at ended
    refine ⟨final,_,by rw [List.map_cons,Part.run_seq,turned]; exact ran,ended,?_,?_⟩
    · rw [List.forall_mem_append]
      refine ⟨fun done among => ?_,others⟩
      split at among
      · rw [List.mem_singleton.mp among]
        exact some_
      · cases among
    · rw [List.map_append,printed]
      split <;> rfl

end Steps

structure Fresh (s : World) : Prop where
  files : Logs.Fresh s.files
  idle : s.files.check = none
  empty : s.files.logs_ = []
  loggers : s.loggers = []
  silent : ∀ thread, s.streams thread = []
  ended : s.ended = []

/-- Before it has a log, `main` prints to the standard output. -/
theorem statement_shown {site : Site} {parts : List (List UInt8)} {s : World} (silent : s.streams thread = [])
    (current : s.g_logger = some 0) (loggers : s.loggers = [⟨.kTrace,none⟩]) :
    (statement thread site parts).run s =
      some { s with ended := s.ended ++ [(⟨thread,0,s.time,site,parts⟩,none)] } := by
  have asks : s.asks site.level = true := by
    simp [World.asks,World.logger,current,loggers,value]
  have admitted : s.admits site.level = true := by
    unfold World.admits
    split <;> first | rfl | exact asks
  rw [statement_runs silent,if_pos admitted]
  simp [World.end_,World.logger,current,loggers]

variable (config : List UInt8) (managed loaded : Tm)

/-- Where there is no log yet, one is made, and a logger for it. -/
theorem log_opens (info : LogInfo) {s : World} (files : Logs.Fresh s.files) (idle : s.files.check = none)
    (empty : s.files.logs_ = []) (loggers : s.loggers = [⟨.kTrace,none⟩]) (silent : s.streams thread = []) :
    ∃ next, (Part.always [.files (.getFileLog (path info) true),.files (.setRotate 0 info.rotate_type),
      .newLogger (some 0),.setLoggerLevel info.level]).run s = some next ∧
        Running thread info.level next ∧ next.ended = s.ended := by
  have found : Logs.step s.files (.getFileLog (path info) true) = some (s.files.open_ (path info)) := by
    simp [Logs.step,idle,empty]
  have opened : 0 < (s.files.open_ (path info)).made := Nat.succ_pos _
  have set : Logs.step (s.files.open_ (path info)) (.setRotate 0 info.rotate_type) =
      some ((s.files.open_ (path info)).updateLog 0 fun log => { log with rotateType_ := info.rotate_type }) := by
    simp only [Logs.step,opened,if_true]
  have made : 0 < ((s.files.open_ (path info)).updateLog 0 fun log =>
      { log with rotateType_ := info.rotate_type }).made := opened
  simp only [Part.run,Part.always,exec,step,writes,found,set,made,loggers,Bool.false_eq_true,if_false,
    Option.map_some,Option.bind_some,Option.all_some,decide_true,if_true]
  refine ⟨_,rfl,⟨rfl,rfl,silent,?_⟩,rfl⟩
  simp [Logs.World.updateLog,Logs.World.open_,files.made]

theorem opening_running (info : LogInfo) {s : World} (fresh : Fresh s) :
    ∃ next, (opening config thread managed loaded info).run s = some next ∧ Running thread info.level next ∧
      next.ended = (loading config thread managed loaded).map fun x => (x,none) := by
  let logless (time : Tm) (ended : List (Statement × Option Nat)) : World :=
    { s with loggers := [⟨.kTrace,none⟩], g_logger := some 0, time := time, ended := ended }
  have made : (Part.always [.newLogger none,.setLoggerLevel .kTrace,.passes managed]).run s =
      some (logless managed s.ended) := by
    simp [logless,Part.run,Part.always,exec,step,fresh.loggers]
  have passed : ∀ time ended, (Part.always [.passes loaded]).run (logless time ended) =
      some (logless loaded ended) := fun _ _ => rfl
  have shown : ∀ time ended site parts, (statement thread site parts).run (logless time ended) =
      some (logless time (ended ++ [(⟨thread,0,time,site,parts⟩,none)])) :=
    fun time ended site parts => statement_shown thread (fresh.silent thread) rfl rfl
  have opens := fun ended => log_opens thread info (s := logless loaded ended) fresh.files fresh.idle fresh.empty
    rfl (fresh.silent thread)
  obtain ⟨next,opened,running,ended⟩ := opens _
  rw [opening,Part.run_seq,made,Option.bind_some,Part.run_seq,shown,Option.bind_some,Part.run_seq,passed,
    Option.bind_some,Part.run_seq,shown,Option.bind_some,Part.run_seq,opened]
  exact ⟨next,rfl,running,by rw [ended]; simp [logless,fresh.ended,loading]⟩

theorem Fresh.ready {s : World} (fresh : Fresh s) : Ready s := by
  have intact := fresh.files.intact
  refine ⟨⟨intact.known,fun i above => ?_,fun id made => ?_⟩,by simp [fresh.loggers],fresh.silent,fresh.ended⟩
  · rw [List.eq_nil_iff_forall_not_mem]
    intro byte among
    obtain ⟨name,entry⟩ := intact.kept i byte among
    exact Nat.lt_irrefl _ (Nat.lt_of_lt_of_le (intact.known name i entry) above)
  · rw [fresh.files.made] at made
    cases made

/-- `main`, where the configuration can be read and the log opened. -/
def program (info : LogInfo) (turns : List Turn) : Part :=
  .seq (opening config thread managed loaded info :: turns.map (turn file thread))

/-- `main` gets through every turn in which the manager's own moves are possible. It prints the two lines of
`LoadConfig`, and then one line a turn where its level is TRACE or DEBUG, and none otherwise. Each of these
goes to a file, whatever becomes of the rotations; if each rotation takes a clear name, the lines are there in
the end, each in one piece in a file with one name. -/
theorem main_lines (info : LogInfo) (s : World) (fresh : Fresh s) (turns : List Turn)
    (checks : ∀ t ∈ turns, ∀ move ∈ t.work, Checks move)
    (working : ((opening config thread managed loaded info).run s).all (works file thread turns) = true) :
    ∃ final lines, (program file thread config managed loaded info turns).run s = some final ∧
      final.ended = (loading config thread managed loaded).map (fun x => (x,none)) ++ lines ∧
      (lines.map Prod.fst = if value info.level ≤ value .kDebug then turns.map (line file thread) else []) ∧
      (∀ done ∈ lines, ∃ i, done.2 = some i) ∧
      (Careful (program file thread config managed loaded info turns s) s →
        ∀ done ∈ lines, ∃ i path, done.1.text <:+: final.files.text i ∧
          final.files.fs.entry path = some i ∧ ∀ other, final.files.fs.entry other = some i → other = path) := by
  obtain ⟨next,first,running,before⟩ := opening_running thread config managed loaded info fresh
  rw [first] at working
  obtain ⟨final,lines,rest,ended,some_,printed⟩ := turns_running file thread turns checks running working
  have ran : (program file thread config managed loaded info turns).run s = some final := by
    rw [program,Part.run_seq,first]
    exact rest
  rw [before] at ended
  have went : ∀ done ∈ lines, ∃ i, done.2 = some i := fun done among =>
    Option.ne_none_iff_exists'.mp (some_ done among)
  refine ⟨final,lines,ran,ended,printed,went,fun careful done among => ?_⟩
  obtain ⟨i,same⟩ := went done among
  have all : done ∈ final.ended := by
    rw [ended]
    exact List.mem_append_right _ among
  obtain ⟨inside,path,named,only⟩ := line_kept fresh.ready (Logs.fresh_kept fresh.files) careful ran done all i same
  exact ⟨i,path,inside,named,only⟩

end Loop

theorem quiet_fresh : Fresh quiet := ⟨Logs.empty_fresh,rfl,rfl,rfl,fun _ => rfl,rfl⟩

def hourly : LogInfo := ⟨.kDebug,"a/","b.log",.kRotateHour⟩

def threeTurns : List Turn :=
  [⟨⟨124,8,27,10,59,59⟩,[.onCheck ⟨2024,9,27,10,59⟩ [0]]⟩,
    ⟨⟨124,8,27,11,0,0⟩,[.onCheck ⟨2024,9,27,11,0⟩ [0],.visit true true,.checked]⟩,
    ⟨⟨124,8,27,11,0,1⟩,[.onCheck ⟨2024,9,27,11,0⟩ [0]]⟩]

def hourlyProgram : Part := program [109] 1 [99] ⟨124,8,27,10,59,58⟩ ⟨124,8,27,10,59,58⟩ hourly threeTurns

theorem hourlyProgram_went : (hourlyProgram.run quiet).map (fun s => s.ended.map Prod.snd) =
    some [none,none,some 0,some 0,some 1] := by
  decide +kernel

theorem main_lines_three :
    ∃ (final : World) (lines : List (Statement × Option Nat)), hourlyProgram.run quiet = some final ∧
      lines.map Prod.snd = [some 0,some 0,some 1] ∧
      lines.map Prod.fst = threeTurns.map (line [109] 1) ∧
      ∀ done ∈ lines, done ∈ final.ended ∧ ∃ i path, done.1.text <:+: final.files.text i ∧
        final.files.fs.entry path = some i ∧ ∀ other, final.files.fs.entry other = some i → other = path := by
  have checks : ∀ t ∈ threeTurns, ∀ move ∈ t.work, Checks move := by simp [threeTurns,Checks]
  obtain ⟨final,lines,ran,ended,printed,_,kept⟩ := main_lines [109] 1 [99] ⟨124,8,27,10,59,58⟩
    ⟨124,8,27,10,59,58⟩ hourly quiet quiet_fresh threeTurns checks (by decide +kernel)
  obtain ⟨other,again,went⟩ := Option.map_eq_some_iff.mp hourlyProgram_went
  cases again.symm.trans ran
  rw [ended] at went
  refine ⟨final,lines,ran,by simpa [loading] using went,printed,fun done among => ⟨?_,?_⟩⟩
  · rw [ended]
    exact List.mem_append_right _ among
  · exact kept (careful_of_free (by decide +kernel)) done among

end Tmms.Base.Program
