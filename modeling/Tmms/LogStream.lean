import Tmms.Config
import Tmms.IsoTime
import Tmms.LogFiles

/-! Log statements. A statement builds its line in a stream of its own and writes it when it
ends; any number of threads do so at once, and a thread may come to a statement while it
evaluates what another one prints. -/
namespace Tmms.Base.Logging

open Tmms.Base.Configuration (LoggerLevel)

def ascii (text : List Char) : List UInt8 := text.map fun c => UInt8.ofNat c.toNat

def value : LoggerLevel → Nat
  | .kTrace => 0
  | .kDebug => 1
  | .kInfo => 2
  | .kWarn => 3
  | .kError => 4

def log_string : LoggerLevel → List Char
  | .kTrace => [' ','T','R','A','C','E',' ']
  | .kDebug => [' ','D','E','B','U','G',' ']
  | .kInfo => [' ','I','N','F','O',' ']
  | .kWarn => [' ','W','A','R','N',' ']
  | .kError => [' ','E','R','R','O','R',' ']

/-- Where the last `c` is. -/
def strrchr (s : List UInt8) (c : UInt8) : Option Nat :=
  (s.reverse.findIdx? (· = c)).map fun back => s.length - 1 - back

def file_name (file : List UInt8) : List UInt8 :=
  match strrchr file 47 with
  | some pos => file.drop (pos + 1)
  | none => file

/-- What the macro gives to the stream. -/
structure Site where
  level : LoggerLevel
  file : List UInt8
  line : Nat
  func : Option (List UInt8)
  deriving DecidableEq

/-- What `LogStream` puts in front of a line, in the thread with this id. -/
def header (time : Tm) (thread : Nat) (site : Site) : List UInt8 :=
  ascii (isoTime time) ++ ascii (Nat.toDigits 10 thread) ++ ascii (log_string site.level) ++ ascii ['['] ++
    file_name site.file ++ ascii [':'] ++ ascii (Nat.toDigits 10 site.line) ++ ascii [']'] ++
    match site.func with
    | some func => ascii ['['] ++ func ++ ascii [']']
    | none => []

def newline : UInt8 := 10

/-- `log_` is one of the manager's logs. -/
structure Logger where
  level_ : LoggerLevel
  log_ : Option Nat

/-- A log statement, inside `depth` others of its thread, and what it has printed so far. -/
structure Statement where
  thread : Nat
  depth : Nat
  time : Tm
  site : Site
  parts : List (List UInt8)
  deriving DecidableEq

namespace Statement

def printed (x : Statement) : List UInt8 := header x.time x.thread x.site ++ x.parts.flatten

def text (x : Statement) : List UInt8 := x.printed ++ [newline]

end Statement

structure LogStream where
  stream_ : List UInt8
  logger_ : Option Nat
  statement : Statement

def LogStream.put (value : List UInt8) (x : LogStream) : LogStream :=
  { x with
    stream_ := x.stream_ ++ value
    statement := { x.statement with parts := x.statement.parts ++ [value] } }

/-- The loggers that have been made, the local time, the streams that each thread is building,
innermost first, and the statements that have ended, oldest first, each with the file its line went
to. -/
structure World where
  files : Logs.World
  loggers : List Logger
  g_logger : Option Nat
  time : Tm
  streams : Nat → List LogStream
  ended : List (Statement × Option Nat)

inductive Move where
  | passes (time : Tm)
  -- of the manager, or of a log, but not a write
  | files (move : Logs.Move)
  | newLogger (log : Option Nat)
  | setLoggerLevel (level : LoggerLevel)
  | start (thread : Nat) (site : Site)
  | put (thread : Nat) (value : List UInt8)
  | finish (thread : Nat)
  deriving DecidableEq

def writes : Logs.Move → Bool
  | .writeLog _ _ => true
  | _ => false

namespace World

def logger (s : World) (at_ : Option Nat) : Option Logger := at_.bind (s.loggers[·]?)

/-- `g_logger && g_logger->GetLoggerLevel() <= level` -/
def asks (s : World) (level : LoggerLevel) : Bool :=
  match s.logger s.g_logger with
  | some logger => decide (value logger.level_ ≤ value level)
  | none => false

/-- Whether the macro for this level makes a stream. Two of the macros do not ask. -/
def admits (s : World) : LoggerLevel → Bool
  | .kWarn | .kError => true
  | level => s.asks level

/-- `LogStream::LogStream` -/
def begin_ (thread : Nat) (site : Site) (s : World) : World :=
  let stream : LogStream :=
    ⟨header s.time thread site,s.g_logger,⟨thread,(s.streams thread).length,s.time,site,[]⟩⟩
  { s with streams := Function.update s.streams thread (stream :: s.streams thread) }

/-- `LogStream::~LogStream`, with `Logger::Write`. Without a logger, and where the logger has no
log, the line goes to the standard output. -/
def end_ (x : LogStream) (s : World) : World :=
  let line := x.stream_ ++ [newline]
  match (s.logger x.logger_).bind Logger.log_ with
  | some id =>
    { s with
      files := s.files.writeLog id line
      ended := s.ended ++ [(x.statement,(s.files.logs id).fd_)] }
  | none => { s with ended := s.ended ++ [(x.statement,none)] }

end World

def step (s : World) : Move → Option World
  | .passes time => some { s with time := time }
  | .files move =>
    if writes move then none else (Logs.step s.files move).map fun files => { s with files := files }
  | .newLogger log =>
    if log.all fun id => decide (id < s.files.made) then
      some { s with loggers := s.loggers ++ [⟨.kDebug,log⟩], g_logger := some s.loggers.length }
    else none
  | .setLoggerLevel level =>
    match s.g_logger with
    | some i => some { s with loggers := s.loggers.modify i fun logger => { logger with level_ := level } }
    | none => none
  | .start thread site => some (if s.admits site.level then s.begin_ thread site else s)
  | .put thread value =>
    match s.streams thread with
    | [] => none
    | x :: rest => some { s with streams := Function.update s.streams thread (x.put value :: rest) }
  | .finish thread =>
    match s.streams thread with
    | [] => none
    | x :: rest => some ({ s with streams := Function.update s.streams thread rest }.end_ x)

/-- The moves that a state allows, each with what it requires and the state it leads to. -/
inductive Stepped (s : World) : Move → World → Prop
  | passed (time : Tm) : Stepped s (.passes time) { s with time := time }
  | managed (move : Logs.Move) (files : Logs.World) (quiet : ∀ id msg, move ≠ .writeLog id msg)
      (stepped : Logs.step s.files move = some files) : Stepped s (.files move) { s with files := files }
  | made (log : Option Nat) (known : ∀ id, log = some id → id < s.files.made) :
    Stepped s (.newLogger log)
      { s with loggers := s.loggers ++ [⟨.kDebug,log⟩], g_logger := some s.loggers.length }
  | leveled (i : Nat) (level : LoggerLevel) (current : s.g_logger = some i) :
    Stepped s (.setLoggerLevel level)
      { s with loggers := s.loggers.modify i fun logger => { logger with level_ := level } }
  | dropped (thread : Nat) (site : Site) (low : s.admits site.level = false) : Stepped s (.start thread site) s
  | started (thread : Nat) (site : Site) (admitted : s.admits site.level = true) :
    Stepped s (.start thread site) (s.begin_ thread site)
  | printed (thread : Nat) (value : List UInt8) (x : LogStream) (rest : List LogStream)
      (top : s.streams thread = x :: rest) :
    Stepped s (.put thread value) { s with streams := Function.update s.streams thread (x.put value :: rest) }
  | finished (thread : Nat) (x : LogStream) (rest : List LogStream) (top : s.streams thread = x :: rest) :
    Stepped s (.finish thread) ({ s with streams := Function.update s.streams thread rest }.end_ x)

theorem step_cases {s next : World} {move : Move} (stepped : step s move = some next) : Stepped s move next := by
  cases move with
  | passes time =>
    cases stepped
    exact .passed time
  | files move =>
    obtain ⟨quiet,mapped⟩ := Option.ite_none_left_eq_some.mp stepped
    obtain ⟨files,moved,same⟩ := Option.map_eq_some_iff.mp mapped
    cases same
    refine .managed move files (fun id msg same => quiet ?_) moved
    rw [same,writes]
  | newLogger log =>
    obtain ⟨known,same⟩ := Option.ite_none_right_eq_some.mp stepped
    cases same
    refine .made log fun id same => ?_
    subst same
    exact of_decide_eq_true known
  | setLoggerLevel level =>
    simp only [step] at stepped
    split at stepped
    · next i current =>
      cases stepped
      exact .leveled i level current
    · cases stepped
  | start thread site =>
    simp only [step,Option.some.injEq] at stepped
    split at stepped
    · next admitted =>
      cases stepped
      exact .started thread site admitted
    · next low =>
      cases stepped
      exact .dropped thread site (Bool.not_eq_true _ ▸ low)
  | put thread value =>
    simp only [step] at stepped
    split at stepped
    · cases stepped
    · next x rest top =>
      cases stepped
      exact .printed thread value x rest top
  | finish thread =>
    simp only [step] at stepped
    split at stepped
    · cases stepped
    · next x rest top =>
      cases stepped
      exact .finished thread x rest top

def exec : List Move → World → Option World
  | [],s => some s
  | move :: moves,s => (step s move).bind (exec moves)

theorem exec_append (first second : List Move) (s : World) :
    exec (first ++ second) s = (exec first s).bind (exec second) := by
  induction first generalizing s with
  | nil => rfl
  | cons move moves ih =>
    rw [List.cons_append,exec,exec]
    cases stepped : step s move with
    | none => rfl
    | some next => exact ih next

theorem exec_kept {keeps : World → Prop} {moves : List Move} {s final : World}
    (each : ∀ before move after, move ∈ moves → keeps before → Stepped before move after → keeps after)
    (start : keeps s) (ran : exec moves s = some final) : keeps final := by
  induction moves generalizing s with
  | nil =>
    cases ran
    exact start
  | cons move moves ih =>
    obtain ⟨next,stepped,rest⟩ := Option.bind_eq_some_iff.mp ran
    apply ih (fun before move after among => each before move after (List.mem_cons_of_mem _ among)) _ rest
    exact each s move next List.mem_cons_self start (step_cases stepped)

end Tmms.Base.Logging
