import Tmms.LogRotation
import Tmms.LogStream

/-! What the log files hold: whole lines, one for each statement that has ended, whichever
threads were building theirs meanwhile and whatever the manager did to the files. -/
namespace Tmms.Base.Logging

open Tmms.Base.Configuration (LoggerLevel)

structure Ready (s : World) : Prop where
  sound : Logs.Sound s.files
  loggers : ∀ logger ∈ s.loggers, ∀ id, logger.log_ = some id → id < s.files.made
  silent : ∀ thread, s.streams thread = []
  new : s.ended = []

/-- The statements whose lines went to a file. -/
def linesIn (file : Nat) (ended : List (Statement × Option Nat)) : List Statement :=
  (ended.filter fun done => done.2 = some file).map Prod.fst

/-- The files are the initial ones, followed by the lines of the statements that have ended. -/
structure Recorded (initial : Nat → List UInt8) (s : World) : Prop where
  sound : Logs.Sound s.files
  loggers : ∀ logger ∈ s.loggers, ∀ id, logger.log_ = some id → id < s.files.made
  building : ∀ thread, ∀ x ∈ s.streams thread, x.stream_ = x.statement.printed
  content : ∀ file, s.files.text file = initial file ++ ((linesIn file s.ended).map Statement.text).flatten

section Recorded
variable {initial : Nat → List UInt8} {s next : World}

/-- A logger keeps its log, whatever its level is. -/
theorem modify_log {loggers : List Logger} {i : Nat} {level : LoggerLevel} {logger : Logger}
    (among : logger ∈ loggers.modify i fun logger => { logger with level_ := level }) :
    ∃ before ∈ loggers, before.log_ = logger.log_ := by
  obtain ⟨j,found⟩ := List.mem_iff_getElem?.mp among
  rw [List.getElem?_modify] at found
  obtain ⟨before,there,same⟩ := Option.map_eq_some_iff.mp found
  refine ⟨before,List.mem_of_getElem? there,?_⟩
  subst same
  split <;> rfl

theorem forall_update {streams : Nat → List LogStream} {keeps : Nat → LogStream → Prop} {thread : Nat}
    {list : List LogStream} (others : ∀ t, ∀ x ∈ streams t, keeps t x) (here : ∀ x ∈ list, keeps thread x) :
    ∀ t, ∀ x ∈ Function.update streams thread list t, keeps t x := by
  intro t x among
  by_cases same : t = thread
  · subst same
    rw [Function.update_self] at among
    exact here x among
  · rw [Function.update_of_ne same] at among
    exact others t x among

theorem put_printed {x : LogStream} (value : List UInt8) (built : x.stream_ = x.statement.printed) :
    (x.put value).stream_ = (x.put value).statement.printed := by
  simp [LogStream.put,Statement.printed,built]

theorem linesIn_concat (file : Nat) (ended : List (Statement × Option Nat)) (x : Statement) (went : Option Nat) :
    linesIn file (ended ++ [(x,went)]) = linesIn file ended ++ if went = some file then [x] else [] := by
  by_cases here : went = some file <;> simp [linesIn,here]

/-- The end of a statement puts its whole line behind the others. -/
theorem Recorded.end_ (recorded : Recorded initial s) (x : LogStream) (built : x.stream_ = x.statement.printed) :
    Recorded initial (s.end_ x) := by
  obtain ⟨sound,loggers,building,content⟩ := recorded
  have line : x.stream_ ++ [newline] = x.statement.text := by rw [built,Statement.text]
  simp only [World.end_,line]
  split
  · next id log =>
    obtain ⟨logger,found,open_⟩ := Option.bind_eq_some_iff.mp log
    obtain ⟨i,_,inside⟩ := Option.bind_eq_some_iff.mp found
    have made := loggers logger (List.mem_of_getElem? inside) id open_
    obtain ⟨kept,count,texts⟩ := sound.writeLog made x.statement.text
    refine ⟨kept,?_,building,fun file => ?_⟩
    · rw [count]
      exact loggers
    · rw [texts,content file,linesIn_concat]
      split <;> simp
  · refine ⟨sound,loggers,building,fun file => ?_⟩
    rw [linesIn_concat,if_neg (by simp),List.append_nil]
    exact content file

theorem Recorded.step {move : Move} (recorded : Recorded initial s) (stepped : Stepped s move next) :
    Recorded initial next := by
  have whole := recorded
  obtain ⟨sound,loggers,building,content⟩ := recorded
  cases stepped with
  | passed time => exact ⟨sound,loggers,building,content⟩
  | managed move files quiet stepped =>
    obtain ⟨kept,same,more⟩ := sound.step stepped quiet
    refine ⟨kept,fun logger among id log => Nat.lt_of_lt_of_le (loggers logger among id log) more,building,?_⟩
    intro file
    have text : files.text file = s.files.text file := by rw [Logs.World.text,Logs.World.text,same]
    exact text.trans (content file)
  | made log known =>
    refine ⟨sound,fun logger among => ?_,building,content⟩
    rcases List.mem_append.mp among with before | new
    · exact loggers logger before
    · rw [List.mem_singleton.mp new]
      exact known
  | leveled i level current =>
    refine ⟨sound,fun logger among id log => ?_,building,content⟩
    obtain ⟨before,inside,same⟩ := modify_log among
    exact loggers before inside id (same.trans log)
  | dropped thread site low => exact whole
  | started thread site admitted =>
    refine ⟨sound,loggers,forall_update building ?_,content⟩
    rw [List.forall_mem_cons]
    exact ⟨by simp [Statement.printed],building thread⟩
  | printed thread value x rest top =>
    have here := building thread
    rw [top,List.forall_mem_cons] at here
    refine ⟨sound,loggers,forall_update building ?_,content⟩
    rw [List.forall_mem_cons]
    exact ⟨put_printed value here.1,here.2⟩
  | finished thread x rest top =>
    have here := building thread
    rw [top,List.forall_mem_cons] at here
    have left : Recorded initial { s with streams := Function.update s.streams thread rest } :=
      ⟨sound,loggers,forall_update building here.2,content⟩
    exact left.end_ x here.1

theorem Ready.recorded (ready : Ready s) : Recorded s.files.text s := by
  refine ⟨ready.sound,ready.loggers,fun thread x among => ?_,fun file => ?_⟩
  · rw [ready.silent] at among
    cases among
  · simp [linesIn,ready.new]

/-- After a run, each file is what it was, followed by whole lines. -/
theorem run_recorded {moves : List Move} (ready : Ready s) (ran : exec moves s = some next) :
    Recorded s.files.text next :=
  exec_kept (fun _ _ _ _ recorded stepped => recorded.step stepped) ready.recorded ran

end Recorded

/-- The lines of a text that are complete. -/
def completeLines (text : List UInt8) : List (List UInt8) := (text.splitOn newline).dropLast

/-- A text that ends where a line does. -/
def Terminated (text : List UInt8) : Prop := text = [] ∨ text.getLast? = some newline

section Lines

theorem completeLines_cons {line : List UInt8} (plain : newline ∉ line) (rest : List UInt8) :
    completeLines (line ++ [newline] ++ rest) = line :: completeLines rest := by
  rw [completeLines,List.append_assoc,List.singleton_append,List.splitOn_append_cons_self_of_not_mem plain,
    List.dropLast_cons_of_ne_nil (List.splitOn_ne_nil _ _),completeLines]

theorem completeLines_lines {lines : List (List UInt8)} (plain : ∀ line ∈ lines, newline ∉ line) :
    completeLines (lines.map (· ++ [newline])).flatten = lines := by
  induction lines with
  | nil => rfl
  | cons line lines ih =>
    obtain ⟨first,others⟩ := List.forall_mem_cons.mp plain
    rw [List.map_cons,List.flatten_cons,completeLines_cons first,ih others]

/-- Lines behind a text that is terminated are the lines behind its own. -/
theorem completeLines_append {text : List UInt8} (ends : Terminated text) (rest : List UInt8) :
    completeLines (text ++ rest) = completeLines text ++ completeLines rest := by
  rcases ends with rfl | last
  · rfl
  · obtain ⟨before,rfl⟩ := List.getLast?_eq_some_iff.mp last
    have some_ := List.splitOn_ne_nil newline rest
    simp only [completeLines,List.append_assoc,List.singleton_append,List.splitOn_append_cons_self,
      List.splitOn_nil,List.dropLast_append_of_ne_nil some_,List.dropLast_concat]

end Lines

/-- A character that does not end a line. -/
def Inline (c : Char) : Prop := UInt8.ofNat c.toNat ≠ newline

instance : DecidablePred Inline := fun c => inferInstanceAs (Decidable (UInt8.ofNat c.toNat ≠ newline))

section Header

theorem ascii_inline {text : List Char} (inline : ∀ c ∈ text, Inline c) : newline ∉ ascii text := by
  intro among
  obtain ⟨c,inside,same⟩ := List.mem_map.mp among
  exact inline c inside same

theorem digits_inline (n : Nat) : ∀ c ∈ Nat.toDigits 10 n, Inline c := by
  intro c among
  have digit := Nat.isDigit_of_mem_toDigits (by decide) (by decide) among
  simp only [Char.isDigit,Bool.and_eq_true,decide_eq_true_eq] at digit
  obtain ⟨low,high⟩ := digit
  have small : c.toNat ≤ 57 := high
  have large : 48 ≤ c.toNat := low
  intro same
  have back := congrArg UInt8.toNat same
  rw [UInt8.toNat_ofNat',Nat.mod_eq_of_lt (by omega)] at back
  change c.toNat = 10 at back
  omega

theorem leftpad_inline {fill : Char} {text : List Char} (inline : Inline fill) (others : ∀ c ∈ text, Inline c)
    (width : Nat) : ∀ c ∈ text.leftpad width fill, Inline c := by
  intro c among
  rcases List.mem_append.mp among with filled | inside
  · rw [List.eq_of_mem_replicate filled]
    exact inline
  · exact others c inside

theorem formatInt_inline (zeros : Bool) (width : Nat) (n : Int) : ∀ c ∈ formatInt zeros width n, Inline c := by
  have zero : Inline '0' := by decide
  have blank : Inline ' ' := by decide
  have sign : Inline '-' := by decide
  cases zeros with
  | true =>
    simp only [formatInt,if_true]
    split
    · exact leftpad_inline zero (digits_inline _) width
    · rw [List.forall_mem_cons]
      exact ⟨sign,leftpad_inline zero (digits_inline _) _⟩
  | false =>
    simp only [formatInt,Bool.false_eq_true,if_false]
    split
    · exact leftpad_inline blank (digits_inline _) width
    · apply leftpad_inline blank
      rw [List.forall_mem_cons]
      exact ⟨sign,digits_inline _⟩

theorem isoTime_inline (tm : Tm) : ∀ c ∈ isoTime tm, Inline c := by
  have separators : Inline '-' ∧ Inline 'T' ∧ Inline ':' := by decide
  simp only [isoTime,List.forall_mem_append,List.forall_mem_singleton,separators,and_true]
  have each := formatInt_inline
  exact ⟨⟨⟨⟨⟨each _ _ _,each _ _ _⟩,each _ _ _⟩,each _ _ _⟩,each _ _ _⟩,each _ _ _⟩

theorem file_name_inline {file : List UInt8} (inline : newline ∉ file) : newline ∉ file_name file := by
  unfold file_name
  split
  · exact fun among => inline (List.mem_of_mem_drop among)
  · exact inline

structure Site.Inline (site : Site) : Prop where
  file : newline ∉ site.file
  func : ∀ func, site.func = some func → newline ∉ func

theorem header_inline (time : Tm) (thread : Nat) {site : Site} (inline : site.Inline) :
    newline ∉ header time thread site := by
  have level : newline ∉ ascii (log_string site.level) := by cases site.level <;> decide
  have signs : newline ∉ ascii ['['] ∧ newline ∉ ascii [':'] ∧ newline ∉ ascii [']'] := by decide
  have name := file_name_inline inline.file
  simp only [header,List.mem_append,not_or,ascii_inline (isoTime_inline time),ascii_inline (digits_inline _),
    level,signs,name,not_false_eq_true,true_and]
  split
  · next func called =>
    simp only [List.mem_append,not_or,signs,not_false_eq_true,true_and,and_true]
    exact inline.func func called
  · exact List.not_mem_nil

end Header

def Move.Inline : Move → Prop
  | .start _ site => site.Inline
  | .put _ value => newline ∉ value
  | _ => True

structure Inlined (s : World) : Prop where
  building : ∀ thread, ∀ x ∈ s.streams thread, newline ∉ x.statement.printed
  ended : ∀ done ∈ s.ended, newline ∉ done.1.printed

section Runs
variable {s next final : World}

theorem ended_end (x : LogStream) (s : World) :
    (s.end_ x).streams = s.streams ∧ (s.end_ x).time = s.time ∧
      ∃ went, (s.end_ x).ended = s.ended ++ [(x.statement,went)] := by
  unfold World.end_
  split
  · exact ⟨rfl,rfl,_,rfl⟩
  · exact ⟨rfl,rfl,_,rfl⟩

theorem Inlined.step {move : Move} (inlined : Inlined s) (inline : move.Inline) (stepped : Stepped s move next) :
    Inlined next := by
  have whole := inlined
  obtain ⟨building,ended⟩ := inlined
  cases stepped with
  | passed | managed | made | leveled => exact ⟨building,ended⟩
  | dropped => exact whole
  | started thread site admitted =>
    refine ⟨forall_update building ?_,ended⟩
    rw [List.forall_mem_cons]
    refine ⟨?_,building thread⟩
    simpa [Statement.printed] using header_inline s.time thread inline
  | printed thread value x rest top =>
    have here := building thread
    rw [top,List.forall_mem_cons] at here
    refine ⟨forall_update building ?_,ended⟩
    rw [List.forall_mem_cons]
    refine ⟨?_,here.2⟩
    have more : (x.put value).statement.printed = x.statement.printed ++ value := by
      simp [LogStream.put,Statement.printed]
    rw [more,List.mem_append,not_or]
    exact ⟨here.1,inline⟩
  | finished thread x rest top =>
    have here := building thread
    rw [top,List.forall_mem_cons] at here
    obtain ⟨streams,_,went,added⟩ := ended_end x { s with streams := Function.update s.streams thread rest }
    refine ⟨?_,?_⟩
    · rw [streams]
      exact forall_update building here.2
    · rw [added,List.forall_mem_append,List.forall_mem_singleton]
      exact ⟨ended,here.1⟩

theorem Ready.inlined (ready : Ready s) : Inlined s := by
  refine ⟨fun thread x among => ?_,fun done among => ?_⟩
  · rw [ready.silent] at among
    cases among
  · rw [ready.new] at among
    cases among

/-- Each file is what it was, followed by the lines of the statements that have ended, in the order
they ended in. If nothing is printed that has a newline in it, a file that ended with a line has
their lines behind its own, one for each. -/
theorem log_lines (s final : World) (ready : Ready s) (moves : List Move) (ran : exec moves s = some final)
    (file : Nat) :
    final.files.text file = s.files.text file ++ ((linesIn file final.ended).map Statement.text).flatten ∧
      ((∀ move ∈ moves, move.Inline) → Terminated (s.files.text file) →
        completeLines (final.files.text file) =
          completeLines (s.files.text file) ++ (linesIn file final.ended).map Statement.printed) := by
  have content := (run_recorded ready ran).content file
  refine ⟨content,fun inline ends => ?_⟩
  have inlined : Inlined final :=
    exec_kept (fun _ move _ among inlined stepped => inlined.step (inline move among) stepped) ready.inlined ran
  have lines : (linesIn file final.ended).map Statement.text =
      ((linesIn file final.ended).map Statement.printed).map (· ++ [newline]) := by
    rw [List.map_map]
    rfl
  rw [content,completeLines_append ends,lines,completeLines_lines]
  intro line among
  obtain ⟨x,inside,rfl⟩ := List.mem_map.mp among
  obtain ⟨done,kept,rfl⟩ := List.mem_map.mp inside
  exact inlined.ended done (List.mem_of_mem_filter kept)

end Runs

def quiet : World := ⟨Logs.empty,[],none,⟨124,8,27,11,1,59⟩,fun _ => [],[]⟩

theorem empty_sound : Logs.Sound Logs.empty := by
  refine ⟨?_,fun _ _ => rfl,?_⟩
  · exact fun _ _ none => by cases none
  · exact fun _ none => by cases none

theorem quiet_ready : Ready quiet := by
  refine ⟨empty_sound,?_,fun _ => rfl,rfl⟩
  exact fun _ none => by cases none

def place (level : LoggerLevel) : Site := ⟨level,[47,97,46,99],12,some [102]⟩

theorem place_inline (level : LoggerLevel) : (place level).Inline := by
  refine ⟨by simp [place,newline],fun func called => ?_⟩
  cases called
  decide

/-- Two threads log to `a/b.log`, which is rotated before the first of them has ended its line. -/
def interleaved : List Move :=
  [.files (.getFileLog ['a','/','b','.','l','o','g'] true),.files (.setRotate 0 .kRotateMinute),.newLogger (some 0),
    .files (.onCheck ⟨2024,9,27,11,1⟩ [0]),.start 7 (place .kInfo),.put 7 [65],.start 8 (place .kDebug),
    .put 8 [66],.finish 8,.passes ⟨124,8,27,11,2,0⟩,.files (.onCheck ⟨2024,9,27,11,2⟩ [0]),
    .files (.visit true true),.put 7 [67],.files .checked,.finish 7]

theorem interleaved_ended : (exec interleaved quiet).map World.ended =
    some [(⟨8,0,⟨124,8,27,11,1,59⟩,place .kDebug,[[66]]⟩,some 0),
      (⟨7,0,⟨124,8,27,11,1,59⟩,place .kInfo,[[65],[67]]⟩,some 1)] := by
  decide +kernel

theorem interleaved_inline : ∀ move ∈ interleaved, move.Inline := by
  simp [interleaved,Move.Inline,place_inline,newline]

theorem log_lines_interleaved :
    ∃ final, exec interleaved quiet = some final ∧ final.ended.map Prod.snd = [some 0,some 1] ∧
      ∀ file, completeLines (final.files.text file) =
        completeLines (quiet.files.text file) ++ (linesIn file final.ended).map Statement.printed := by
  obtain ⟨final,ran,ended⟩ := Option.map_eq_some_iff.mp interleaved_ended
  refine ⟨final,ran,by rw [ended]; rfl,fun file => ?_⟩
  exact (log_lines quiet final quiet_ready interleaved ran file).2 interleaved_inline (Or.inl rfl)

end Tmms.Base.Logging
