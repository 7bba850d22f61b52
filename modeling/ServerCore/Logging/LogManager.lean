import ServerCore.Framework.Machine
import Mathlib.Data.List.Count

namespace ServerCore.Logging

open Framework

inductive LogType where
  | info
  | warning
  | error
  deriving DecidableEq

structure LogStruct where
  lv : LogType
  time : Int
  log : String
  write : Bool
  deriving DecidableEq

/-- A line in `_logs`, numbered in the order of the pushes. -/
structure Entry where
  number : ℕ
  line : LogStruct
  deriving DecidableEq

/-- The two loops over `try_pop`: that of the thread `Launch` starts, and the destructor's. -/
inductive Caller where
  | launch
  | destructor
  deriving DecidableEq

/-- A line that was popped, with the number of lines pushed until then. -/
structure Popped where
  caller : Caller
  entry : Entry
  pushes : ℕ
  deriving DecidableEq

/-- A line as a logger gets it; times are in milliseconds. -/
structure Printed where
  lv : LogType
  time : Int
  log : String
  deriving DecidableEq

/-- `LogManager` and its two loggers. `_logger` tells whether `Initialize` could make one, and
`_offset` is in seconds. `console` and `file` are what the default logger and `_logger` got,
`flushed` how much of it was flushed. The last four fields are history. -/
structure LogManager where
  logger : Bool
  offset : Int
  logs : List Entry
  console : List Printed
  file : List Printed
  flushed : ℕ
  pushed : List LogStruct
  popped : List Popped
  viewed : List LogStruct
  written : List LogStruct
  deriving DecidableEq

inductive Frame where
  /-- `GetTick64` is next. -/
  | log (lv : LogType) (view write : Bool) (log : String)
  | push (line : LogStruct)
  | tryPop (caller : Caller)
  | view (caller : Caller) (line : LogStruct)
  | write (caller : Caller) (line : LogStruct)
  | sleep
  deriving DecidableEq

inductive Choice where
  | go
  | callLog (lv : LogType) (view write : Bool) (log : String)
  | callLaunch
  | callDestructor
  | clock (now : Int)
  /-- The place in `_logs` of the line that `try_pop` returns, if any. -/
  | pop (i : Option ℕ)
  deriving DecidableEq

namespace LogManager

/-- After `Initialize`. -/
def init (logger : Bool) (offset : Int) : LogManager :=
  ⟨logger, offset, [], [], [], 0, [], [], [], []⟩

/-- The line as the private `Log` hands it to a logger. -/
def print (m : LogManager) (line : LogStruct) : Printed :=
  ⟨line.lv, line.time - m.offset * 1000, line.log⟩

/-- `_logs.push`. -/
def push (m : LogManager) (line : LogStruct) : LogManager :=
  { m with logs := m.logs ++ [⟨m.pushed.length, line⟩], pushed := m.pushed ++ [line] }

/-- What `try_pop` leaves when it returns `e`. -/
def pop (m : LogManager) (caller : Caller) (e : Entry) : LogManager :=
  { m with
    logs := m.logs.erase e
    popped := m.popped ++ [⟨caller, e, m.pushed.length⟩] }

/-- `View`. -/
def view (m : LogManager) (line : LogStruct) : LogManager :=
  { m with console := m.console ++ [m.print line], viewed := m.viewed ++ [line] }

/-- `Write`, which goes to the default logger when there is no `_logger`. An error is flushed. -/
def write (m : LogManager) (line : LogStruct) : LogManager :=
  if m.logger then
    { m with
      file := m.file ++ [m.print line]
      flushed := if line.lv = .error then m.file.length + 1 else m.flushed
      written := m.written ++ [line] }
  else { m with console := m.console ++ [m.print line], written := m.written ++ [line] }

end LogManager

/-- Where the loops go on with a popped line: only that of `Launch` skips empty ones. -/
def afterPop (caller : Caller) (line : LogStruct) : Frame :=
  if caller = .launch ∧ line.log = "" then .tryPop caller else .view caller line

def afterView (caller : Caller) (line : LogStruct) : Frame :=
  if line.write then .write caller line else .tryPop caller

variable {T : Type}

/-- One step of a thread. `concurrent_priority_queue` returns a line with the least time. -/
def step (m : LogManager) (_t : T) : Frame → Choice → Option (LogManager × List Frame)
  | .log lv _ write log, .clock now => some (m, [.push ⟨lv, now, log, write⟩])
  | .push line, .go => some (m.push line, [])
  | .tryPop caller, .pop none =>
      if m.logs = [] then
        match caller with
        | .launch => some (m, [.sleep])
        | .destructor => some (m, [])
      else none
  | .tryPop caller, .pop (some i) =>
      match m.logs[i]? with
      | none => none
      | some e =>
          if ∀ y ∈ m.logs, e.line.time ≤ y.line.time then
            some (m.pop caller e, [afterPop caller e.line])
          else none
  | .view caller line, .go => some (m.view line, [afterView caller line])
  | .write caller line, .go => some (m.write line, [.tryPop caller])
  | .sleep, .go => some (m, [.tryPop .launch])
  | _, _ => none

/-- A thread that does nothing else calls `Log`, is the one that `Launch` starts, or destroys the
manager. -/
def enter (m : LogManager) (frames : T → List Frame) (t : T) : Choice → Option (LogManager × Frame)
  | .callLog lv view write log =>
      if frames t = [] then some (m, .log lv view write log) else none
  | .callLaunch => if frames t = [] then some (m, .tryPop .launch) else none
  | .callDestructor => if frames t = [] then some (m, .tryPop .destructor) else none
  | _ => none

def machine : Machine T LogManager Frame Choice := ⟨enter, step, fun _ _ => none⟩

abbrev LogConf (T : Type) : Type := Conf T LogManager Frame

def start (logger : Bool) (offset : Int) : LogConf T := ⟨.init logger offset, fun _ => []⟩

/-- All that one step of a thread can do. -/
inductive LogStep (m : LogManager) : Frame → LogManager → List Frame → Prop where
  | clock (lv view write log now) :
      LogStep m (.log lv view write log) m [.push ⟨lv, now, log, write⟩]
  | push (line) : LogStep m (.push line) (m.push line) []
  | sleep : m.logs = [] → LogStep m (.tryPop .launch) m [.sleep]
  | done : m.logs = [] → LogStep m (.tryPop .destructor) m []
  | pop (caller e) : e ∈ m.logs → (∀ y ∈ m.logs, e.line.time ≤ y.line.time) →
      LogStep m (.tryPop caller) (m.pop caller e) [afterPop caller e.line]
  | view (caller line) : LogStep m (.view caller line) (m.view line) [afterView caller line]
  | write (caller line) : LogStep m (.write caller line) (m.write line) [.tryPop caller]
  | wake : LogStep m .sleep m [.tryPop .launch]

variable {m m' : LogManager} {t : T} {f : Frame} {c : Choice} {new : List Frame}

theorem step_spec (h : step m t f c = some (m', new)) : LogStep m f m' new := by
  cases f with
  | log lv view write log =>
    cases c with
    | clock now =>
      obtain ⟨rfl, rfl⟩ := Prod.mk.inj (Option.some.inj h)
      exact .clock lv view write log now
    | _ => exact absurd h.symm (Option.some_ne_none _)
  | push line =>
    cases c with
    | go =>
      obtain ⟨rfl, rfl⟩ := Prod.mk.inj (Option.some.inj h)
      exact .push line
    | _ => exact absurd h.symm (Option.some_ne_none _)
  | tryPop caller =>
    cases c with
    | pop i =>
      cases i with
      | none =>
        simp only [step] at h
        split at h
        · next hempty =>
          cases caller with
          | launch =>
            obtain ⟨rfl, rfl⟩ := Prod.mk.inj (Option.some.inj h)
            exact .sleep hempty
          | destructor =>
            obtain ⟨rfl, rfl⟩ := Prod.mk.inj (Option.some.inj h)
            exact .done hempty
        · exact absurd h.symm (Option.some_ne_none _)
      | some i =>
        simp only [step] at h
        split at h
        · exact absurd h.symm (Option.some_ne_none _)
        next e he =>
        split at h
        · next hleast =>
          obtain ⟨rfl, rfl⟩ := Prod.mk.inj (Option.some.inj h)
          exact .pop caller e (List.mem_of_getElem? he) hleast
        · exact absurd h.symm (Option.some_ne_none _)
    | _ => exact absurd h.symm (Option.some_ne_none _)
  | view caller line =>
    cases c with
    | go =>
      obtain ⟨rfl, rfl⟩ := Prod.mk.inj (Option.some.inj h)
      exact .view caller line
    | _ => exact absurd h.symm (Option.some_ne_none _)
  | write caller line =>
    cases c with
    | go =>
      obtain ⟨rfl, rfl⟩ := Prod.mk.inj (Option.some.inj h)
      exact .write caller line
    | _ => exact absurd h.symm (Option.some_ne_none _)
  | sleep =>
    cases c with
    | go =>
      obtain ⟨rfl, rfl⟩ := Prod.mk.inj (Option.some.inj h)
      exact .wake
    | _ => exact absurd h.symm (Option.some_ne_none _)

end ServerCore.Logging
