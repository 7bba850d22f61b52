import ServerCore.Framework.ConcurrentQueue
import ServerCore.Framework.Machine

namespace ServerCore.Jobs

open Framework

def bulkDequeueJobCount : ℕ := 1000

/-- Memory of the job system: the fields of every `JobQueue`, `GlobalQueue::mJobQueues`
and the thread locals. The `int32_t` of `mJobCount` does not wrap: fewer than `2 ^ 31` jobs of a
queue are pending. `LEndTickCount` is any number, since the clock of a thread may show any. The
last three tables are history: the jobs for which `Push` was called, the jobs handed out by
`mJobQueue` and the jobs whose body was started. -/
structure Mem (T Q J : Type) where
  mJobCount : Q → Int
  mJobQueue : Q → ConcurrentQueue T J
  mJobQueues : ConcurrentQueue T Q
  LCurrentJobQueue : T → Option Q
  LEndTickCount : T → Int
  pushed : Q → ConcurrentQueue T J
  taken : Q → ConcurrentQueue T J
  ran : Q → ConcurrentQueue T J

/-- Positions inside `JobQueue::Push`, `JobQueue::Execute` and `DoGlobalJobs`. -/
inductive Frame (T Q J : Type) where
  /-- `Push` called; `mJobCount.fetch_add(1)` is next. -/
  | push (q : Q) (job : J) (pushOnly : Bool)
  | enqueue (q : Q) (job : J) (pushOnly : Bool) (prevCount : Int)
  /-- The test `prevCount == 0`. -/
  | decide (q : Q) (pushOnly : Bool) (prevCount : Int)
  /-- `GlobalQueue::Push(shared_from_this())` is next. -/
  | handOver (q : Q)
  /-- `Execute` called; `LCurrentJobQueue = this` is next. -/
  | execute (q : Q)
  /-- Head of the loop: `try_dequeue_bulk` is next. -/
  | drain (q : Q)
  /-- Between two jobs of a batch of `jobCount`; after the last, `fetch_sub`. -/
  | batch (q : Q) (jobCount : ℕ) (jobs : List (T × J))
  /-- Inside a job body; `jobs` wait for it. -/
  | running (q : Q) (jobCount : ℕ) (jobs : List (T × J))
  /-- `now >= LEndTickCount` is next. -/
  | timeCheck (q : Q)
  /-- Head of the loop of `DoGlobalJobs`. -/
  | globalJobs
  | globalPop
  /-- `jobQueue->Execute()` is next. -/
  | globalFound (q : Q)
  deriving DecidableEq

inductive Choice (T Q J : Type) where
  | go
  | callPush (q : Q) (job : J) (pushOnly : Bool)
  | callGlobalJobs
  /-- The producers whose oldest jobs a bulk dequeue returns. -/
  | take (producers : List T)
  | pop (producer : Option T)
  | clock (now : Int)
  | setEndTick (t : T) (tick : Int)
  deriving DecidableEq

namespace Mem

variable {T Q J : Type} [DecidableEq T] [DecidableEq Q]

def init : Mem T Q J :=
  ⟨fun _ => 0, fun _ => [], [], fun _ => none, fun _ => 0, fun _ => [], fun _ => [], fun _ => []⟩

/-- `mJobCount.fetch_add(1)`. -/
def fetchAdd (s : Mem T Q J) (t : T) (q : Q) (job : J) : Mem T Q J :=
  { s with
    mJobCount := Function.update s.mJobCount q (s.mJobCount q + 1)
    pushed := Function.update s.pushed q ((s.pushed q).enqueue t job) }

/-- `mJobQueue.enqueue(job)`. -/
def enqueueJob (s : Mem T Q J) (t : T) (q : Q) (job : J) : Mem T Q J :=
  { s with mJobQueue := Function.update s.mJobQueue q ((s.mJobQueue q).enqueue t job) }

/-- `GlobalQueue::Push`. -/
def globalPush (s : Mem T Q J) (t : T) (q : Q) : Mem T Q J :=
  { s with mJobQueues := s.mJobQueues.enqueue t q }

def setCurrent (s : Mem T Q J) (t : T) (q : Option Q) : Mem T Q J :=
  { s with LCurrentJobQueue := Function.update s.LCurrentJobQueue t q }

/-- The effect of a bulk dequeue that returned `jobs` and left `rest`. -/
def dequeued (s : Mem T Q J) (q : Q) (jobs rest : ConcurrentQueue T J) : Mem T Q J :=
  { s with
    mJobQueue := Function.update s.mJobQueue q rest
    taken := Function.update s.taken q (s.taken q ++ jobs) }

def startJob (s : Mem T Q J) (q : Q) (job : T × J) : Mem T Q J :=
  { s with ran := Function.update s.ran q (s.ran q ++ [job]) }

/-- `mJobCount.fetch_sub(jobCount)`. -/
def fetchSub (s : Mem T Q J) (q : Q) (jobCount : ℕ) : Mem T Q J :=
  { s with mJobCount := Function.update s.mJobCount q (s.mJobCount q - jobCount) }

end Mem

variable {T Q J : Type} [DecidableEq T] [DecidableEq Q]

/-- One step of `JobQueue::Push`. -/
def pushStep (s : Mem T Q J) (t : T) : Frame T Q J → Option (Mem T Q J × List (Frame T Q J))
  | .push q job pushOnly => some (s.fetchAdd t q job, [.enqueue q job pushOnly (s.mJobCount q)])
  | .enqueue q job pushOnly prevCount =>
      some (s.enqueueJob t q job, [.decide q pushOnly prevCount])
  | .decide q pushOnly prevCount =>
      if prevCount = 0 then
        if s.LCurrentJobQueue t = none ∧ pushOnly = false then some (s, [.execute q])
        else some (s, [.handOver q])
      else some (s, [])
  | .handOver q => some (s.globalPush t q, [])
  | _ => none

/-- One step of `JobQueue::Execute`. A job body pushes whatever it likes and returns. -/
def executeStep (s : Mem T Q J) (t : T) :
    Frame T Q J → Choice T Q J → Option (Mem T Q J × List (Frame T Q J))
  | .execute q, .go => some (s.setCurrent t (some q), [.drain q])
  | .drain q, .take producers =>
      if producers.length ≤ bulkDequeueJobCount then
        (ConcurrentQueue.takeBulk producers (s.mJobQueue q)).map fun r =>
          (s.dequeued q r.1 r.2, [.batch q producers.length r.1])
      else none
  | .batch q jobCount (job :: jobs), .go => some (s.startJob q job, [.running q jobCount jobs])
  | .running q jobCount jobs, .callPush q' job pushOnly =>
      some (s, [.push q' job pushOnly, .running q jobCount jobs])
  | .running q jobCount jobs, .go => some (s, [.batch q jobCount jobs])
  | .batch q jobCount [], .go =>
      if s.mJobCount q = jobCount then some ((s.fetchSub q jobCount).setCurrent t none, [])
      else some (s.fetchSub q jobCount, [.timeCheck q])
  | .timeCheck q, .clock now =>
      if s.LEndTickCount t ≤ now then some (s.setCurrent t none, [.handOver q])
      else some (s, [.drain q])
  | _, _ => none

/-- One step of `ThreadManager::DoGlobalJobs`, with `GlobalQueue::Pop`. -/
def globalJobsStep (s : Mem T Q J) (t : T) :
    Frame T Q J → Choice T Q J → Option (Mem T Q J × List (Frame T Q J))
  | .globalJobs, .clock now =>
      if s.LEndTickCount t < now then some (s, []) else some (s, [.globalPop])
  | .globalPop, .pop none => some (s, [])
  | .globalPop, .pop (some p) =>
      (ConcurrentQueue.takeFrom p s.mJobQueues).map fun r =>
        ({ s with mJobQueues := r.2 }, [.globalFound r.1])
  | .globalFound q, .go => some (s, [.execute q, .globalJobs])
  | _, _ => none

def step (s : Mem T Q J) (t : T) (f : Frame T Q J) (c : Choice T Q J) :
    Option (Mem T Q J × List (Frame T Q J)) :=
  match f with
  | .push .. | .enqueue .. | .decide .. | .handOver .. =>
      match c with
      | .go => pushStep s t f
      | _ => none
  | .execute .. | .drain .. | .batch .. | .running .. | .timeCheck .. => executeStep s t f c
  | .globalJobs | .globalPop | .globalFound .. => globalJobsStep s t f c

/-- A thread that is inside neither function calls `Push` or `DoGlobalJobs`. -/
def enter (s : Mem T Q J) (frames : T → List (Frame T Q J)) (t : T) :
    Choice T Q J → Option (Mem T Q J × Frame T Q J)
  | .callPush q job pushOnly =>
      if (frames t).isEmpty then some (s, .push q job pushOnly) else none
  | .callGlobalJobs => if (frames t).isEmpty then some (s, .globalJobs) else none
  | _ => none

/-- `LEndTickCount` of a thread is assigned between its calls, to any value. -/
def env (s : Mem T Q J) : Choice T Q J → Option (Mem T Q J)
  | .setEndTick t tick =>
      some { s with LEndTickCount := Function.update s.LEndTickCount t tick }
  | _ => none

/-- Any number of threads in `JobQueue::Push`, `JobQueue::Execute` and `DoGlobalJobs`. -/
def machine : Machine T (Mem T Q J) (Frame T Q J) (Choice T Q J) := ⟨enter, step, env⟩

def start : Conf T (Mem T Q J) (Frame T Q J) := ⟨.init, fun _ => []⟩

/-- States that some interleaving reaches. -/
def Reachable (s : Conf T (Mem T Q J) (Frame T Q J)) : Prop :=
  machine.Reach (fun _ _ => True) start s

end ServerCore.Jobs
