import ServerCore.Database.DBLoadBalancer
import ServerCore.Framework.Machine

namespace ServerCore.Database

open Framework

def bulkDequeueDBCount : ℕ := 300

/-- Memory of the database threads. `LEndTickCount` is a natural number, since these threads
assign it only a clock that runs from 1970 on plus the unsigned `DBRECONNECTTIME`. The last three
tables are history: the requests that `Push` has counted, those whose handler was called, and
whether an `Execute` has returned at a count of zero with no request counted since. -/
structure Mem (T X : Type) where
  balancer : DBLoadBalancer T X
  LEndTickCount : T → ℕ
  pushed : ℕ → ConcurrentQueue T (DBQueueData X)
  handled : ℕ → ConcurrentQueue T (DBQueueData X)
  drained : ℕ → Bool

/-- Positions inside `Push`, `Execute` and the loop that `Launch` gives to a thread. A service
is named by its place in `mServiceList`. -/
inductive Frame (T X : Type) where
  /-- `DBLoadBalancer::Push` called. -/
  | balance (workId : Int) (protocolId : ℕ) (data : Option (DBData X)) (handler : DBHandler)
  | balanceData (data : Option (DBData X)) (handler : DBHandler)
  /-- `DBService::Push` called. -/
  | push (i : ℕ) (protocolId : ℕ) (data : Option (DBData X)) (handler : DBHandler)
  | enqueue (i : ℕ) (job : DBQueueData X)
  /-- Head of the loop of `Execute`: `mQueueCount == 0` is next. -/
  | execute (i : ℕ)
  | dequeue (i : ℕ)
  /-- Between two requests of a batch of `jobCount`; after the last, `fetch_sub`. -/
  | batch (i : ℕ) (jobCount : ℕ) (jobs : List (T × DBQueueData X))
  /-- Inside a handler; `jobs` wait for it. -/
  | handling (i : ℕ) (jobCount : ℕ) (jobs : List (T × DBQueueData X))
  /-- Head of the loop of `Launch`: `GetDBSession() == nullptr` is next. -/
  | launch (i : ℕ)
  | isConnected (i : ℕ)
  /-- `LEndTickCount < GetTick64()` is next. -/
  | tickTest (i : ℕ)
  | reconnect (i : ℕ)
  | backOff (i : ℕ)
  /-- `service.Execute()` is next; `connected` is what the iteration's test has read. -/
  | work (i : ℕ) (connected : Bool)
  | sleep (i : ℕ) (connected : Bool)
  deriving DecidableEq

inductive Choice (T X : Type) where
  | go
  | callBalance (workId : Int) (protocolId : ℕ) (data : Option (DBData X)) (handler : DBHandler)
  | callBalanceData (data : Option (DBData X)) (handler : DBHandler)
  | callPush (i : ℕ) (protocolId : ℕ) (data : Option (DBData X)) (handler : DBHandler)
  | callExecute (i : ℕ)
  | callLaunch (i : ℕ)
  /-- The producers whose oldest requests a bulk dequeue returns. -/
  | take (producers : List T)
  | clock (now : ℕ)
  | result (ok : Bool)
  | lose (i : ℕ)
  deriving DecidableEq

namespace Mem

variable {T X : Type}

/-- After `DBLoadBalancer::Init`. -/
def init (b : DBLoadBalancer T X) : Mem T X :=
  ⟨b, fun _ => 0, fun _ => [], fun _ => [], fun _ => false⟩

def service (s : Mem T X) (i : ℕ) : DBService T X := s.balancer.service i

def set (s : Mem T X) (i : ℕ) (d : DBService T X) : Mem T X :=
  { s with balancer := { s.balancer with service := Function.update s.balancer.service i d } }

/-- `mQueueCount.fetch_add(1)`. -/
def fetchAdd (s : Mem T X) (t : T) (i : ℕ) (job : DBQueueData X) : Mem T X :=
  { s.set i { s.service i with mQueueCount := (s.service i).mQueueCount + 1 } with
    pushed := Function.update s.pushed i ((s.pushed i).enqueue t job)
    drained := Function.update s.drained i false }

/-- `mDBQueue.enqueue(job)`. -/
def enqueueJob (s : Mem T X) (t : T) (i : ℕ) (job : DBQueueData X) : Mem T X :=
  s.set i { s.service i with mDBQueue := (s.service i).mDBQueue.enqueue t job }

/-- The effect of a bulk dequeue that left `rest`. -/
def dequeued (s : Mem T X) (i : ℕ) (rest : ConcurrentQueue T (DBQueueData X)) : Mem T X :=
  s.set i { s.service i with mDBQueue := rest }

def handle (s : Mem T X) (i : ℕ) (job : T × DBQueueData X) : Mem T X :=
  { s with handled := Function.update s.handled i (s.handled i ++ [job]) }

/-- `mQueueCount.fetch_sub(jobCount)`. -/
def fetchSub (s : Mem T X) (i : ℕ) (jobCount : ℕ) : Mem T X :=
  s.set i { s.service i with mQueueCount := (s.service i).mQueueCount - jobCount }

/-- `Execute` returns because it has found the count at zero. -/
def returnAtZero (s : Mem T X) (i : ℕ) : Mem T X :=
  { s with drained := Function.update s.drained i true }

end Mem

section Steps

variable {T X : Type}

/-- The call into `mServiceList`; a subscript outside of it leads nowhere. -/
def callPushed (b : DBLoadBalancer T X) : Pushed X → Option (List (Frame T X))
  | .refused => some []
  | .divided => none
  | .called i protocolId data handler =>
      if 0 ≤ i ∧ i < (b.mServiceList.getD 0 : ℕ) then
        some [.push i.toNat protocolId data handler]
      else none

/-- One step of `DBLoadBalancer::Push` or `DBService::Push`. -/
def pushStep (s : Mem T X) (t : T) : Frame T X → Option (Mem T X × List (Frame T X))
  | .balance workId protocolId data handler =>
      (callPushed s.balancer (s.balancer.Push workId protocolId data handler)).map fun r => (s, r)
  | .balanceData data handler =>
      (callPushed s.balancer (s.balancer.PushData data handler)).map fun r => (s, r)
  | .push _ _ none _ => some (s, [])
  | .push i protocolId (some data) handler =>
      some (s.fetchAdd t i ⟨protocolId, data, handler⟩, [.enqueue i ⟨protocolId, data, handler⟩])
  | .enqueue i job => some (s.enqueueJob t i job, [])
  | _ => none

variable [DecidableEq T]

/-- One step of `DBService::Execute`. `HandleData` throws when no function is registered;
a handler may push whatever it likes before it returns. -/
def executeStep (s : Mem T X) :
    Frame T X → Choice T X → Option (Mem T X × List (Frame T X))
  | .execute i, .go =>
      if (s.service i).mQueueCount = 0 then some (s.returnAtZero i, [])
      else some (s, [.dequeue i])
  | .dequeue i, .take producers =>
      if producers.length ≤ bulkDequeueDBCount then
        (ConcurrentQueue.takeBulk producers (s.service i).mDBQueue).map fun r =>
          (s.dequeued i r.2, [.batch i producers.length r.1])
      else none
  | .batch i jobCount (job :: jobs), .go =>
      if job.2.ProtocolId ∈ job.2.handler.mDBHandlerList then
        some (s.handle i job, [.handling i jobCount jobs])
      else none
  | .handling i jobCount jobs, .callBalance workId protocolId data handler =>
      some (s, [.balance workId protocolId data handler, .handling i jobCount jobs])
  | .handling i jobCount jobs, .callBalanceData data handler =>
      some (s, [.balanceData data handler, .handling i jobCount jobs])
  | .handling i jobCount jobs, .callPush i' protocolId data handler =>
      some (s, [.push i' protocolId data handler, .handling i jobCount jobs])
  | .handling i jobCount jobs, .go => some (s, [.batch i jobCount jobs])
  | .batch i jobCount [], .go =>
      if (s.service i).mQueueCount = jobCount then
        some ((s.fetchSub i jobCount).returnAtZero i, [])
      else some (s.fetchSub i jobCount, [.execute i])
  | _, _ => none

/-- One step of the loop that `DBLoadBalancer::Launch` gives to the thread of service `i`. -/
def launchStep (s : Mem T X) (t : T) :
    Frame T X → Choice T X → Option (Mem T X × List (Frame T X))
  | .launch i, .go =>
      if (s.service i).mSession = none then some (s, [.launch i]) else some (s, [.isConnected i])
  | .isConnected i, .go =>
      match (s.service i).mSession with
      | none => none
      | some connected => some (s, [if connected then .work i connected else .tickTest i])
  | .tickTest i, .clock now =>
      if s.LEndTickCount t < now then some (s, [.reconnect i]) else some (s, [.work i false])
  | .reconnect i, .result ok =>
      some (s.set i ((s.service i).Connect s.balancer.mConnectionString ok).2, [.backOff i])
  | .backOff i, .clock now =>
      some ({ s with
        LEndTickCount := Function.update s.LEndTickCount t ((now + dbReconnectTime) % 2 ^ 64) },
        [.launch i])
  | .work i connected, .go => some (s, [.execute i, .sleep i connected])
  | .sleep i _, .go => some (s, [.launch i])
  | _, _ => none

def step (s : Mem T X) (t : T) (f : Frame T X) (c : Choice T X) :
    Option (Mem T X × List (Frame T X)) :=
  match f with
  | .balance .. | .balanceData .. | .push .. | .enqueue .. =>
      match c with
      | .go => pushStep s t f
      | _ => none
  | .execute .. | .dequeue .. | .batch .. | .handling .. => executeStep s f c
  | _ => launchStep s t f c

/-- A thread that is inside no function calls `Push`; the thread of a service calls `Execute`
or starts the loop of `Launch`. -/
def enter (worker : ℕ → T) (s : Mem T X) (frames : T → List (Frame T X)) (t : T) :
    Choice T X → Option (Mem T X × Frame T X)
  | .callBalance workId protocolId data handler =>
      if (frames t).isEmpty then some (s, .balance workId protocolId data handler) else none
  | .callBalanceData data handler =>
      if (frames t).isEmpty then some (s, .balanceData data handler) else none
  | .callPush i protocolId data handler =>
      if (frames t).isEmpty then some (s, .push i protocolId data handler) else none
  | .callExecute i =>
      if (frames t).isEmpty ∧ worker i = t then some (s, .execute i) else none
  | .callLaunch i =>
      if (frames t).isEmpty ∧ worker i = t ∧ (i : Int) < s.balancer.mServiceCount then
        some (s, .launch i)
      else none
  | _ => none

/-- A connection is lost. -/
def env (s : Mem T X) : Choice T X → Option (Mem T X)
  | .lose i => some (s.set i { s.service i with
      mSession := (s.service i).mSession.map fun _ => false })
  | _ => none

/-- Any number of threads that push, and for every service the one thread `worker` names. -/
def machine (worker : ℕ → T) : Machine T (Mem T X) (Frame T X) (Choice T X) :=
  ⟨enter worker, step, env⟩

/-- After an `Init`, whichever services connected. -/
def start (connect : ℕ → Bool) (connectionString : String) (serviceCount : Int) :
    Conf T (Mem T X) (Frame T X) :=
  ⟨.init (DBLoadBalancer.Init connect connectionString serviceCount .construct).2, fun _ => []⟩

end Steps

end ServerCore.Database
