import ServerCore.Network.SessionSystem

namespace ServerCore.Network

open Framework

/-- The value of `RIODequeueCompletion` for a corrupt queue. -/
def rioCorruptCQ : ℕ := 2 ^ 32 - 1

def rioIocpCompletion : ℕ := 2

def waitTimeout : ℕ := 258

/-- A `RIONotifyEvent`, or the context of an operation on a socket; the latter may lack its
`mDispatcher`. -/
inductive IocpContext (Q : Type) where
  | notify (q : Q)
  | operation (mDispatcher : Bool)
  deriving DecidableEq

structure IocpPacket (Q : Type) where
  key : ℕ
  iocpContext : Option (IocpContext Q)
  deriving DecidableEq

/-- The packet that the `notify` of a `RIONotifyEvent` asks for. -/
def notification {Q : Type} (q : Q) : IocpPacket Q := ⟨rioIocpCompletion, some (.notify q)⟩

/-- The completion queues `Q` of a service and its port. A queue is armed from `RIONotify` until
its packet is posted. -/
structure DispatchMem (Q R : Type) where
  created : List Q
  waiting : Q → List R
  corrupt : Q → Bool
  armed : Q → Bool
  packets : List (IocpPacket Q)
  mService : Q → Bool
  mRioCQEventList : List Q

/-- Positions inside `IocpHandler::ProcessDispatch`, `Service::Dispatch` and
`ListenerService::CreateRIOCQ`. -/
inductive DispatchFrame (Q R : Type) where
  /-- `GetQueuedCompletionStatus` is next. -/
  | processDispatch
  /-- It returned `TRUE`. -/
  | succeeded (packet : IocpPacket Q)
  /-- It returned `FALSE`; without a packet `iocpContext` is still `nullptr`. -/
  | failed (errorCode : ℕ) (packet : Option (IocpPacket Q))
  /-- `Service::Dispatch` called; `RIODequeueCompletion` is next. -/
  | dispatch (q : Q)
  /-- Inside `RIODequeueCompletion`. -/
  | dequeuing (q : Q)
  /-- `RIONotify` is next. -/
  | notify (q : Q) (numResult : ℕ) (results : List R)
  /-- `numResult == 0 || numResult == RIO_CORRUPT_CQ` is next. -/
  | check (numResult : ℕ) (results : List R)
  /-- Head of the loop over the results. -/
  | deliver (results : List R)
  /-- Inside the `Dispatch` of an `IDispatcher`. -/
  | dispatcher
  /-- `RIOCreateCompletionQueue` is next. -/
  | createRIOCQ
  /-- `RIONotify` is next in `CreateRIOCQ`. -/
  | arm (q : Q)
  | setService (q : Q)
  /-- `mRioCQEventList.push_back(event)` is next. -/
  | pushBack (q : Q)
  deriving DecidableEq

inductive DispatchChoice (Q R : Type) where
  | go
  | callProcessDispatch
  | callCreateRIOCQ
  | timeOut
  | succeed (packet : IocpPacket Q)
  | fail (errorCode : ℕ) (packet : IocpPacket Q)
  /-- The number of results that `RIODequeueCompletion` hands out. -/
  | dequeue (numResult : ℕ)
  | create (q : Option Q)
  /-- Whether `RIONotify` returns `ERROR_SUCCESS`. -/
  | notified (ok : Bool)
  /-- A completion arrives in a queue. -/
  | complete (q : Q) (result : R)
  | corrupt (q : Q)
  /-- A packet of another operation, that the handle's key `0` comes with. -/
  | post (iocpContext : Option Bool)
  deriving DecidableEq

variable {T Q R : Type} [DecidableEq Q]

namespace DispatchMem

def init : DispatchMem Q R :=
  ⟨[], fun _ => [], fun _ => false, fun _ => false, [], fun _ => false, []⟩

def post (s : DispatchMem Q R) (packet : IocpPacket Q) : DispatchMem Q R :=
  { s with packets := packet :: s.packets }

/-- `RIONotify`: posts at once if the queue is not empty, and else when it no longer is. A
second call before that fails. -/
def rioNotify (s : DispatchMem Q R) (q : Q) : DispatchMem Q R :=
  if s.armed q then s
  else if (s.waiting q).isEmpty then { s with armed := Function.update s.armed q true }
  else s.post (notification q)

/-- A completion arrives in `q`. -/
def complete (s : DispatchMem Q R) (q : Q) (result : R) : DispatchMem Q R :=
  let s' := { s with waiting := Function.update s.waiting q (s.waiting q ++ [result]) }
  if s.armed q then { s' with armed := Function.update s.armed q false }.post (notification q)
  else s'

/-- `service->Dispatch(event)`, for an event that has its `mService`. -/
def serviceDispatch (s : DispatchMem Q R) :
    IocpContext Q → Option (DispatchMem Q R × List (DispatchFrame Q R))
  | .notify q => if s.mService q then some (s, [.dispatch q]) else none
  | .operation _ => none

end DispatchMem

/-- A `RIONotifyEvent` has no `mDispatcher`. -/
def IocpContext.mDispatcher : IocpContext Q → Bool
  | .notify _ => false
  | .operation mDispatcher => mDispatcher

/-- One step of `ProcessDispatch`. -/
def processDispatchStep (s : DispatchMem Q R) : DispatchFrame Q R → DispatchChoice Q R →
    Option (DispatchMem Q R × List (DispatchFrame Q R))
  | .processDispatch, .timeOut => some (s, [.failed waitTimeout none])
  | .processDispatch, .succeed packet =>
      if packet ∈ s.packets then
        some ({ s with packets := s.packets.erase packet }, [.succeeded packet])
      else none
  | .processDispatch, .fail errorCode packet =>
      if packet ∈ s.packets ∧ errorCode ≠ waitTimeout then
        some ({ s with packets := s.packets.erase packet }, [.failed errorCode (some packet)])
      else none
  | .succeeded packet, .go =>
      match packet.iocpContext with
      | none => some (s, [])
      | some iocpContext =>
          if packet.key = rioIocpCompletion then s.serviceDispatch iocpContext
          else some (s, if iocpContext.mDispatcher then [.dispatcher] else [])
  | .failed errorCode packet, .go =>
      if errorCode = waitTimeout then some (s, [])
      else
        match packet.bind fun p => p.iocpContext.map fun c => (p.key, c) with
        | none => none
        | some (key, iocpContext) =>
            if key = rioIocpCompletion then s.serviceDispatch iocpContext
            else if iocpContext.mDispatcher then some (s, [.dispatcher]) else none
  | .dispatcher, .go => some (s, [])
  | _, _ => none

/-- One step of `Service::Dispatch`. -/
def serviceDispatchStep (s : DispatchMem Q R) : DispatchFrame Q R → DispatchChoice Q R →
    Option (DispatchMem Q R × List (DispatchFrame Q R))
  | .dispatch q, .go => some (s, [.dequeuing q])
  | .dequeuing q, .dequeue numResult =>
      if s.corrupt q then some (s, [.notify q rioCorruptCQ []])
      else if numResult ≤ rioDispatchResultCount ∧ numResult ≤ (s.waiting q).length then
        some ({ s with waiting := Function.update s.waiting q ((s.waiting q).drop numResult) },
          [.notify q numResult ((s.waiting q).take numResult)])
      else none
  | .notify q numResult results, .go => some (s.rioNotify q, [.check numResult results])
  | .check numResult results, .go =>
      some (s, if numResult = 0 ∨ numResult = rioCorruptCQ then [] else [.deliver results])
  | .deliver [], .go => some (s, [])
  | .deliver (_ :: results), .go => some (s, [.dispatcher, .deliver results])
  | _, _ => none

/-- One step of `CreateRIOCQ`. -/
def createStep (s : DispatchMem Q R) : DispatchFrame Q R → DispatchChoice Q R →
    Option (DispatchMem Q R × List (DispatchFrame Q R))
  | .createRIOCQ, .create none => some (s, [])
  | .createRIOCQ, .create (some q) =>
      if q ∈ s.created then none else some ({ s with created := q :: s.created }, [.arm q])
  | .arm q, .notified ok => if ok then some (s.rioNotify q, [.setService q]) else some (s, [])
  | .setService q, .go =>
      some ({ s with mService := Function.update s.mService q true }, [.pushBack q])
  | .pushBack q, .go => some ({ s with mRioCQEventList := s.mRioCQEventList ++ [q] }, [])
  | _, _ => none

def dispatchStep (s : DispatchMem Q R) (_ : T) (f : DispatchFrame Q R) (c : DispatchChoice Q R) :
    Option (DispatchMem Q R × List (DispatchFrame Q R)) :=
  match f with
  | .processDispatch | .succeeded .. | .failed .. | .dispatcher => processDispatchStep s f c
  | .dispatch .. | .dequeuing .. | .notify .. | .check .. | .deliver .. => serviceDispatchStep s f c
  | .createRIOCQ | .arm .. | .setService .. | .pushBack .. => createStep s f c

/-- A thread that is inside no function calls `ProcessDispatch` or `CreateRIOCQ`. -/
def dispatchEnter (s : DispatchMem Q R) (frames : T → List (DispatchFrame Q R)) (t : T) :
    DispatchChoice Q R → Option (DispatchMem Q R × DispatchFrame Q R)
  | .callProcessDispatch => if (frames t).isEmpty then some (s, .processDispatch) else none
  | .callCreateRIOCQ => if (frames t).isEmpty then some (s, .createRIOCQ) else none
  | _ => none

/-- Only request queues of a listed completion queue complete anything. -/
def dispatchEnv (s : DispatchMem Q R) : DispatchChoice Q R → Option (DispatchMem Q R)
  | .complete q result => if q ∈ s.mRioCQEventList then some (s.complete q result) else none
  | .corrupt q => some { s with corrupt := Function.update s.corrupt q true }
  | .post iocpContext => some (s.post ⟨0, iocpContext.map .operation⟩)
  | _ => none

/-- Any number of threads over the completion queues. -/
def dispatchMachine : Machine T (DispatchMem Q R) (DispatchFrame Q R) (DispatchChoice Q R) :=
  ⟨dispatchEnter, dispatchStep, dispatchEnv⟩

abbrev DispatchConf (T Q R : Type) : Type := Conf T (DispatchMem Q R) (DispatchFrame Q R)

def dispatchStart : DispatchConf T Q R := ⟨.init, fun _ => []⟩

/-- States that some interleaving reaches. -/
def DispatchReachable [DecidableEq T] (s : DispatchConf T Q R) : Prop :=
  dispatchMachine.Reach (fun _ _ => True) dispatchStart s

end ServerCore.Network
