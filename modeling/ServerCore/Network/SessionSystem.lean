import ServerCore.Framework.Machine
import ServerCore.Network.NetworkSession
import Mathlib.Data.Finset.Basic
import Mathlib.Data.Fintype.Basic

namespace ServerCore.Network

open Framework

/-- Milestones of a session, kept as history. -/
inductive Event where
  | connectedReturned
  | connectReturned
  | disconnectedCalled
  | disconnectReturned
  deriving DecidableEq

/-- `NetworkSession`, as the class `ClientSession` extends it. The contexts of `ConnectEx` and
`DisconnectEx` are their `mDispatcher`. The fields from `bound` on are the state of the socket,
the operations outstanding on it, whether the destructor was called, and history. -/
structure Session (T S : Type) where
  mSessionID : Int
  mIsConnected : Bool
  mConnectContext : Option S
  mDisconnectContext : Option S
  recv : RecvSide S
  send : SendSide T S
  bound : Bool
  accepting : Bool
  connecting : ℕ
  disconnecting : ℕ
  destroyed : Bool
  events : List Event

/-- All sessions of one service, the two buffer pools, `Service::mSessions` with its count,
`ClientSessionManager::_sessions` and the counter of `SetSessionID`. The `int32_t` of
`mSessionCount` does not wrap: a service holds fewer than `2 ^ 31` sessions. -/
structure System (T S : Type) where
  session : S → Session T S
  recvPool : RegisteredBufferPool T
  sendPool : RegisteredBufferPool T
  mSessions : Finset S
  mSessionCount : Int
  _sessions : Finset S
  sSessionID : Int

namespace Session

variable {T S : Type}

def construct : Session T S :=
  ⟨0, false, none, none, ⟨none, ⟨none, 0, 0, 0⟩, []⟩,
    ⟨none, [], 0, false, ⟨none, 0, 0, 0⟩, [], [], []⟩, false, false, 0, 0, false, []⟩

def record (s : Session T S) (e : Event) : Session T S := { s with events := s.events ++ [e] }

def buffer (s : Session T S) : Pool → Option NetworkBuffer
  | .recv => s.recv.mRecvBuffer
  | .send => s.send.mSendBuffer

def setBuffer (s : Session T S) : Pool → Option NetworkBuffer → Session T S
  | .recv, b => { s with recv := { s.recv with mRecvBuffer := b } }
  | .send, b => { s with send := { s.send with mSendBuffer := b } }

@[simp] theorem setBuffer_recv (s : Session T S) (p : Pool) (b : Option NetworkBuffer) :
    (s.setBuffer p b).recv =
      { s.recv with mRecvBuffer := if p = .recv then b else s.recv.mRecvBuffer } := by
  cases p <;> rfl

@[simp] theorem setBuffer_send (s : Session T S) (p : Pool) (b : Option NetworkBuffer) :
    (s.setBuffer p b).send =
      { s.send with mSendBuffer := if p = .send then b else s.send.mSendBuffer } := by
  cases p <;> rfl

@[simp] theorem setBuffer_mIsConnected (s : Session T S) (p : Pool) (b : Option NetworkBuffer) :
    (s.setBuffer p b).mIsConnected = s.mIsConnected := by
  cases p <;> rfl

@[simp] theorem setBuffer_mConnectContext (s : Session T S) (p : Pool)
    (b : Option NetworkBuffer) : (s.setBuffer p b).mConnectContext = s.mConnectContext := by
  cases p <;> rfl

@[simp] theorem setBuffer_mDisconnectContext (s : Session T S) (p : Pool)
    (b : Option NetworkBuffer) : (s.setBuffer p b).mDisconnectContext = s.mDisconnectContext := by
  cases p <;> rfl

@[simp] theorem setBuffer_bound (s : Session T S) (p : Pool) (b : Option NetworkBuffer) :
    (s.setBuffer p b).bound = s.bound := by
  cases p <;> rfl

@[simp] theorem setBuffer_accepting (s : Session T S) (p : Pool) (b : Option NetworkBuffer) :
    (s.setBuffer p b).accepting = s.accepting := by
  cases p <;> rfl

@[simp] theorem setBuffer_connecting (s : Session T S) (p : Pool) (b : Option NetworkBuffer) :
    (s.setBuffer p b).connecting = s.connecting := by
  cases p <;> rfl

@[simp] theorem setBuffer_disconnecting (s : Session T S) (p : Pool) (b : Option NetworkBuffer) :
    (s.setBuffer p b).disconnecting = s.disconnecting := by
  cases p <;> rfl

@[simp] theorem setBuffer_destroyed (s : Session T S) (p : Pool) (b : Option NetworkBuffer) :
    (s.setBuffer p b).destroyed = s.destroyed := by
  cases p <;> rfl

@[simp] theorem setBuffer_events (s : Session T S) (p : Pool) (b : Option NetworkBuffer) :
    (s.setBuffer p b).events = s.events := by
  cases p <;> rfl

/-- Some context of the session, or an `AcceptContext`, holds a reference to it. -/
def held (s : Session T S) : Bool :=
  s.mConnectContext.isSome || s.mDisconnectContext.isSome ||
    s.recv.mRioRecvContext.mDispatcher.isSome || s.send.mRioSendContext.mDispatcher.isSome ||
    s.accepting

end Session

namespace System

variable {T S : Type} [DecidableEq T] [DecidableEq S]

def start (recvPool sendPool : RegisteredBufferPool T) : System T S :=
  ⟨fun _ => .construct, recvPool, sendPool, ∅, 0, ∅, 1⟩

def set (σ : System T S) (this : S) (s : Session T S) : System T S :=
  { σ with session := Function.update σ.session this s }

def pool (σ : System T S) : Pool → RegisteredBufferPool T
  | .recv => σ.recvPool
  | .send => σ.sendPool

def setPool (σ : System T S) : Pool → RegisteredBufferPool T → System T S
  | .recv, p => { σ with recvPool := p }
  | .send, p => { σ with sendPool := p }

omit [DecidableEq T] in
@[simp] theorem set_session_self (σ : System T S) (this : S) (s : Session T S) :
    (σ.set this s).session this = s := by
  simp [set]

omit [DecidableEq T] in
@[simp] theorem set_session_of_ne (σ : System T S) {this x : S} (h : x ≠ this)
    (s : Session T S) : (σ.set this s).session x = σ.session x := by
  simp [set, h]

omit [DecidableEq T] in
@[simp] theorem set_pool (σ : System T S) (this : S) (s : Session T S) (p : Pool) :
    (σ.set this s).pool p = σ.pool p := by
  cases p <;> rfl

omit [DecidableEq T] [DecidableEq S] in
@[simp] theorem setPool_session (σ : System T S) (p : Pool) (q : RegisteredBufferPool T) :
    (σ.setPool p q).session = σ.session := by
  cases p <;> rfl

omit [DecidableEq T] [DecidableEq S] in
@[simp] theorem setPool_pool_self (σ : System T S) (p : Pool) (q : RegisteredBufferPool T) :
    (σ.setPool p q).pool p = q := by
  cases p <;> rfl

omit [DecidableEq T] [DecidableEq S] in
@[simp] theorem setPool_pool_of_ne (σ : System T S) {p p' : Pool} (h : p' ≠ p)
    (q : RegisteredBufferPool T) : (σ.setPool p q).pool p' = σ.pool p' := by
  cases p <;> cases p' <;> first | exact absurd rfl h | rfl

end System

section Steps

variable {T S : Type} [DecidableEq T] [DecidableEq S]

/-- A shared pointer that is overwritten gives its buffer back. -/
def releaseFrames (pool : Pool) : Option NetworkBuffer → List (Frame T)
  | none => []
  | some b => [.destroy (.reset pool b)]

/-- What `RegisterRIOBuffer` does after an `Acquire`. -/
def afterAssign (pool : Pool) (buffer : Option NetworkBuffer) : ConnectFrame :=
  match pool, buffer with
  | .recv, some _ => .acquire .send
  | _, _ => .createRIORQ

/-- One step of `RegisterConnect` or `ProcessConnect` of session `this`. -/
def connectStep (this : S) (σ : System T S) :
    ConnectFrame → Choice T S → Option (System T S × List (Frame T))
  | .connect, .go =>
      if (σ.session this).mIsConnected then some (σ, []) else some (σ, [.connect .bind])
  | .bind, .result ok =>
      if ok = false ∨ (σ.session this).bound then some (σ, [])
      else some (σ.set this { σ.session this with bound := true }, [.connect .prepare])
  | .prepare, .go =>
      some (σ.set this { σ.session this with mConnectContext := some this }, [.connect .connectEx])
  | .connectEx, .result ok =>
      if ok then
        let s := σ.session this
        some (σ.set this { s with connecting := s.connecting + 1 }, [])
      else some (σ, [.connect .rejected])
  | .rejected, .go =>
      some (σ.set this { σ.session this with mConnectContext := none }, [])
  | .dispatch, .go =>
      if (σ.session this).mConnectContext = some this then
        some (σ, [.connect .processConnect])
      else some (σ, [])
  | .processConnect, .go =>
      some (σ.set this { σ.session this with mIsConnected := true }, [.connect .addSession])
  | .addSession, .go =>
      some ({ σ with
        mSessions := insert this σ.mSessions
        mSessionCount := σ.mSessionCount + 1 }, [.connect (.acquire .recv)])
  | .acquire pool, .go =>
      if (σ.pool pool).getFreeCount ≤ 0 then some (σ, [.connect (.assign pool none)])
      else some (σ, [.connect (.tryDequeue pool)])
  | .tryDequeue pool, .pop producer =>
      (ConcurrentQueue.takeFrom producer (σ.pool pool).mQueue).map fun r =>
        (σ.setPool pool { σ.pool pool with mQueue := r.2 }, [.connect (.useCount pool r.1)])
  | .useCount pool buffer, .go =>
      let p := σ.pool pool
      some (σ.setPool pool { p with mUseCount := p.mUseCount + 1 },
        [.connect (.assign pool (some buffer))])
  | .assign pool buffer, .go =>
      some (σ.set this ((σ.session this).setBuffer pool buffer),
        releaseFrames pool ((σ.session this).buffer pool) ++ [.connect (afterAssign pool buffer)])
  | .createRIORQ, .result ok =>
      if ok then some (σ, [.connect .setSessionID])
      else some (σ, [.disconnect (.disconnect .requestQueueCreateFail), .connect .setSessionID])
  | .setSessionID, .go =>
      some ({ σ.set this { σ.session this with mSessionID := σ.sSessionID } with
        sSessionID := toInt32 (σ.sSessionID + 1) }, [.connect .onConnected])
  | .onConnected, .go =>
      some ({ σ with _sessions := insert this σ._sessions }, [.connect .enterRoom])
  | .enterRoom, .go =>
      some (σ.set this ((σ.session this).record .connectedReturned),
        [.recv .register, .connect .returned])
  | .returned, .go => some (σ.set this ((σ.session this).record .connectReturned), [])
  | _, _ => none

/-- One step of `Disconnect`, `RegisterDisconnect` or `ProcessDisconnect` of session `this`. -/
def disconnectStep (this : S) (σ : System T S) :
    DisconnectFrame → Choice T S → Option (System T S × List (Frame T))
  | .disconnect _, .go =>
      some (σ.set this { σ.session this with mIsConnected := false },
        if (σ.session this).mIsConnected = false then [] else [.disconnect .register])
  | .register, .go =>
      some (σ.set this { σ.session this with mDisconnectContext := some this },
        [.disconnect .disconnectEx])
  | .disconnectEx, .result ok =>
      if ok then
        let s := σ.session this
        some (σ.set this { s with disconnecting := s.disconnecting + 1 }, [])
      else some (σ, [.disconnect .rejected])
  | .rejected, .go =>
      some (σ.set this { σ.session this with mDisconnectContext := none }, [])
  | .dispatch, .go =>
      if (σ.session this).mDisconnectContext = some this then
        some (σ, [.disconnect .processDisconnect])
      else some (σ, [])
  | .processDisconnect, .go =>
      let s := { σ.session this with mDisconnectContext := none }
      some (σ.set this (s.record .disconnectedCalled), [.disconnect .onDisconnected])
  | .onDisconnected, .go =>
      some ({ σ with _sessions := σ._sessions.erase this }, [.disconnect .leaveRoom])
  | .leaveRoom, .go => some (σ, [.disconnect .releaseSession])
  | .releaseSession, .go =>
      some ({ σ.set this ((σ.session this).record .disconnectReturned) with
        mSessions := σ.mSessions.erase this
        mSessionCount := σ.mSessionCount - 1 }, [])
  | _, _ => none

/-- One step of the destructor of session `this`, or of `Release` by thread `t`. -/
def destroyStep (this : S) (t : T) (σ : System T S) :
    DestroyFrame → Choice T S → Option (System T S × List (Frame T))
  | .recvBuffer, .go =>
      some (σ.set this ((σ.session this).setBuffer .recv none),
        releaseFrames .recv ((σ.session this).buffer .recv) ++ [.destroy .sendBuffer])
  | .sendBuffer, .go =>
      some (σ.set this ((σ.session this).setBuffer .send none),
        releaseFrames .send ((σ.session this).buffer .send) ++ [.destroy .packetCount])
  | .packetCount, .go =>
      let s := σ.session this
      some (σ.set this { s with send := { s.send with mPacketCount := 0 } }, [])
  | .reset pool buffer, .go => some (σ, [.destroy (.enqueue pool buffer.reset)])
  | .enqueue pool buffer, .go =>
      let p := σ.pool pool
      some (σ.setPool pool { p with mQueue := p.mQueue.enqueue t buffer },
        [.destroy (.useCount pool)])
  | .useCount pool, .go =>
      let p := σ.pool pool
      some (σ.setPool pool { p with mUseCount := p.mUseCount - 1 }, [])
  | _, _ => none

/-- A frame of a thread belongs to one session. -/
abbrev SessionFrame (T S : Type) : Type := S × Frame T

def step (σ : System T S) (t : T) (f : SessionFrame T S) (c : Choice T S) :
    Option (System T S × List (SessionFrame T S)) :=
  let this := f.1
  let s := σ.session this
  let result : Option (System T S × List (Frame T)) :=
    match f.2 with
    | .send f => (sendStep this t s.mIsConnected s.send f c).map fun r =>
        (σ.set this { s with send := r.1 }, r.2)
    | .recv f => (recvStep this s.mIsConnected s.recv f c).map fun r =>
        (σ.set this { s with recv := r.1 }, r.2)
    | .connect f => connectStep this σ f c
    | .disconnect f => disconnectStep this σ f c
    | .destroy f => destroyStep this t σ f c
  result.map fun r => (r.1, r.2.map fun g => (this, g))

/-- The frame is a callback, in which the thread may call into any session. -/
def Frame.callback : Frame T → Bool
  | .send .onSend | .recv (.onRecv _) | .connect .enterRoom | .disconnect .leaveRoom => true
  | _ => false

/-- The thread holds a reference to the session of the frame. -/
def Frame.holds : Frame T → Bool
  | .send (.dispatch _) | .recv (.dispatch _) | .connect .dispatch | .disconnect .dispatch => false
  | _ => true

def mayCall : List (SessionFrame T S) → Bool
  | [] => true
  | f :: _ => f.2.callback

def rioDispatchResultCount : ℕ := 256

/-- A completion that was dequeued, and whose context is read next. -/
def Frame.dequeued : Frame T → Bool
  | .send (.dispatch _) | .recv (.dispatch _) => true
  | _ => false

/-- The thread is in `Service::Dispatch`, which dequeues a batch of completions before it reads
the first: they wait on its stack. -/
def dequeues (frames : List (SessionFrame T S)) : Bool :=
  decide (frames.length < rioDispatchResultCount) && frames.all fun f => f.2.dequeued

/-- A thread calls a public function of a session, dispatches a completion or drops the last
reference. -/
def enter [Fintype T] (σ : System T S) (frames : T → List (SessionFrame T S)) (t : T) :
    Choice T S → Option (System T S × SessionFrame T S)
  | .callSend this buffer =>
      if mayCall (frames t) ∧ (σ.session this).destroyed = false then
        some (σ, this, .send (.send buffer))
      else none
  | .callDisconnect this =>
      if mayCall (frames t) ∧ (σ.session this).destroyed = false then
        some (σ, this, .disconnect (.disconnect .other))
      else none
  | .callConnect this =>
      if mayCall (frames t) ∧ (σ.session this).destroyed = false then
        some (σ, this, .connect .connect)
      else none
  | .accepted this =>
      let s := σ.session this
      if frames t = [] ∧ s.accepting then
        some (σ.set this { s with accepting := false }, this, .connect .processConnect)
      else none
  | .connected this =>
      let s := σ.session this
      if frames t = [] ∧ 0 < s.connecting then
        some (σ.set this { s with connecting := s.connecting - 1 }, this, .connect .dispatch)
      else none
  | .disconnected this =>
      let s := σ.session this
      if frames t = [] ∧ 0 < s.disconnecting then
        some (σ.set this { s with disconnecting := s.disconnecting - 1 }, this,
          .disconnect .dispatch)
      else none
  | .received this numOfBytes =>
      let s := σ.session this
      match s.recv.outstanding with
      | [] => none
      | region :: outstanding =>
          if dequeues (frames t) ∧ (numOfBytes : Int) ≤ region.length then
            some (σ.set this { s with recv := { s.recv with outstanding := outstanding } }, this,
              .recv (.dispatch numOfBytes))
          else none
  | .sent this numOfBytes =>
      let s := σ.session this
      match s.send.outstanding with
      | [] => none
      | post :: outstanding =>
          if dequeues (frames t) ∧ (numOfBytes : Int) ≤ post.region.length then
            some (σ.set this { s with send := { s.send with outstanding := outstanding } }, this,
              .send (.dispatch numOfBytes))
          else none
  | .destroy this =>
      let s := σ.session this
      if mayCall (frames t) ∧ s.destroyed = false ∧ s.held = false ∧ this ∉ σ.mSessions ∧
          this ∉ σ._sessions ∧ ∀ u, ∀ f ∈ frames u, f.1 = this → f.2.holds = false then
        some (σ.set this { s with destroyed := true }, this, .destroy .recvBuffer)
      else none
  | _ => none

/-- The listener posts `AcceptEx` on a fresh session, or drops it when accepting it failed. -/
def env (σ : System T S) : Choice T S → Option (System T S)
  | .acceptEx this =>
      let s := σ.session this
      if s.bound = false ∧ s.destroyed = false then
        some (σ.set this { s with bound := true, accepting := true })
      else none
  | .acceptFailed this =>
      let s := σ.session this
      if s.accepting then some (σ.set this { s with accepting := false }) else none
  | _ => none

/-- Any number of threads, callers and workers, over any number of sessions. -/
def machine [Fintype T] : Machine T (System T S) (SessionFrame T S) (Choice T S) :=
  ⟨enter, step, env⟩

/-- `BS` of the two pools. -/
def Pool.bufferSize : Pool → ℕ
  | .recv => 16384
  | .send => 32768

/-- The listener, and the loop of `Initialize` that fills a pool. -/
def startupEnv (σ : System T S) : Choice T S → Option (System T S)
  | .allocBuffer pool starter rioBuffID i =>
      let p := σ.pool pool
      let bs := pool.bufferSize
      let buffer :=
        NetworkBuffer.construct rioBuffID (toInt32 (i * bs : ℕ)) (List.replicate bs 0) bs
      some (σ.setPool pool { p with
        mQueue := p.mQueue.enqueue starter buffer
        mAllocCount := p.mAllocCount + 1 })
  | c => env σ c

/-- The sessions while the server starts up: slices come to the pools at any time. -/
def startupMachine [Fintype T] : Machine T (System T S) (SessionFrame T S) (Choice T S) :=
  ⟨enter, step, startupEnv⟩

abbrev SystemConf (T S : Type) : Type := Conf T (System T S) (SessionFrame T S)

def start (recvPool sendPool : RegisteredBufferPool T) : SystemConf T S :=
  ⟨.start recvPool sendPool, fun _ => []⟩

/-- The packet that a step of `RegisterSend` copies fits in the send buffer. -/
def copiedFits (s : SystemConf T S) : Action T (Choice T S) → Bool
  | .step t _ =>
      match s.frames t with
      | (x, .send (.copy _ _ ((_, some packet) :: _))) :: _ =>
          (s.mem.session x).send.mSendBuffer.all fun b => decide (packet.writeSize ≤ b.freeSize)
      | _ => true
  | _ => true

end Steps

end ServerCore.Network
