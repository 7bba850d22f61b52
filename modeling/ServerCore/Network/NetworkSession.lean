import ServerCore.Network.RegisteredBufferPool

namespace ServerCore.Network

open Framework

def bulkDequeueCount : ℕ := 500

def warnSendQueueSize : Int := 500

/-- A closed packet: the first `mWriteSize` bytes of its buffer. -/
structure Packet where
  buffer : List UInt8
  deriving DecidableEq

def Packet.writeSize (p : Packet) : Int := p.buffer.length

/-- What `Send` is given; a null pointer is queued like a packet. -/
abbrev PacketPtr : Type := Option Packet

/-- The bytes that a queued pointer adds to a send. -/
def packetBytes : PacketPtr → List UInt8
  | none => []
  | some p => p.buffer

/-- The bytes of the packets of a `swapList`, one after another. -/
def batchBytes {T : Type} (batch : ConcurrentQueue T PacketPtr) : List UInt8 :=
  batch.flatMap fun e => packetBytes e.2

/-- `RIOContext` without its type tag; `S` names the sessions. -/
structure RioContext (S : Type) where
  mDispatcher : Option S
  region : NetworkBuffer.RioBuf
  deriving DecidableEq

/-- An accepted `RIOSend`. Beside the region it records where the buffer was written from, the
packets dequeued for it and the buffer at that moment. -/
structure Post (T : Type) where
  region : NetworkBuffer.RioBuf
  writeOffset : Int
  packets : ConcurrentQueue T PacketPtr
  buffer : NetworkBuffer
  deriving DecidableEq

/-- The fields of `NetworkSession` that the send path uses. `mPacketCount` does not wrap: fewer than
`2 ^ 31` packets are queued. `outstanding` are the accepted sends that have not completed;
`accepted` and `posted` are history. -/
structure SendSide (T S : Type) where
  mSendBuffer : Option NetworkBuffer
  mSendQueue : ConcurrentQueue T PacketPtr
  mPacketCount : Int
  mSendRegistered : Bool
  mRioSendContext : RioContext S
  outstanding : List (Post T)
  accepted : ConcurrentQueue T PacketPtr
  posted : List (Post T)

/-- The fields of `NetworkSession` that the receive path uses. -/
structure RecvSide (S : Type) where
  mRecvBuffer : Option NetworkBuffer
  mRioRecvContext : RioContext S
  outstanding : List NetworkBuffer.RioBuf

/-- The causes that `Disconnect` is called with. -/
inductive Cause where
  | requestQueueCreateFail
  | zeroBytesRecv
  | recvBufferNull
  | onWriteOverflow
  | onReadOverflow
  | zeroBytesSend
  | sendQueueSizeOver
  | sendBufferOver
  | other
  deriving DecidableEq

/-- The causes with which `RegisterSend` and `ProcessSend` disconnect. -/
def Cause.ofSend : Cause → Bool
  | .zeroBytesSend | .sendQueueSizeOver | .sendBufferOver => true
  | _ => false

inductive Caller where
  | send
  | processSend
  deriving DecidableEq

/-- Positions inside `Send`, `RegisterSend` and `ProcessSend`. -/
inductive SendFrame (T : Type) where
  /-- `Send` called; `IsConnected` is next. -/
  | send (buffer : PacketPtr)
  | enqueue (buffer : PacketPtr)
  /-- `mPacketCount++` is next. -/
  | count
  /-- `mSendRegistered.exchange(true)` is next. -/
  | exchange
  /-- `RegisterSend` called; `IsConnected` is next. -/
  | register (caller : Caller)
  /-- `mRioSendContext` is set up next. -/
  | prepare (caller : Caller)
  /-- `try_dequeue_bulk` is next. -/
  | dequeue (caller : Caller)
  /-- The copy loop, begun at position `start`. -/
  | copy (start : Int) (copied left : ConcurrentQueue T PacketPtr)
  /-- `RIOSend` is next. -/
  | post (start : Int) (swapList : ConcurrentQueue T PacketPtr)
  | rejected
  | unregister
  /-- A send completion was dequeued; its context's `mDispatcher` is read next. -/
  | dispatch (numOfBytes : ℕ)
  | processSend (numOfBytes : ℕ)
  /-- Inside the `OnSend` callback. -/
  | onSend
  /-- `mPacketCount >= WARN_SENDQUEUE_SIZE` is next. -/
  | kickTest
  /-- `mPacketCount <= 0` is next. -/
  | countTest
  /-- `mSendRegistered.store(false)` is next. -/
  | clear
  deriving DecidableEq

/-- Positions inside `RegisterRecv` and `ProcessRecv`. -/
inductive RecvFrame where
  /-- `RegisterRecv` called; `IsConnected` is next. -/
  | register
  | prepare
  /-- `RIOReceive` is next. -/
  | post
  | rejected
  | dispatch (numOfBytes : ℕ)
  | processRecv (numOfBytes : ℕ)
  /-- Inside the `OnRecv` callback. -/
  | onRecv (dataSize : Int)
  | afterRecv (dataSize processLen : Int)
  deriving DecidableEq

inductive Pool where
  | recv
  | send
  deriving DecidableEq

/-- Positions inside `RegisterConnect` and `ProcessConnect` with `Acquire`. -/
inductive ConnectFrame where
  /-- `RegisterConnect` called; `IsConnected` is next. -/
  | connect
  | bind
  | prepare
  | connectEx
  | rejected
  | dispatch
  /-- `ProcessConnect` called; `mIsConnected.store(true)` is next. -/
  | processConnect
  | addSession
  /-- `Acquire` called; `GetFreeCount` is next. -/
  | acquire (pool : Pool)
  | tryDequeue (pool : Pool)
  | useCount (pool : Pool) (buffer : NetworkBuffer)
  /-- The result of `Acquire` is stored in the session next. -/
  | assign (pool : Pool) (buffer : Option NetworkBuffer)
  | createRIORQ
  | setSessionID
  | onConnected
  /-- Inside `DoAsync` of `ClientSession::OnConnected`. -/
  | enterRoom
  | returned
  deriving DecidableEq

/-- Positions inside `Disconnect`, `RegisterDisconnect` and `ProcessDisconnect`. -/
inductive DisconnectFrame where
  | disconnect (cause : Cause)
  | register
  | disconnectEx
  | rejected
  | dispatch
  | processDisconnect
  | onDisconnected
  /-- Inside `DoAsync` of `ClientSession::OnDisconnected`. -/
  | leaveRoom
  | releaseSession
  deriving DecidableEq

/-- Positions inside `~NetworkSession` and `RegisteredBufferPool::Release`. -/
inductive DestroyFrame where
  | recvBuffer
  | sendBuffer
  | packetCount
  | reset (pool : Pool) (buffer : NetworkBuffer)
  | enqueue (pool : Pool) (buffer : NetworkBuffer)
  | useCount (pool : Pool)
  deriving DecidableEq

inductive Frame (T : Type) where
  | send (f : SendFrame T)
  | recv (f : RecvFrame)
  | connect (f : ConnectFrame)
  | disconnect (f : DisconnectFrame)
  | destroy (f : DestroyFrame)
  deriving DecidableEq

/-- What the scheduler, the system calls and the callbacks decide. -/
inductive Choice (T S : Type) where
  | go
  /-- Whether a system call succeeds or is accepted. -/
  | result (ok : Bool)
  /-- The producers whose oldest elements a dequeue returns. -/
  | take (producers : List T)
  | pop (producer : T)
  /-- What `OnRecv` returns. -/
  | processed (processLen : Int)
  | callSend (session : S) (buffer : PacketPtr)
  | callDisconnect (session : S)
  | callConnect (session : S)
  | acceptEx (session : S)
  | acceptFailed (session : S)
  | accepted (session : S)
  | connected (session : S)
  | disconnected (session : S)
  | received (session : S) (numOfBytes : ℕ)
  | sent (session : S) (numOfBytes : ℕ)
  | destroy (session : S)
  /-- The next round of the loop in `Initialize`, by a thread that starts the server. -/
  | allocBuffer (pool : Pool) (starter : T) (rioBuffID i : ℕ)
  deriving DecidableEq

/-- `memcpy_s` to `WritePos()` and `OnWrite`. -/
def NetworkBuffer.append (b : NetworkBuffer) (bytes : List UInt8) : NetworkBuffer :=
  ((b.store bytes).onWrite bytes.length).1

section Steps

variable {T S : Type} [DecidableEq T] [DecidableEq S]

/-- One step of `Send`, `RegisterSend` or `ProcessSend` of session `this` by thread `t`. -/
def sendStep (this : S) (t : T) (connected : Bool) (s : SendSide T S) :
    SendFrame T → Choice T S → Option (SendSide T S × List (Frame T))
  | .send buffer, .go =>
      if connected = false then some (s, []) else some (s, [.send (.enqueue buffer)])
  | .enqueue buffer, .go =>
      some ({ s with
        mSendQueue := s.mSendQueue.enqueue t buffer
        accepted := s.accepted.enqueue t buffer }, [.send .count])
  | .count, .go => some ({ s with mPacketCount := s.mPacketCount + 1 }, [.send .exchange])
  | .exchange, .go =>
      some ({ s with mSendRegistered := true },
        if s.mSendRegistered = false then [.send (.register .send)] else [])
  | .register caller, .go =>
      if connected = false then some (s, []) else some (s, [.send (.prepare caller)])
  | .prepare caller, .go =>
      s.mSendBuffer.map fun b =>
        ({ s with mRioSendContext := ⟨some this, b.mRioBuffID, b.mOffset + b.mWritePos, 0⟩ },
          [.send (.dequeue caller)])
  | .dequeue _, .take producers =>
      if producers.length ≤ bulkDequeueCount ∧ (producers = [] → s.mSendQueue = []) then
        s.mSendBuffer.bind fun b =>
          (ConcurrentQueue.takeBulk producers s.mSendQueue).map fun r =>
            ({ s with mSendQueue := r.2 }, [.send (.copy b.mWritePos [] r.1)])
      else none
  | .copy start copied ((p, none) :: left), .go =>
      some (s, [.send (.copy start (copied ++ [(p, none)]) left)])
  | .copy start copied ((p, some packet) :: left), .go =>
      s.mSendBuffer.map fun b =>
        if b.freeSize < packet.writeSize then
          (s, [.disconnect (.disconnect .sendBufferOver)])
        else
          let context := s.mRioSendContext
          let region := { context.region with
            length := context.region.length + packet.writeSize }
          ({ s with
            mSendBuffer := some (b.append packet.buffer)
            mRioSendContext := { context with region := region } },
            [.send (.copy start (copied ++ [(p, some packet)]) left)])
  | .copy start copied [], .go =>
      some ({ s with mPacketCount := s.mPacketCount - copied.length }, [.send (.post start copied)])
  | .post start swapList, .result ok =>
      s.mSendBuffer.map fun b =>
        if ok then
          let post : Post T := ⟨s.mRioSendContext.region, start, swapList, b⟩
          ({ s with outstanding := s.outstanding ++ [post], posted := s.posted ++ [post] }, [])
        else (s, [.send .rejected])
  | .rejected, .go =>
      some ({ s with mRioSendContext := { s.mRioSendContext with mDispatcher := none } },
        [.send .unregister])
  | .unregister, .go => some ({ s with mSendRegistered := false }, [])
  | .dispatch numOfBytes, .go =>
      if s.mRioSendContext.mDispatcher = some this then some (s, [.send (.processSend numOfBytes)])
      else none
  | .processSend numOfBytes, .go =>
      s.mSendBuffer.map fun b =>
        ({ s with
          mSendBuffer := some (b.onRead numOfBytes).1.clean
          mRioSendContext := { s.mRioSendContext with mDispatcher := none } },
          if numOfBytes = 0 then [.disconnect (.disconnect .zeroBytesSend)] else [.send .onSend])
  | .onSend, .go => some (s, [.send .kickTest])
  | .kickTest, .go =>
      if s.mPacketCount ≥ warnSendQueueSize then
        some (s, [.disconnect (.disconnect .sendQueueSizeOver)])
      else some (s, [.send .countTest])
  | .countTest, .go =>
      if s.mPacketCount ≤ 0 then some (s, [.send .clear])
      else some (s, [.send (.register .processSend)])
  | .clear, .go => some ({ s with mSendRegistered := false }, [])
  | _, _ => none

/-- One step of `RegisterRecv` or `ProcessRecv` of session `this`. -/
def recvStep (this : S) (connected : Bool) (s : RecvSide S) :
    RecvFrame → Choice T S → Option (RecvSide S × List (Frame T))
  | .register, .go => if connected = false then some (s, []) else some (s, [.recv .prepare])
  | .prepare, .go =>
      match s.mRecvBuffer with
      | none => some (s, [])
      | some b => some ({ s with mRioRecvContext := ⟨some this, b.recvRegion⟩ }, [.recv .post])
  | .post, .result ok =>
      if ok then some ({ s with outstanding := s.outstanding ++ [s.mRioRecvContext.region] }, [])
      else some (s, [.recv .rejected])
  | .rejected, .go =>
      some ({ s with mRioRecvContext := { s.mRioRecvContext with mDispatcher := none } }, [])
  | .dispatch numOfBytes, .go =>
      if s.mRioRecvContext.mDispatcher = some this then some (s, [.recv (.processRecv numOfBytes)])
      else none
  | .processRecv numOfBytes, .go =>
      let s := { s with mRioRecvContext := { s.mRioRecvContext with mDispatcher := none } }
      if numOfBytes = 0 then some (s, [.disconnect (.disconnect .zeroBytesRecv)])
      else
        match s.mRecvBuffer with
        | none => some (s, [.disconnect (.disconnect .recvBufferNull)])
        | some b =>
            match b.onWrite numOfBytes with
            | (_, false) => some (s, [.disconnect (.disconnect .onWriteOverflow)])
            | (b, true) => some ({ s with mRecvBuffer := some b }, [.recv (.onRecv b.dataSize)])
  | .onRecv dataSize, .processed processLen => some (s, [.recv (.afterRecv dataSize processLen)])
  | .afterRecv dataSize processLen, .go =>
      if processLen < 0 ∨ dataSize < processLen then
        some (s, [.disconnect (.disconnect .onReadOverflow)])
      else
        s.mRecvBuffer.map fun b =>
          match b.onRead processLen with
          | (_, false) => (s, [.disconnect (.disconnect .onReadOverflow)])
          | (b, true) => ({ s with mRecvBuffer := some b.clean }, [.recv .register])
  | _, _ => none

end Steps

end ServerCore.Network
