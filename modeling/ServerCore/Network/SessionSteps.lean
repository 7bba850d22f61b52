import ServerCore.Network.SessionSystem

namespace ServerCore.Network

open Framework ConcurrentQueue

variable {T S : Type} [DecidableEq T] [DecidableEq S]

/-- All that a step of the send path can do. -/
inductive SendStep (this : S) (t : T) (connected : Bool) (s : SendSide T S) :
    SendFrame T → Choice T S → SendSide T S → List (Frame T) → Prop
  | refuse (buffer) : connected = false → SendStep this t connected s (.send buffer) .go s []
  | accept (buffer) : connected = true →
      SendStep this t connected s (.send buffer) .go s [.send (.enqueue buffer)]
  | enqueue (buffer) : SendStep this t connected s (.enqueue buffer) .go
      { s with
        mSendQueue := s.mSendQueue.enqueue t buffer
        accepted := s.accepted.enqueue t buffer } [.send .count]
  | count : SendStep this t connected s .count .go { s with mPacketCount := s.mPacketCount + 1 }
      [.send .exchange]
  | win : s.mSendRegistered = false → SendStep this t connected s .exchange .go
      { s with mSendRegistered := true } [.send (.register .send)]
  | lose : s.mSendRegistered = true → SendStep this t connected s .exchange .go s []
  | giveUp (caller) : connected = false → SendStep this t connected s (.register caller) .go s []
  | register (caller) : connected = true →
      SendStep this t connected s (.register caller) .go s [.send (.prepare caller)]
  | prepare (caller b) : s.mSendBuffer = some b → SendStep this t connected s (.prepare caller) .go
      { s with mRioSendContext := ⟨some this, b.mRioBuffID, b.mOffset + b.mWritePos, 0⟩ }
      [.send (.dequeue caller)]
  | dequeue (caller producers b xs rest) : s.mSendBuffer = some b →
      takeBulk producers s.mSendQueue = some (xs, rest) → (xs = [] → s.mSendQueue = []) →
      SendStep this t connected s (.dequeue caller) (.take producers)
        { s with mSendQueue := rest } [.send (.copy b.mWritePos [] xs)]
  | copyNull (start copied p left) :
      SendStep this t connected s (.copy start copied ((p, none) :: left)) .go s
        [.send (.copy start (copied ++ [(p, none)]) left)]
  | copyOver (start copied p packet left b) : s.mSendBuffer = some b →
      b.freeSize < packet.writeSize →
      SendStep this t connected s (.copy start copied ((p, some packet) :: left)) .go s
        [.disconnect (.disconnect .sendBufferOver)]
  | copyPacket (start copied p packet left b) : s.mSendBuffer = some b →
      packet.writeSize ≤ b.freeSize →
      SendStep this t connected s (.copy start copied ((p, some packet) :: left)) .go
        { s with
          mSendBuffer := some (b.append packet.buffer)
          mRioSendContext := { s.mRioSendContext with
            region := { s.mRioSendContext.region with
              length := s.mRioSendContext.region.length + packet.writeSize } } }
        [.send (.copy start (copied ++ [(p, some packet)]) left)]
  | fetchSub (start copied) : SendStep this t connected s (.copy start copied []) .go
      { s with mPacketCount := s.mPacketCount - copied.length } [.send (.post start copied)]
  | post (start swapList b) : s.mSendBuffer = some b →
      SendStep this t connected s (.post start swapList) (.result true)
        { s with
          outstanding := s.outstanding ++ [⟨s.mRioSendContext.region, start, swapList, b⟩]
          posted := s.posted ++ [⟨s.mRioSendContext.region, start, swapList, b⟩] } []
  | reject (start swapList b) : s.mSendBuffer = some b →
      SendStep this t connected s (.post start swapList) (.result false) s [.send .rejected]
  | rejected : SendStep this t connected s .rejected .go
      { s with mRioSendContext := { s.mRioSendContext with mDispatcher := none } }
      [.send .unregister]
  | unregister : SendStep this t connected s .unregister .go { s with mSendRegistered := false } []
  | dispatch (n) : s.mRioSendContext.mDispatcher = some this →
      SendStep this t connected s (.dispatch n) .go s [.send (.processSend n)]
  | zeroBytes (b) : s.mSendBuffer = some b → SendStep this t connected s (.processSend 0) .go
      { s with
        mSendBuffer := some (b.onRead (0 : ℕ)).1.clean
        mRioSendContext := { s.mRioSendContext with mDispatcher := none } }
      [.disconnect (.disconnect .zeroBytesSend)]
  | processSend (n b) : s.mSendBuffer = some b → n ≠ 0 →
      SendStep this t connected s (.processSend n) .go
        { s with
          mSendBuffer := some (b.onRead n).1.clean
          mRioSendContext := { s.mRioSendContext with mDispatcher := none } } [.send .onSend]
  | onSend : SendStep this t connected s .onSend .go s [.send .kickTest]
  | kick : warnSendQueueSize ≤ s.mPacketCount → SendStep this t connected s .kickTest .go s
      [.disconnect (.disconnect .sendQueueSizeOver)]
  | noKick : s.mPacketCount < warnSendQueueSize →
      SendStep this t connected s .kickTest .go s [.send .countTest]
  | countZero : s.mPacketCount ≤ 0 → SendStep this t connected s .countTest .go s [.send .clear]
  | countMore : 0 < s.mPacketCount → SendStep this t connected s .countTest .go s
      [.send (.register .processSend)]
  | clear : SendStep this t connected s .clear .go { s with mSendRegistered := false } []

theorem sendStep_spec {this : S} {t : T} {connected : Bool} {s s' : SendSide T S}
    {f : SendFrame T} {c : Choice T S} {new : List (Frame T)}
    (h : sendStep this t connected s f c = some (s', new)) :
    SendStep this t connected s f c s' new := by
  cases f with
  | send buffer =>
    cases c <;> simp only [sendStep, reduceCtorEq] at h
    split at h <;> simp only [Option.some.injEq, Prod.mk.injEq] at h <;> obtain ⟨rfl, rfl⟩ := h
    · next hc => exact .refuse _ hc
    · next hc => exact .accept _ (by simpa using hc)
  | enqueue buffer =>
    cases c <;> simp only [sendStep, reduceCtorEq, Option.some.injEq, Prod.mk.injEq] at h
    obtain ⟨rfl, rfl⟩ := h
    exact .enqueue _
  | count =>
    cases c <;> simp only [sendStep, reduceCtorEq, Option.some.injEq, Prod.mk.injEq] at h
    obtain ⟨rfl, rfl⟩ := h
    exact .count
  | exchange =>
    cases c <;> simp only [sendStep, reduceCtorEq, Option.some.injEq, Prod.mk.injEq] at h
    obtain ⟨rfl, rfl⟩ := h
    by_cases hr : s.mSendRegistered = false
    · rw [if_pos hr]
      exact .win hr
    · have ht : s.mSendRegistered = true := by simpa using hr
      rw [if_neg hr]
      have e : { s with mSendRegistered := true } = s := by rw [← ht]
      rw [e]
      exact .lose ht
  | register caller =>
    cases c <;> simp only [sendStep, reduceCtorEq] at h
    split at h <;> simp only [Option.some.injEq, Prod.mk.injEq] at h <;> obtain ⟨rfl, rfl⟩ := h
    · next hc => exact .giveUp _ hc
    · next hc => exact .register _ (by simpa using hc)
  | prepare caller =>
    cases c <;> simp only [sendStep, reduceCtorEq, Option.map_eq_some_iff, Prod.mk.injEq] at h
    obtain ⟨b, hb, rfl, rfl⟩ := h
    exact .prepare _ _ hb
  | dequeue caller =>
    cases c <;> simp only [sendStep, reduceCtorEq] at h
    split at h
    · next hp =>
      obtain ⟨b, hb, h⟩ := Option.bind_eq_some_iff.mp h
      simp only [Option.map_eq_some_iff, Prod.mk.injEq] at h
      obtain ⟨⟨xs, rest⟩, hr, rfl, rfl⟩ := h
      refine .dequeue _ _ _ _ _ hb hr fun hnil => hp.2 ?_
      have hlen : xs.length = _ := takeBulk_length hr
      rw [show xs = [] from hnil] at hlen
      exact List.length_eq_zero_iff.mp hlen.symm
    · simp at h
  | copy start copied left =>
    cases left with
    | nil =>
      cases c <;> simp only [sendStep, reduceCtorEq, Option.some.injEq, Prod.mk.injEq] at h
      obtain ⟨rfl, rfl⟩ := h
      exact .fetchSub _ _
    | cons e left =>
      obtain ⟨p, packet⟩ := e
      cases packet with
      | none =>
        cases c <;> simp only [sendStep, reduceCtorEq, Option.some.injEq, Prod.mk.injEq] at h
        obtain ⟨rfl, rfl⟩ := h
        exact .copyNull ..
      | some packet =>
        cases c <;> simp only [sendStep, reduceCtorEq, Option.map_eq_some_iff] at h
        obtain ⟨b, hb, h⟩ := h
        split at h <;> simp only [Prod.mk.injEq] at h <;> obtain ⟨rfl, rfl⟩ := h
        · next hf => exact .copyOver _ _ _ _ _ _ hb hf
        · next hf => exact .copyPacket _ _ _ _ _ _ hb (not_lt.mp hf)
  | post start swapList =>
    cases c <;> simp only [sendStep, reduceCtorEq, Option.map_eq_some_iff] at h
    obtain ⟨b, hb, h⟩ := h
    split at h <;> simp only [Prod.mk.injEq] at h <;> obtain ⟨rfl, rfl⟩ := h
    · next hok =>
      subst hok
      exact .post _ _ _ hb
    · next hok =>
      rw [Bool.not_eq_true] at hok
      subst hok
      exact .reject _ _ _ hb
  | rejected =>
    cases c <;> simp only [sendStep, reduceCtorEq, Option.some.injEq, Prod.mk.injEq] at h
    obtain ⟨rfl, rfl⟩ := h
    exact .rejected
  | unregister =>
    cases c <;> simp only [sendStep, reduceCtorEq, Option.some.injEq, Prod.mk.injEq] at h
    obtain ⟨rfl, rfl⟩ := h
    exact .unregister
  | dispatch n =>
    cases c <;> simp only [sendStep, reduceCtorEq] at h
    split at h <;> simp only [Option.some.injEq, Prod.mk.injEq, reduceCtorEq] at h
    next hd =>
    obtain ⟨rfl, rfl⟩ := h
    exact .dispatch _ hd
  | processSend n =>
    cases c <;> simp only [sendStep, reduceCtorEq, Option.map_eq_some_iff, Prod.mk.injEq] at h
    obtain ⟨b, hb, rfl, rfl⟩ := h
    by_cases hn : n = 0
    · subst hn
      exact .zeroBytes _ hb
    · rw [if_neg hn]
      exact .processSend _ _ hb hn
  | onSend =>
    cases c <;> simp only [sendStep, reduceCtorEq, Option.some.injEq, Prod.mk.injEq] at h
    obtain ⟨rfl, rfl⟩ := h
    exact .onSend
  | kickTest =>
    cases c <;> simp only [sendStep, reduceCtorEq] at h
    split at h <;> simp only [Option.some.injEq, Prod.mk.injEq] at h <;> obtain ⟨rfl, rfl⟩ := h
    · next hwarn => exact .kick hwarn
    · next hwarn => exact .noKick (not_le.mp hwarn)
  | countTest =>
    cases c <;> simp only [sendStep, reduceCtorEq] at h
    split at h <;> simp only [Option.some.injEq, Prod.mk.injEq] at h <;> obtain ⟨rfl, rfl⟩ := h
    · next hc => exact .countZero hc
    · next hc => exact .countMore (not_le.mp hc)
  | clear =>
    cases c <;> simp only [sendStep, reduceCtorEq, Option.some.injEq, Prod.mk.injEq] at h
    obtain ⟨rfl, rfl⟩ := h
    exact .clear

/-- All that a step of the receive path can do. -/
inductive RecvStep (this : S) (connected : Bool) (s : RecvSide S) :
    RecvFrame → RecvSide S → List (Frame T) → Prop
  | giveUp : connected = false → RecvStep this connected s .register s []
  | register : connected = true → RecvStep this connected s .register s [.recv .prepare]
  | noBuffer : s.mRecvBuffer = none → RecvStep this connected s .prepare s []
  | prepare (b) : s.mRecvBuffer = some b → RecvStep this connected s .prepare
      { s with mRioRecvContext := ⟨some this, b.recvRegion⟩ } [.recv .post]
  | post : RecvStep this connected s .post
      { s with outstanding := s.outstanding ++ [s.mRioRecvContext.region] } []
  | reject : RecvStep this connected s .post s [.recv .rejected]
  | rejected : RecvStep this connected s .rejected
      { s with mRioRecvContext := { s.mRioRecvContext with mDispatcher := none } } []
  | dispatch (n) : s.mRioRecvContext.mDispatcher = some this →
      RecvStep this connected s (.dispatch n) s [.recv (.processRecv n)]
  | recvFail (n : ℕ) (cause) : cause.ofSend = false → RecvStep this connected s (.processRecv n)
      { s with mRioRecvContext := { s.mRioRecvContext with mDispatcher := none } }
      [.disconnect (.disconnect cause)]
  | processRecv (n : ℕ) (b b') : s.mRecvBuffer = some b → b.onWrite n = (b', true) →
      RecvStep this connected s (.processRecv n)
        { s with
          mRioRecvContext := { s.mRioRecvContext with mDispatcher := none }
          mRecvBuffer := some b' } [.recv (.onRecv b'.dataSize)]
  | onRecv (dataSize processLen) : RecvStep this connected s (.onRecv dataSize) s
      [.recv (.afterRecv dataSize processLen)]
  | readFail (dataSize processLen) : RecvStep this connected s (.afterRecv dataSize processLen) s
      [.disconnect (.disconnect .onReadOverflow)]
  | afterRecv (dataSize processLen b b') : 0 ≤ processLen → s.mRecvBuffer = some b →
      b.onRead processLen = (b', true) → RecvStep this connected s (.afterRecv dataSize processLen)
        { s with mRecvBuffer := some b'.clean } [.recv .register]

omit [DecidableEq T] in
theorem recvStep_spec {this : S} {connected : Bool} {s s' : RecvSide S} {f : RecvFrame}
    {c : Choice T S} {new : List (Frame T)}
    (h : recvStep this connected s f c = some (s', new)) : RecvStep this connected s f s' new := by
  cases f with
  | register =>
    cases c <;> simp only [recvStep, reduceCtorEq] at h
    split at h <;> simp only [Option.some.injEq, Prod.mk.injEq] at h <;> obtain ⟨rfl, rfl⟩ := h
    · next hc => exact .giveUp hc
    · next hc => exact .register (by simpa using hc)
  | prepare =>
    cases c <;> simp only [recvStep, reduceCtorEq] at h
    split at h <;> simp only [Option.some.injEq, Prod.mk.injEq] at h <;> obtain ⟨rfl, rfl⟩ := h
    · next hb => exact .noBuffer hb
    · next hb => exact .prepare _ hb
  | post =>
    cases c <;> simp only [recvStep, reduceCtorEq] at h
    split at h <;> simp only [Option.some.injEq, Prod.mk.injEq] at h <;> obtain ⟨rfl, rfl⟩ := h
    · exact .post
    · exact .reject
  | rejected =>
    cases c <;> simp only [recvStep, reduceCtorEq, Option.some.injEq, Prod.mk.injEq] at h
    obtain ⟨rfl, rfl⟩ := h
    exact .rejected
  | dispatch n =>
    cases c <;> simp only [recvStep, reduceCtorEq] at h
    split at h <;> simp only [Option.some.injEq, Prod.mk.injEq, reduceCtorEq] at h
    next hd =>
    obtain ⟨rfl, rfl⟩ := h
    exact .dispatch _ hd
  | processRecv n =>
    cases c <;> simp only [recvStep, reduceCtorEq] at h
    split at h
    · simp only [Option.some.injEq, Prod.mk.injEq] at h
      obtain ⟨rfl, rfl⟩ := h
      exact .recvFail _ _ rfl
    · split at h
      · simp only [Option.some.injEq, Prod.mk.injEq] at h
        obtain ⟨rfl, rfl⟩ := h
        exact .recvFail _ _ rfl
      · next b hb =>
        split at h <;> simp only [Option.some.injEq, Prod.mk.injEq] at h <;> obtain ⟨rfl, rfl⟩ := h
        · exact .recvFail _ _ rfl
        · next b' hw => exact .processRecv _ _ _ hb hw
  | onRecv dataSize =>
    cases c <;> simp only [recvStep, reduceCtorEq, Option.some.injEq, Prod.mk.injEq] at h
    obtain ⟨rfl, rfl⟩ := h
    exact .onRecv ..
  | afterRecv dataSize processLen =>
    cases c <;> simp only [recvStep, reduceCtorEq] at h
    split at h
    · simp only [Option.some.injEq, Prod.mk.injEq] at h
      obtain ⟨rfl, rfl⟩ := h
      exact .readFail ..
    · next hlen =>
      simp only [Option.map_eq_some_iff] at h
      obtain ⟨b, hb, h⟩ := h
      split at h <;> simp only [Prod.mk.injEq] at h <;> obtain ⟨rfl, rfl⟩ := h
      · exact .readFail ..
      · next b' hr => exact .afterRecv _ _ _ _ (by omega) hb hr

/-- All that a step of the connect path can do. -/
inductive ConnectStep (this : S) (σ : System T S) :
    ConnectFrame → System T S → List (Frame T) → Prop
  | refuse (f) : f = .connect ∨ f = .bind ∨ f = .dispatch → ConnectStep this σ f σ []
  | connect : ConnectStep this σ .connect σ [.connect .bind]
  | bind : (σ.session this).bound = false → ConnectStep this σ .bind
      (σ.set this { σ.session this with bound := true }) [.connect .prepare]
  | prepare : ConnectStep this σ .prepare
      (σ.set this { σ.session this with mConnectContext := some this }) [.connect .connectEx]
  | connectEx : ConnectStep this σ .connectEx
      (σ.set this { σ.session this with connecting := (σ.session this).connecting + 1 }) []
  | reject : ConnectStep this σ .connectEx σ [.connect .rejected]
  | rejected : ConnectStep this σ .rejected
      (σ.set this { σ.session this with mConnectContext := none }) []
  | dispatch : (σ.session this).mConnectContext = some this →
      ConnectStep this σ .dispatch σ [.connect .processConnect]
  | processConnect : ConnectStep this σ .processConnect
      (σ.set this { σ.session this with mIsConnected := true }) [.connect .addSession]
  | addSession : ConnectStep this σ .addSession
      { σ with
        mSessions := insert this σ.mSessions
        mSessionCount := σ.mSessionCount + 1 } [.connect (.acquire .recv)]
  | noFree (pool) : (σ.pool pool).getFreeCount ≤ 0 →
      ConnectStep this σ (.acquire pool) σ [.connect (.assign pool none)]
  | acquire (pool) : 0 < (σ.pool pool).getFreeCount →
      ConnectStep this σ (.acquire pool) σ [.connect (.tryDequeue pool)]
  | tryDequeue (pool p b rest) : (σ.pool pool).mQueue.Perm ((p, b) :: rest) →
      ConnectStep this σ (.tryDequeue pool)
        (σ.setPool pool { σ.pool pool with mQueue := rest }) [.connect (.useCount pool b)]
  | useCount (pool b) : ConnectStep this σ (.useCount pool b)
      (σ.setPool pool { σ.pool pool with mUseCount := (σ.pool pool).mUseCount + 1 })
      [.connect (.assign pool (some b))]
  | assign (pool b) : ConnectStep this σ (.assign pool b)
      (σ.set this ((σ.session this).setBuffer pool b))
      (releaseFrames pool ((σ.session this).buffer pool) ++ [.connect (afterAssign pool b)])
  | createRIORQ : ConnectStep this σ .createRIORQ σ [.connect .setSessionID]
  | createFail : ConnectStep this σ .createRIORQ σ
      [.disconnect (.disconnect .requestQueueCreateFail), .connect .setSessionID]
  | setSessionID : ConnectStep this σ .setSessionID
      { σ.set this { σ.session this with mSessionID := σ.sSessionID } with
        sSessionID := toInt32 (σ.sSessionID + 1) } [.connect .onConnected]
  | onConnected : ConnectStep this σ .onConnected
      { σ with _sessions := insert this σ._sessions } [.connect .enterRoom]
  | enterRoom : ConnectStep this σ .enterRoom
      (σ.set this ((σ.session this).record .connectedReturned))
      [.recv .register, .connect .returned]
  | returned : ConnectStep this σ .returned
      (σ.set this ((σ.session this).record .connectReturned)) []

theorem connectStep_spec {this : S} {σ σ' : System T S} {f : ConnectFrame} {c : Choice T S}
    {new : List (Frame T)} (h : connectStep this σ f c = some (σ', new)) :
    ConnectStep this σ f σ' new := by
  cases f with
  | connect =>
    cases c <;> simp only [connectStep, reduceCtorEq] at h
    split at h <;> simp only [Option.some.injEq, Prod.mk.injEq] at h <;> obtain ⟨rfl, rfl⟩ := h
    · exact .refuse _ (by simp)
    · exact .connect
  | bind =>
    cases c <;> simp only [connectStep, reduceCtorEq] at h
    split at h <;> simp only [Option.some.injEq, Prod.mk.injEq] at h <;> obtain ⟨rfl, rfl⟩ := h
    · exact .refuse _ (by simp)
    · next hb => exact .bind (by simpa using (not_or.mp hb).2)
  | prepare =>
    cases c <;> simp only [connectStep, reduceCtorEq, Option.some.injEq, Prod.mk.injEq] at h
    obtain ⟨rfl, rfl⟩ := h
    exact .prepare
  | connectEx =>
    cases c <;> simp only [connectStep, reduceCtorEq] at h
    split at h <;> simp only [Option.some.injEq, Prod.mk.injEq] at h <;> obtain ⟨rfl, rfl⟩ := h
    · exact .connectEx
    · exact .reject
  | rejected =>
    cases c <;> simp only [connectStep, reduceCtorEq, Option.some.injEq, Prod.mk.injEq] at h
    obtain ⟨rfl, rfl⟩ := h
    exact .rejected
  | dispatch =>
    cases c <;> simp only [connectStep, reduceCtorEq] at h
    split at h <;> simp only [Option.some.injEq, Prod.mk.injEq] at h <;> obtain ⟨rfl, rfl⟩ := h
    · next hd => exact .dispatch hd
    · exact .refuse _ (by simp)
  | processConnect =>
    cases c <;> simp only [connectStep, reduceCtorEq, Option.some.injEq, Prod.mk.injEq] at h
    obtain ⟨rfl, rfl⟩ := h
    exact .processConnect
  | addSession =>
    cases c <;> simp only [connectStep, reduceCtorEq, Option.some.injEq, Prod.mk.injEq] at h
    obtain ⟨rfl, rfl⟩ := h
    exact .addSession
  | acquire pool =>
    cases c <;> simp only [connectStep, reduceCtorEq] at h
    split at h <;> simp only [Option.some.injEq, Prod.mk.injEq] at h <;> obtain ⟨rfl, rfl⟩ := h
    · next hfree => exact .noFree _ hfree
    · next hfree => exact .acquire _ (not_le.mp hfree)
  | tryDequeue pool =>
    cases c <;> simp only [connectStep, reduceCtorEq, Option.map_eq_some_iff, Prod.mk.injEq] at h
    obtain ⟨⟨b, rest⟩, hr, rfl, rfl⟩ := h
    exact .tryDequeue _ _ _ _ (takeFrom_spec hr).1
  | useCount pool b =>
    cases c <;> simp only [connectStep, reduceCtorEq, Option.some.injEq, Prod.mk.injEq] at h
    obtain ⟨rfl, rfl⟩ := h
    exact .useCount _ _
  | assign pool b =>
    cases c <;> simp only [connectStep, reduceCtorEq, Option.some.injEq, Prod.mk.injEq] at h
    obtain ⟨rfl, rfl⟩ := h
    exact .assign _ _
  | createRIORQ =>
    cases c <;> simp only [connectStep, reduceCtorEq] at h
    split at h <;> simp only [Option.some.injEq, Prod.mk.injEq] at h <;> obtain ⟨rfl, rfl⟩ := h
    · exact .createRIORQ
    · exact .createFail
  | setSessionID =>
    cases c <;> simp only [connectStep, reduceCtorEq, Option.some.injEq, Prod.mk.injEq] at h
    obtain ⟨rfl, rfl⟩ := h
    exact .setSessionID
  | onConnected =>
    cases c <;> simp only [connectStep, reduceCtorEq, Option.some.injEq, Prod.mk.injEq] at h
    obtain ⟨rfl, rfl⟩ := h
    exact .onConnected
  | enterRoom =>
    cases c <;> simp only [connectStep, reduceCtorEq, Option.some.injEq, Prod.mk.injEq] at h
    obtain ⟨rfl, rfl⟩ := h
    exact .enterRoom
  | returned =>
    cases c <;> simp only [connectStep, reduceCtorEq, Option.some.injEq, Prod.mk.injEq] at h
    obtain ⟨rfl, rfl⟩ := h
    exact .returned

/-- All that a step of the disconnect path can do. -/
inductive DisconnectStep (this : S) (σ : System T S) :
    DisconnectFrame → System T S → List (Frame T) → Prop
  | again (cause) : (σ.session this).mIsConnected = false →
      DisconnectStep this σ (.disconnect cause)
        (σ.set this { σ.session this with mIsConnected := false }) []
  | disconnect (cause) : (σ.session this).mIsConnected = true →
      DisconnectStep this σ (.disconnect cause)
        (σ.set this { σ.session this with mIsConnected := false }) [.disconnect .register]
  | register : DisconnectStep this σ .register
      (σ.set this { σ.session this with mDisconnectContext := some this })
      [.disconnect .disconnectEx]
  | disconnectEx : DisconnectStep this σ .disconnectEx
      (σ.set this { σ.session this with disconnecting := (σ.session this).disconnecting + 1 }) []
  | reject : DisconnectStep this σ .disconnectEx σ [.disconnect .rejected]
  | rejected : DisconnectStep this σ .rejected
      (σ.set this { σ.session this with mDisconnectContext := none }) []
  | noDispatcher : (σ.session this).mDisconnectContext ≠ some this →
      DisconnectStep this σ .dispatch σ []
  | dispatch : (σ.session this).mDisconnectContext = some this →
      DisconnectStep this σ .dispatch σ [.disconnect .processDisconnect]
  | processDisconnect : DisconnectStep this σ .processDisconnect
      (σ.set this (({ σ.session this with mDisconnectContext := none }).record .disconnectedCalled))
      [.disconnect .onDisconnected]
  | onDisconnected : DisconnectStep this σ .onDisconnected
      { σ with _sessions := σ._sessions.erase this } [.disconnect .leaveRoom]
  | leaveRoom : DisconnectStep this σ .leaveRoom σ [.disconnect .releaseSession]
  | releaseSession : DisconnectStep this σ .releaseSession
      { σ.set this ((σ.session this).record .disconnectReturned) with
        mSessions := σ.mSessions.erase this
        mSessionCount := σ.mSessionCount - 1 } []

omit [DecidableEq T] in
theorem disconnectStep_spec {this : S} {σ σ' : System T S} {f : DisconnectFrame}
    {c : Choice T S} {new : List (Frame T)} (h : disconnectStep this σ f c = some (σ', new)) :
    DisconnectStep this σ f σ' new := by
  cases f with
  | disconnect cause =>
    cases c <;> simp only [disconnectStep, reduceCtorEq, Option.some.injEq, Prod.mk.injEq] at h
    obtain ⟨rfl, rfl⟩ := h
    by_cases hc : (σ.session this).mIsConnected = false
    · rw [if_pos hc]
      exact .again _ hc
    · rw [if_neg hc]
      exact .disconnect _ (by simpa using hc)
  | register =>
    cases c <;> simp only [disconnectStep, reduceCtorEq, Option.some.injEq, Prod.mk.injEq] at h
    obtain ⟨rfl, rfl⟩ := h
    exact .register
  | disconnectEx =>
    cases c <;> simp only [disconnectStep, reduceCtorEq] at h
    split at h <;> simp only [Option.some.injEq, Prod.mk.injEq] at h <;> obtain ⟨rfl, rfl⟩ := h
    · exact .disconnectEx
    · exact .reject
  | rejected =>
    cases c <;> simp only [disconnectStep, reduceCtorEq, Option.some.injEq, Prod.mk.injEq] at h
    obtain ⟨rfl, rfl⟩ := h
    exact .rejected
  | dispatch =>
    cases c <;> simp only [disconnectStep, reduceCtorEq] at h
    split at h <;> simp only [Option.some.injEq, Prod.mk.injEq] at h <;> obtain ⟨rfl, rfl⟩ := h
    · next hd => exact .dispatch hd
    · next hd => exact .noDispatcher hd
  | processDisconnect =>
    cases c <;> simp only [disconnectStep, reduceCtorEq, Option.some.injEq, Prod.mk.injEq] at h
    obtain ⟨rfl, rfl⟩ := h
    exact .processDisconnect
  | onDisconnected =>
    cases c <;> simp only [disconnectStep, reduceCtorEq, Option.some.injEq, Prod.mk.injEq] at h
    obtain ⟨rfl, rfl⟩ := h
    exact .onDisconnected
  | leaveRoom =>
    cases c <;> simp only [disconnectStep, reduceCtorEq, Option.some.injEq, Prod.mk.injEq] at h
    obtain ⟨rfl, rfl⟩ := h
    exact .leaveRoom
  | releaseSession =>
    cases c <;> simp only [disconnectStep, reduceCtorEq, Option.some.injEq, Prod.mk.injEq] at h
    obtain ⟨rfl, rfl⟩ := h
    exact .releaseSession

/-- All that a step of the destructor or of `Release` can do. -/
inductive DestroyStep (this : S) (t : T) (σ : System T S) :
    DestroyFrame → System T S → List (Frame T) → Prop
  | recvBuffer : DestroyStep this t σ .recvBuffer (σ.set this ((σ.session this).setBuffer .recv none))
      (releaseFrames .recv ((σ.session this).buffer .recv) ++ [.destroy .sendBuffer])
  | sendBuffer : DestroyStep this t σ .sendBuffer (σ.set this ((σ.session this).setBuffer .send none))
      (releaseFrames .send ((σ.session this).buffer .send) ++ [.destroy .packetCount])
  | packetCount : DestroyStep this t σ .packetCount
      (σ.set this { σ.session this with
        send := { (σ.session this).send with mPacketCount := 0 } }) []
  | reset (pool b) : DestroyStep this t σ (.reset pool b) σ [.destroy (.enqueue pool b.reset)]
  | enqueue (pool b) : DestroyStep this t σ (.enqueue pool b)
      (σ.setPool pool { σ.pool pool with mQueue := (σ.pool pool).mQueue.enqueue t b })
      [.destroy (.useCount pool)]
  | useCount (pool) : DestroyStep this t σ (.useCount pool)
      (σ.setPool pool { σ.pool pool with mUseCount := (σ.pool pool).mUseCount - 1 }) []

omit [DecidableEq T] in
theorem destroyStep_spec {this : S} {t : T} {σ σ' : System T S} {f : DestroyFrame}
    {c : Choice T S} {new : List (Frame T)} (h : destroyStep this t σ f c = some (σ', new)) :
    DestroyStep this t σ f σ' new := by
  cases f with
  | recvBuffer =>
    cases c <;> simp only [destroyStep, reduceCtorEq, Option.some.injEq, Prod.mk.injEq] at h
    obtain ⟨rfl, rfl⟩ := h
    exact .recvBuffer
  | sendBuffer =>
    cases c <;> simp only [destroyStep, reduceCtorEq, Option.some.injEq, Prod.mk.injEq] at h
    obtain ⟨rfl, rfl⟩ := h
    exact .sendBuffer
  | packetCount =>
    cases c <;> simp only [destroyStep, reduceCtorEq, Option.some.injEq, Prod.mk.injEq] at h
    obtain ⟨rfl, rfl⟩ := h
    exact .packetCount
  | reset pool b =>
    cases c <;> simp only [destroyStep, reduceCtorEq, Option.some.injEq, Prod.mk.injEq] at h
    obtain ⟨rfl, rfl⟩ := h
    exact .reset _ _
  | enqueue pool b =>
    cases c <;> simp only [destroyStep, reduceCtorEq, Option.some.injEq, Prod.mk.injEq] at h
    obtain ⟨rfl, rfl⟩ := h
    exact .enqueue _ _
  | useCount pool =>
    cases c <;> simp only [destroyStep, reduceCtorEq, Option.some.injEq, Prod.mk.injEq] at h
    obtain ⟨rfl, rfl⟩ := h
    exact .useCount _

/-- All that a step of a frame of session `this` can do. -/
inductive FrameStep (this : S) (t : T) (σ : System T S) :
    Frame T → Choice T S → System T S → List (Frame T) → Prop
  | send (f c s' new) :
      SendStep this t (σ.session this).mIsConnected (σ.session this).send f c s' new →
      FrameStep this t σ (.send f) c (σ.set this { σ.session this with send := s' }) new
  | recv (f c s' new) : RecvStep this (σ.session this).mIsConnected (σ.session this).recv f s' new →
      FrameStep this t σ (.recv f) c (σ.set this { σ.session this with recv := s' }) new
  | connect (f c σ' new) : ConnectStep this σ f σ' new → FrameStep this t σ (.connect f) c σ' new
  | disconnect (f c σ' new) : DisconnectStep this σ f σ' new →
      FrameStep this t σ (.disconnect f) c σ' new
  | destroy (f c σ' new) : DestroyStep this t σ f σ' new →
      FrameStep this t σ (.destroy f) c σ' new

/-- All that entering a function can do, and the frame it leaves. -/
inductive EnterStep (σ : System T S) (frames : T → List (SessionFrame T S)) :
    Choice T S → System T S → S → Frame T → Prop
  | send (this buffer) : (σ.session this).destroyed = false →
      EnterStep σ frames (.callSend this buffer) σ this (.send (.send buffer))
  | disconnect (this) : (σ.session this).destroyed = false →
      EnterStep σ frames (.callDisconnect this) σ this (.disconnect (.disconnect .other))
  | connect (this) : (σ.session this).destroyed = false →
      EnterStep σ frames (.callConnect this) σ this (.connect .connect)
  | accepted (this) : (σ.session this).accepting = true → EnterStep σ frames (.accepted this)
      (σ.set this { σ.session this with accepting := false }) this (.connect .processConnect)
  | connected (this) : 0 < (σ.session this).connecting →
      EnterStep σ frames (.connected this)
      (σ.set this { σ.session this with connecting := (σ.session this).connecting - 1 }) this
      (.connect .dispatch)
  | disconnected (this) : 0 < (σ.session this).disconnecting →
      EnterStep σ frames (.disconnected this)
      (σ.set this { σ.session this with disconnecting := (σ.session this).disconnecting - 1 }) this
      (.disconnect .dispatch)
  | received (this) (n : ℕ) (region outstanding) :
      (σ.session this).recv.outstanding = region :: outstanding → (n : Int) ≤ region.length →
      EnterStep σ frames (.received this n) (σ.set this { σ.session this with
        recv := { (σ.session this).recv with outstanding := outstanding } }) this
        (.recv (.dispatch n))
  | sent (this) (n : ℕ) (post outstanding) :
      (σ.session this).send.outstanding = post :: outstanding → (n : Int) ≤ post.region.length →
      EnterStep σ frames (.sent this n) (σ.set this { σ.session this with
        send := { (σ.session this).send with outstanding := outstanding } }) this
        (.send (.dispatch n))
  | destroy (this) : (σ.session this).destroyed = false → (σ.session this).held = false →
      this ∉ σ.mSessions → this ∉ σ._sessions →
      (∀ u, ∀ f ∈ frames u, f.1 = this → f.2.holds = false) →
      EnterStep σ frames (.destroy this) (σ.set this { σ.session this with destroyed := true }) this
        (.destroy .recvBuffer)

/-- All that the listener can do. -/
inductive EnvStep (σ : System T S) : System T S → Prop
  | acceptEx (this) : (σ.session this).bound = false → (σ.session this).destroyed = false →
      EnvStep σ (σ.set this { σ.session this with bound := true, accepting := true })
  | acceptFailed (this) : (σ.session this).accepting = true →
      EnvStep σ (σ.set this { σ.session this with accepting := false })

theorem step_spec {σ σ' : System T S} {t : T} {this : S} {f : Frame T} {c : Choice T S}
    {new : List (SessionFrame T S)} (h : step σ t (this, f) c = some (σ', new)) :
    ∃ fs, FrameStep this t σ f c σ' fs ∧ new = fs.map fun g => (this, g) := by
  simp only [step, Option.map_eq_some_iff, Prod.mk.injEq] at h
  obtain ⟨⟨σ₁, fs⟩, h, rfl, rfl⟩ := h
  refine ⟨fs, ?_, rfl⟩
  cases f with
  | send f =>
    simp only [Option.map_eq_some_iff, Prod.mk.injEq] at h
    obtain ⟨⟨s', fs'⟩, h, rfl, rfl⟩ := h
    exact .send _ _ _ _ (sendStep_spec h)
  | recv f =>
    simp only [Option.map_eq_some_iff, Prod.mk.injEq] at h
    obtain ⟨⟨s', fs'⟩, h, rfl, rfl⟩ := h
    exact .recv _ _ _ _ (recvStep_spec h)
  | connect f => exact .connect _ _ _ _ (connectStep_spec h)
  | disconnect f => exact .disconnect _ _ _ _ (disconnectStep_spec h)
  | destroy f => exact .destroy _ _ _ _ (destroyStep_spec h)

omit [DecidableEq T] in
theorem enter_spec [Fintype T] {σ σ' : System T S} {frames : T → List (SessionFrame T S)} {t : T}
    {c : Choice T S} {f : SessionFrame T S} (h : enter σ frames t c = some (σ', f)) :
    EnterStep σ frames c σ' f.1 f.2 := by
  cases c <;> simp only [enter, reduceCtorEq] at h
  case callSend this buffer =>
    split at h <;> simp only [Option.some.injEq, Prod.mk.injEq, reduceCtorEq] at h
    next hc =>
    obtain ⟨rfl, rfl⟩ := h
    exact .send _ _ hc.2
  case callDisconnect this =>
    split at h <;> simp only [Option.some.injEq, Prod.mk.injEq, reduceCtorEq] at h
    next hc =>
    obtain ⟨rfl, rfl⟩ := h
    exact .disconnect _ hc.2
  case callConnect this =>
    split at h <;> simp only [Option.some.injEq, Prod.mk.injEq, reduceCtorEq] at h
    next hc =>
    obtain ⟨rfl, rfl⟩ := h
    exact .connect _ hc.2
  case accepted this =>
    split at h <;> simp only [Option.some.injEq, Prod.mk.injEq, reduceCtorEq] at h
    next hc =>
    obtain ⟨rfl, rfl⟩ := h
    exact .accepted _ hc.2
  case connected this =>
    split at h <;> simp only [Option.some.injEq, Prod.mk.injEq, reduceCtorEq] at h
    next hc =>
    obtain ⟨rfl, rfl⟩ := h
    exact .connected _ hc.2
  case disconnected this =>
    split at h <;> simp only [Option.some.injEq, Prod.mk.injEq, reduceCtorEq] at h
    next hc =>
    obtain ⟨rfl, rfl⟩ := h
    exact .disconnected _ hc.2
  case received this n =>
    split at h
    · simp at h
    · next region outstanding ho =>
      split at h <;> simp only [Option.some.injEq, Prod.mk.injEq, reduceCtorEq] at h
      next hc =>
      obtain ⟨rfl, rfl⟩ := h
      exact .received _ _ _ _ ho hc.2
  case sent this n =>
    split at h
    · simp at h
    · next post outstanding ho =>
      split at h <;> simp only [Option.some.injEq, Prod.mk.injEq, reduceCtorEq] at h
      next hc =>
      obtain ⟨rfl, rfl⟩ := h
      exact .sent _ _ _ _ ho hc.2
  case destroy this =>
    split at h <;> simp only [Option.some.injEq, Prod.mk.injEq, reduceCtorEq] at h
    next hc =>
    obtain ⟨rfl, rfl⟩ := h
    exact .destroy _ hc.2.1 hc.2.2.1 hc.2.2.2.1 hc.2.2.2.2.1 hc.2.2.2.2.2

omit [DecidableEq T] in
theorem env_spec {σ σ' : System T S} {c : Choice T S} (h : env σ c = some σ') : EnvStep σ σ' := by
  cases c <;> simp only [env, reduceCtorEq] at h
  case acceptEx this =>
    split at h <;> simp only [Option.some.injEq, reduceCtorEq] at h
    next hc =>
    subst h
    exact .acceptEx _ hc.1 hc.2
  case acceptFailed this =>
    split at h <;> simp only [Option.some.injEq, reduceCtorEq] at h
    next hc =>
    subst h
    exact .acceptFailed _ hc

/-- The machine runs sessions and the listener; besides, a pool may be filled. -/
class Specified [Fintype T] (m : Machine T (System T S) (SessionFrame T S) (Choice T S)) :
    Prop where
  enter : m.enter = enter
  step : m.step = step
  env : ∀ σ c σ', m.env σ c = some σ' → EnvStep σ σ' ∨ ∃ pool q, σ' = σ.setPool pool q

instance [Fintype T] : Specified (machine : Machine T (System T S) _ _) :=
  ⟨rfl, rfl, fun _ _ _ h => .inl (env_spec h)⟩

instance [Fintype T] : Specified (startupMachine : Machine T (System T S) _ _) := by
  refine ⟨rfl, rfl, ?_⟩
  intro σ c σ' h
  simp only [startupMachine, startupEnv] at h
  split at h
  · exact .inr ⟨_, _, (Option.some.inj h).symm⟩
  · exact .inl (env_spec h)

end ServerCore.Network
