import ServerCore.Network.RegisterSend

namespace ServerCore.Network

open Framework ConcurrentQueue

variable {T S : Type} [DecidableEq T] [DecidableEq S]

/-- How `mSendQueue` resolves a `try_dequeue_bulk`: the producers that it serves. -/
structure DequeueOrder (T : Type) [DecidableEq T] where
  pick : ConcurrentQueue T PacketPtr → List T
  length_le : ∀ q, (pick q).length ≤ bulkDequeueCount
  eq_nil : ∀ q, pick q = [] → q = []
  served : ∀ q, (takeBulk (pick q) q).isSome = true

/-- The fields that both builds of the send path have; `accepted` is history. -/
structure SharedSend (T : Type) where
  mSendQueue : ConcurrentQueue T PacketPtr
  mPacketCount : Int
  mSendRegistered : Bool
  mIsConnected : Bool
  accepted : ConcurrentQueue T PacketPtr
  deriving DecidableEq

namespace SharedSend

/-- `Send`, and whether it goes on to `RegisterSend`. -/
def send (s : SharedSend T) (t : T) (buffer : PacketPtr) : SharedSend T × Bool :=
  if s.mIsConnected = false then (s, false)
  else
    ({ s with
      mSendQueue := s.mSendQueue.enqueue t buffer
      accepted := s.accepted.enqueue t buffer
      mPacketCount := s.mPacketCount + 1
      mSendRegistered := true }, !s.mSendRegistered)

/-- What `ProcessSend` does after the part that depends on the build, and whether it goes on to
`RegisterSend`. -/
def processSend (s : SharedSend T) (numOfBytes : ℕ) : SharedSend T × Bool :=
  if numOfBytes = 0 then ({ s with mIsConnected := false }, false)
  else if s.mPacketCount ≥ warnSendQueueSize then ({ s with mIsConnected := false }, false)
  else if s.mPacketCount ≤ 0 then ({ s with mSendRegistered := false }, false)
  else (s, true)

end SharedSend

inductive SendOp (T : Type) where
  | send (producer : T) (packet : Packet)
  /-- The oldest outstanding send completes in full. -/
  | complete
  deriving DecidableEq

/-- One build of the send path over its states `σ`. -/
structure SendBuild (T σ : Type) where
  shared : σ → SharedSend T
  setShared : σ → SharedSend T → σ
  /-- `RegisterSend`, with a transport that accepts the send. -/
  registerSend : σ → Option σ
  /-- What `ProcessSend` does first, and its `numOfBytes`. -/
  completed : σ → Option (σ × ℕ)
  /-- The bytes of each send that was posted. -/
  posted : σ → List (List UInt8)

namespace SendBuild

variable {σ : Type}

/-- `Send` or `ProcessSend` up to `RegisterSend`, and whether that is called. -/
def before (B : SendBuild T σ) : SendOp T → σ → Option (σ × Bool)
  | .send producer packet, st =>
      let r := (B.shared st).send producer (some packet)
      some (B.setShared st r.1, r.2)
  | .complete, st => (B.completed st).map fun c =>
      let r := (B.shared c.1).processSend c.2
      (B.setShared c.1 r.1, r.2)

def step (B : SendBuild T σ) (op : SendOp T) (st : σ) : Option σ :=
  (B.before op st).bind fun r => if r.2 then B.registerSend r.1 else some r.1

/-- Runs the calls one after another, each of which must satisfy `ok`. -/
def run (B : SendBuild T σ) (ok : SendOp T → σ → Bool) : List (SendOp T) → σ → Option σ
  | [], st => some st
  | op :: ops, st => if ok op st then (B.step op st).bind (B.run ok ops) else none

/-- The packets that the call dequeues together fit in an empty send buffer, and the backlog is
below the warning size. -/
def within (B : SendBuild T σ) (order : DequeueOrder T) (op : SendOp T) (st : σ) : Bool :=
  decide ((B.shared st).mPacketCount < warnSendQueueSize) &&
    match B.before op st with
    | some (st', true) =>
        let queue := (B.shared st').mSendQueue
        (takeBulk (order.pick queue) queue).all fun r =>
          decide (((batchBytes r.1).length : Int) ≤ sendBufferSize)
    | _ => true

end SendBuild

/-- The state of the send path as `VERSION_RIO` builds it. -/
structure RioState (T S : Type) where
  mIsConnected : Bool
  side : SendSide T S

/-- `VERSION_RIO`. -/
def rioBuild (this : S) (order : DequeueOrder T) : SendBuild T (RioState T S) where
  shared st := ⟨st.side.mSendQueue, st.side.mPacketCount, st.side.mSendRegistered,
    st.mIsConnected, st.side.accepted⟩
  setShared st s := ⟨s.mIsConnected, { st.side with
    mSendQueue := s.mSendQueue
    mPacketCount := s.mPacketCount
    mSendRegistered := s.mSendRegistered
    accepted := s.accepted }⟩
  registerSend st :=
    (registerSend this st.mIsConnected (order.pick st.side.mSendQueue) true st.side).map fun r =>
      ⟨if r.2 = .overflow then false else st.mIsConnected, r.1⟩
  completed st :=
    match st.side.outstanding with
    | [] => none
    | post :: outstanding =>
        if st.side.mRioSendContext.mDispatcher = some this then
          st.side.mSendBuffer.map fun b =>
            ({ st with
              side := { st.side with
                outstanding := outstanding
                mSendBuffer := some (b.onRead post.region.length.toNat).1.clean
                mRioSendContext := { st.side.mRioSendContext with mDispatcher := none } } },
              post.region.length.toNat)
        else none
  posted st := st.side.posted.map fun post => post.buffer.regionBytes post.region

/-- `SendContext` without its type tag. -/
structure SendContext (S : Type) where
  mDispatcher : Option S
  mPacketList : List Packet

/-- The state of the send path as the other build has it. A send has the packets of its buffers. -/
structure WsaState (T S : Type) where
  shared : SharedSend T
  mSendContext : SendContext S
  outstanding : List (List Packet)
  posted : List (List Packet)

def wsaBytes (packets : List Packet) : List UInt8 := packets.flatMap Packet.buffer

/-- The build without `VERSION_RIO`. -/
def wsaBuild (this : S) (order : DequeueOrder T) : SendBuild T (WsaState T S) where
  shared st := st.shared
  setShared st s := { st with shared := s }
  registerSend st :=
    if st.shared.mIsConnected = false then some st
    else
      (takeBulk (order.pick st.shared.mSendQueue) st.shared.mSendQueue).map fun r =>
        let mPacketList := st.mSendContext.mPacketList ++ r.1.filterMap Prod.snd
        { shared := { st.shared with mSendQueue := r.2 }
          mSendContext := ⟨some this, mPacketList⟩
          outstanding := st.outstanding ++ [mPacketList]
          posted := st.posted ++ [mPacketList] }
  completed st :=
    match st.outstanding with
    | [] => none
    | packets :: outstanding =>
        if st.mSendContext.mDispatcher = some this then
          some ({ st with outstanding := outstanding, mSendContext := ⟨none, []⟩ },
            (wsaBytes packets).length)
        else none
  posted st := st.posted.map wsaBytes

/-- Both builds handed the same bytes to the transport, never posted a send without bytes and
agree on the fields that they share. -/
structure BuildsAgree {σ τ : Type} (A : SendBuild T σ) (B : SendBuild T τ) (a : σ) (b : τ) :
    Prop where
  bytes : (A.posted a).flatten = (B.posted b).flatten
  left : [] ∉ A.posted a
  right : [] ∉ B.posted b
  queue : (A.shared a).mSendQueue = (B.shared b).mSendQueue
  packetCount : (A.shared a).mPacketCount = (B.shared b).mPacketCount
  registered : (A.shared a).mSendRegistered = (B.shared b).mSendRegistered
  connected : (A.shared a).mIsConnected = (B.shared b).mIsConnected

/-- A fresh session whose send buffer is `b`. -/
def RioState.start (connected : Bool) (b : NetworkBuffer) : RioState T S :=
  ⟨connected, { (Session.construct : Session T S).send with mSendBuffer := some b }⟩

def WsaState.start (connected : Bool) : WsaState T S :=
  ⟨⟨[], 0, false, connected, []⟩, ⟨none, []⟩, [], []⟩

/-- A queue that serves its packets in the order in which they came. -/
def DequeueOrder.fifo (T : Type) [DecidableEq T] : DequeueOrder T where
  pick q := (q.take bulkDequeueCount).map Prod.fst
  length_le q := by simp
  eq_nil q h := by simpa [bulkDequeueCount] using h
  served q := by rw [takeBulk_oldest]; rfl

/-- A send without bytes was posted. -/
def SendBuild.PostedEmpty {σ : Type} (B : SendBuild T σ) (st : σ) : Prop := [] ∈ B.posted st

/-- Nothing is outstanding and the send buffer `b` is empty. -/
structure RioState.Idle (st : RioState T S) (b : NetworkBuffer) : Prop where
  buffer : st.side.mSendBuffer = some b
  valid : b.Valid sendBufferSize
  readPos : b.mReadPos = 0
  writePos : b.mWritePos = 0
  outstanding : st.side.outstanding = []

/-- One send is outstanding, and the send buffer `b` holds its bytes. -/
structure RioState.Sending (st : RioState T S) (b : NetworkBuffer) (post : Post T) : Prop where
  buffer : st.side.mSendBuffer = some b
  valid : b.Valid sendBufferSize
  readPos : b.mReadPos = 0
  writePos : b.mWritePos = post.region.length
  outstanding : st.side.outstanding = [post]
  posted : post ∈ st.side.posted
  bytes : ((post.buffer.regionBytes post.region).length : Int) = post.region.length
  registered : st.side.mSendRegistered = true

/-- The invariant of the `VERSION_RIO` build. -/
def RioState.Inv (st : RioState T S) : Prop :=
  (∃ b, st.Idle b) ∨ ∃ b post, st.Sending b post

/-- What a call adds to `mPacketCount` before `RegisterSend`. -/
def SendOp.counts : SendOp T → Int
  | .send _ _ => 1
  | .complete => 0

namespace SharedSend

omit [DecidableEq T] in
theorem send_connected {s : SharedSend T} (t : T) (buffer : PacketPtr)
    (h : s.mIsConnected = true) : s.send t buffer =
      ({ s with
        mSendQueue := s.mSendQueue.enqueue t buffer
        accepted := s.accepted.enqueue t buffer
        mPacketCount := s.mPacketCount + 1
        mSendRegistered := true }, !s.mSendRegistered) := by
  simp [send, h]

omit [DecidableEq T] in
theorem send_disconnected {s : SharedSend T} (t : T) (buffer : PacketPtr)
    (h : s.mIsConnected = false) : s.send t buffer = (s, false) := by
  simp [send, h]

omit [DecidableEq T] in
/-- `ProcessSend` disconnects, or leaves the connection and the count alone. -/
theorem processSend_spec (s : SharedSend T) (numOfBytes : ℕ) :
    ((s.processSend numOfBytes).1.mIsConnected = false ∧ (s.processSend numOfBytes).2 = false ∧
        (numOfBytes = 0 ∨ warnSendQueueSize ≤ s.mPacketCount) ∨
      (s.processSend numOfBytes).1.mIsConnected = s.mIsConnected) ∧
    (s.processSend numOfBytes).1.mPacketCount = s.mPacketCount := by
  unfold processSend
  split_ifs with hzero hwarn hcount
  · exact ⟨.inl ⟨rfl, rfl, .inl hzero⟩, rfl⟩
  · exact ⟨.inl ⟨rfl, rfl, .inr hwarn⟩, rfl⟩
  · exact ⟨.inr rfl, rfl⟩
  · exact ⟨.inr rfl, rfl⟩

omit [DecidableEq T] in
theorem processSend_clear {s : SharedSend T} {n : ℕ} (hn : n ≠ 0)
    (hlow : ¬s.mPacketCount ≥ warnSendQueueSize) (hnone : s.mPacketCount ≤ 0) :
    s.processSend n = ({ s with mSendRegistered := false }, false) := by
  rw [processSend, if_neg hn, if_neg hlow, if_pos hnone]

omit [DecidableEq T] in
theorem processSend_register {s : SharedSend T} {n : ℕ} (hn : n ≠ 0)
    (hlow : ¬s.mPacketCount ≥ warnSendQueueSize) (hsome : ¬s.mPacketCount ≤ 0) :
    s.processSend n = (s, true) := by
  rw [processSend, if_neg hn, if_neg hlow, if_neg hsome]

end SharedSend

section Wsa

variable {this : S} {order : DequeueOrder T} {st st' : WsaState T S} {op : SendOp T}

/-- `RegisterSend` of this build does not touch `mPacketCount`. -/
theorem wsa_registerSend (h : (wsaBuild this order).registerSend st = some st') :
    (∃ more, st'.posted = st.posted ++ more) ∧
      st'.shared.mIsConnected = st.shared.mIsConnected ∧
      st'.shared.mPacketCount = st.shared.mPacketCount := by
  simp only [wsaBuild] at h
  split at h
  · obtain rfl := Option.some.inj h
    exact ⟨⟨[], by simp⟩, rfl, rfl⟩
  · obtain ⟨r, _, rfl⟩ := Option.map_eq_some_iff.mp h
    exact ⟨⟨_, rfl⟩, rfl, rfl⟩

theorem wsa_completed {n : ℕ} (h : (wsaBuild this order).completed st = some (st', n)) :
    st'.posted = st.posted ∧ st'.shared = st.shared := by
  simp only [wsaBuild] at h
  split at h
  · simp at h
  · split at h
    · obtain ⟨rfl, rfl⟩ := Prod.mk.inj (Option.some.inj h)
      exact ⟨rfl, rfl⟩
    · simp at h

/-- Before `RegisterSend` a call disconnects or counts the packet of a `Send`. -/
theorem wsa_before {register : Bool}
    (h : (wsaBuild this order).before op st = some (st', register)) :
    st'.posted = st.posted ∧
      (st.shared.mIsConnected = false → st'.shared.mIsConnected = false) ∧
      (st.shared.mIsConnected = true → st'.shared.mIsConnected = false ∨
        st'.shared.mPacketCount = st.shared.mPacketCount + op.counts) := by
  cases op with
  | send t packet =>
    obtain ⟨rfl, rfl⟩ := Prod.mk.inj (Option.some.inj h)
    cases hc : st.shared.mIsConnected with
    | false =>
      have hsend := SharedSend.send_disconnected t (some packet) hc
      refine ⟨rfl, ?_, by simp⟩
      intro _
      simp [wsaBuild, hsend, hc]
    | true =>
      have hsend := SharedSend.send_connected t (some packet) hc
      refine ⟨rfl, by simp, fun _ => .inr ?_⟩
      simp [wsaBuild, hsend, SendOp.counts]
  | complete =>
    obtain ⟨⟨c, n⟩, hcomplete, hc⟩ := Option.map_eq_some_iff.mp h
    obtain ⟨rfl, rfl⟩ := Prod.mk.inj hc
    obtain ⟨hposted, hshared⟩ := wsa_completed hcomplete
    obtain ⟨hconnected, hcount⟩ := SharedSend.processSend_spec c.shared n
    refine ⟨hposted, ?_, fun _ => .inr ?_⟩
    · intro hc
      rcases hconnected with ⟨hc', _⟩ | hc'
      · exact hc'
      · exact hc'.trans (hshared ▸ hc)
    · rw [← hshared]
      simpa [wsaBuild, SendOp.counts] using hcount

/-- A call disconnects, or adds what `Send` counts and subtracts nothing. -/
theorem wsa_step (h : (wsaBuild this order).step op st = some st') :
    (∃ more, st'.posted = st.posted ++ more) ∧
      (st.shared.mIsConnected = false → st'.shared.mIsConnected = false) ∧
      (st.shared.mIsConnected = true → st'.shared.mIsConnected = false ∨
        st'.shared.mPacketCount = st.shared.mPacketCount + op.counts) := by
  obtain ⟨⟨mid, register⟩, hbefore, hrest⟩ := Option.bind_eq_some_iff.mp h
  obtain ⟨hposted, hclosed, hopen⟩ := wsa_before hbefore
  simp only at hrest
  split at hrest
  · obtain ⟨⟨more, hmore⟩, hc, hcount⟩ := wsa_registerSend hrest
    rw [hc, hcount]
    exact ⟨⟨more, hposted ▸ hmore⟩, hclosed, hopen⟩
  · obtain rfl := Option.some.inj hrest
    exact ⟨⟨[], by simpa using hposted⟩, hclosed, hopen⟩

end Wsa

section Rio

variable {this : S} {order : DequeueOrder T} {st st' : RioState T S} {op : SendOp T}

omit [DecidableEq T] in
theorem copyBatch_readPos (b : NetworkBuffer) (region : NetworkBuffer.RioBuf)
    (batch : ConcurrentQueue T PacketPtr) :
    (copyBatch b region batch).1.mReadPos = b.mReadPos := by
  induction batch generalizing b region with
  | nil => rfl
  | cons e left ih =>
    obtain ⟨p, packet⟩ := e
    cases packet with
    | none => exact ih b region
    | some packet =>
      by_cases hfull : b.freeSize < packet.writeSize
      · simp [copyBatch, hfull]
      · have hread : (b.append packet.buffer).mReadPos = b.mReadPos := by
          unfold NetworkBuffer.append NetworkBuffer.onWrite
          split <;> rfl
        simp only [copyBatch, hfull, if_false]
        exact (ih _ _).trans hread

theorem RioState.Idle.setShared {b : NetworkBuffer} (h : st.Idle b) (x : S) (o : DequeueOrder T)
    (s : SharedSend T) : ((rioBuild x o).setShared st s).Idle b :=
  ⟨h.buffer, h.valid, h.readPos, h.writePos, h.outstanding⟩

/-- `RegisterSend` of an idle session posts the batch when it fits in an empty buffer. -/
theorem rio_registerSend (h : (rioBuild this order).registerSend st = some st')
    (hc : st.mIsConnected = true) {b : NetworkBuffer} (hidle : st.Idle b)
    (hr : st.side.mSendRegistered = true) {batch rest : ConcurrentQueue T PacketPtr}
    (htake : takeBulk (order.pick st.side.mSendQueue) st.side.mSendQueue = some (batch, rest))
    (hfit : ((batchBytes batch).length : Int) ≤ sendBufferSize) :
    st'.Inv ∧ st'.mIsConnected = true ∧
      st'.side.mPacketCount = st.side.mPacketCount - batch.length := by
  obtain ⟨⟨side, r⟩, hrun, rfl⟩ := Option.map_eq_some_iff.mp h
  rw [hc] at hrun
  have hfree : b.freeSize = sendBufferSize := by
    have hcap := hidle.valid.capacity_eq
    have hwrite := hidle.writePos
    simp only [NetworkBuffer.freeSize]
    omega
  have hroom : ((batchBytes batch).length : Int) ≤ b.freeSize := by rwa [hfree]
  obtain rfl := (registerSend_posted hidle.buffer hidle.valid htake hrun).mpr hroom
  have hfilled := copyBatch_filled (Filled.empty (T := T) hidle.valid) hroom
  have hbytes := hfilled.regionBytes
  have hregion := hfilled.region_eq
  have hlast := hfilled.writePos_eq
  simp only [List.nil_append] at hbytes hregion hlast
  simp only [registerSend, Bool.true_eq_false, if_false, hidle.buffer, htake, Option.bind_some,
    Option.map_some, Option.some.injEq, if_true] at hrun
  split at hrun
  · simp at hrun
  · simp only [Prod.mk.injEq, and_true] at hrun
    subst hrun
    refine ⟨.inr ⟨_, _, rfl, hfilled.valid, ?_, ?_, by simp [hidle.outstanding]; rfl, by simp, ?_,
      hr⟩, by simp [hc], rfl⟩
    · rw [copyBatch_readPos, hidle.readPos]
    · rw [hregion, hlast, hidle.writePos, zero_add]
    · rw [hbytes, hregion]

/-- A completion in full empties the send buffer. -/
theorem rio_completed {n : ℕ} (h : (rioBuild this order).completed st = some (st', n))
    (hinv : st.Inv) : (∃ b, st'.Idle b) ∧ st'.mIsConnected = st.mIsConnected ∧
      st'.side.mPacketCount = st.side.mPacketCount ∧
      st'.side.mSendRegistered = true ∧ (n = 0 → (rioBuild this order).PostedEmpty st) := by
  rcases hinv with ⟨b, hidle⟩ | ⟨b, post, hsending⟩
  · simp [rioBuild, hidle.outstanding] at h
  · have hwrite := hsending.writePos
    have hlen := hsending.bytes
    simp only [rioBuild, hsending.outstanding, hsending.buffer, Option.map_some] at h
    split at h
    · obtain ⟨rfl, rfl⟩ := Prod.mk.inj (Option.some.inj h)
      have hn : (post.region.length.toNat : Int) = post.region.length := by omega
      have hread := NetworkBuffer.onRead_spec (b := b) post.region.length
        (by simp only [NetworkBuffer.dataSize, hsending.readPos, hwrite]; omega)
      have hvalid := (hsending.valid.onRead post.region.length (by omega)).clean
      have hclean : (b.onRead post.region.length).1.clean =
          { b with mReadPos := 0, mWritePos := 0 } := by
        rw [hread, NetworkBuffer.clean, if_pos]
        simp only [NetworkBuffer.dataSize, hsending.readPos, hwrite]
        omega
      refine ⟨⟨_, by rw [hn], hvalid, ?_, ?_, rfl⟩, rfl, rfl, hsending.registered, ?_⟩
      · rw [hclean]
      · rw [hclean]
      · intro hzero
        refine List.mem_map.mpr ⟨post, hsending.posted, List.length_eq_zero_iff.mp ?_⟩
        omega
    · simp at h

omit [DecidableEq S] in
theorem registerSend_more {connected ok : Bool} {producers : List T} {s s' : SendSide T S}
    {r : SendResult} (h : registerSend this connected producers ok s = some (s', r)) :
    ∃ more, s'.posted = s.posted ++ more := by
  unfold registerSend at h
  split at h
  · obtain ⟨rfl, _⟩ := Prod.mk.inj (Option.some.inj h)
    exact ⟨[], by simp⟩
  · obtain ⟨b, _, h⟩ := Option.bind_eq_some_iff.mp h
    obtain ⟨taken, _, h⟩ := Option.map_eq_some_iff.mp h
    simp only at h
    split_ifs at h
    · obtain ⟨rfl, _⟩ := Prod.mk.inj h
      exact ⟨[], by simp⟩
    · obtain ⟨rfl, _⟩ := Prod.mk.inj h
      exact ⟨_, rfl⟩
    · obtain ⟨rfl, _⟩ := Prod.mk.inj h
      exact ⟨[], by simp⟩

theorem rio_before_posted {register : Bool}
    (h : (rioBuild this order).before op st = some (st', register)) :
    st'.side.posted = st.side.posted := by
  cases op with
  | send t packet =>
    obtain ⟨rfl, _⟩ := Prod.mk.inj (Option.some.inj h)
    rfl
  | complete =>
    obtain ⟨⟨c, n⟩, hcomplete, hc⟩ := Option.map_eq_some_iff.mp h
    obtain ⟨rfl, _⟩ := Prod.mk.inj hc
    simp only [rioBuild] at hcomplete
    split at hcomplete
    · simp at hcomplete
    · split at hcomplete
      · obtain ⟨b, _, hb⟩ := Option.map_eq_some_iff.mp hcomplete
        obtain ⟨rfl, _⟩ := Prod.mk.inj hb
        rfl
      · simp at hcomplete

/-- Nothing that was posted is forgotten. -/
theorem rio_postedEmpty (h : (rioBuild this order).step op st = some st')
    (hempty : (rioBuild this order).PostedEmpty st) : (rioBuild this order).PostedEmpty st' := by
  obtain ⟨⟨mid, register⟩, hbefore, hrest⟩ := Option.bind_eq_some_iff.mp h
  obtain ⟨post, hpost, hnil⟩ := List.mem_map.mp hempty
  have hmid : post ∈ mid.side.posted := rio_before_posted hbefore ▸ hpost
  refine List.mem_map.mpr ⟨post, ?_, hnil⟩
  simp only at hrest
  split at hrest
  · obtain ⟨⟨side, r⟩, hrun, rfl⟩ := Option.map_eq_some_iff.mp hrest
    obtain ⟨more, hmore⟩ := registerSend_more hrun
    exact hmore ▸ List.mem_append_left more hmid
  · obtain rfl := Option.some.inj hrest
    exact hmid

/-- A call that goes on to `RegisterSend` posts the batch, which fits. -/
theorem rio_register {mid : RioState T S} {b : NetworkBuffer}
    (hin : (rioBuild this order).within order op st = true)
    (hbefore : (rioBuild this order).before op st = some (mid, true))
    (h : (rioBuild this order).step op st = some st') (hc : mid.mIsConnected = true)
    (hidle : mid.Idle b) (hr : mid.side.mSendRegistered = true) :
    st'.Inv ∧ st'.mIsConnected = true ∧ st'.side.mPacketCount ≤ mid.side.mPacketCount ∧
      (mid.side.mSendQueue ≠ [] → st'.side.mPacketCount ≤ mid.side.mPacketCount - 1) := by
  obtain ⟨⟨batch, rest⟩, htake⟩ := Option.isSome_iff_exists.mp (order.served mid.side.mSendQueue)
  have hfit : ((batchBytes batch).length : Int) ≤ sendBufferSize := by
    have hshared : ((rioBuild this order).shared mid).mSendQueue = mid.side.mSendQueue := rfl
    simp only [SendBuild.within, hbefore, hshared, htake, Option.all_some, Bool.and_eq_true,
      decide_eq_true_eq] at hin
    exact hin.2
  have hpost : (rioBuild this order).registerSend mid = some st' := by
    simpa [SendBuild.step, hbefore] using h
  obtain ⟨hinv, hc', hcount⟩ := rio_registerSend hpost hc hidle hr htake hfit
  have hlen := takeBulk_length htake
  refine ⟨hinv, hc', by omega, ?_⟩
  intro hsome
  have hpicked : (order.pick mid.side.mSendQueue).length ≠ 0 := fun hnil =>
    hsome (order.eq_nil _ (List.length_eq_zero_iff.mp hnil))
  omega

/-- A call on a connected session keeps it connected and subtracts what it dequeues, unless a send
without bytes was posted before. -/
theorem rio_step (hin : (rioBuild this order).within order op st = true)
    (h : (rioBuild this order).step op st = some st') (hinv : st.Inv)
    (hc : st.mIsConnected = true) : (rioBuild this order).PostedEmpty st ∨
      st'.Inv ∧ st'.mIsConnected = true ∧
        st'.side.mPacketCount ≤ st.side.mPacketCount + op.counts ∧
        (st.side.mSendRegistered = false → st'.side.mPacketCount ≤ st.side.mPacketCount) := by
  obtain ⟨⟨mid, register⟩, hbefore, hrest⟩ := Option.bind_eq_some_iff.mp h
  cases op with
  | send t packet =>
    have hsend : ((rioBuild this order).shared st).send t (some packet) = _ :=
      SharedSend.send_connected t (some packet) hc
    have hmid := hbefore
    simp only [SendBuild.before, hsend, Option.some.injEq, Prod.mk.injEq] at hmid
    obtain ⟨rfl, hregister⟩ := hmid
    apply Or.inr
    cases hr : st.side.mSendRegistered with
    | false =>
      obtain rfl : true = register := by simpa [rioBuild, hr] using hregister
      rcases hinv with ⟨b, hidle⟩ | ⟨b, post, hsending⟩
      · obtain ⟨hinv', hc', _, hcount⟩ := rio_register hin hbefore h hc (hidle.setShared this order _) rfl
        have hless := hcount (by simp [rioBuild, enqueue])
        simp only [rioBuild] at hless
        exact ⟨hinv', hc', by simp only [SendOp.counts]; omega, fun _ => by omega⟩
      · simp [hsending.registered] at hr
    | true =>
      obtain rfl : false = register := by simpa [rioBuild, hr] using hregister
      obtain rfl := Option.some.inj hrest
      refine ⟨?_, hc, le_refl _, by simp⟩
      rcases hinv with ⟨b, hidle⟩ | ⟨b, post, hsending⟩
      · exact .inl ⟨b, hidle.setShared this order _⟩
      · exact .inr ⟨b, post, hsending.buffer, hsending.valid, hsending.readPos,
          hsending.writePos, hsending.outstanding, hsending.posted, hsending.bytes, rfl⟩
  | complete =>
    obtain ⟨⟨c, n⟩, hcomplete, hmid⟩ := Option.map_eq_some_iff.mp hbefore
    obtain ⟨rfl, rfl⟩ := Prod.mk.inj hmid
    obtain ⟨⟨b, hidle⟩, hcc, hcount, hr, hzero⟩ := rio_completed hcomplete hinv
    by_cases hn : n = 0
    · exact .inl (hzero hn)
    · have hlow : ¬((rioBuild this order).shared c).mPacketCount ≥ warnSendQueueSize := by
        simp only [SendBuild.within, Bool.and_eq_true, decide_eq_true_eq] at hin
        have hwarn : st.side.mPacketCount < warnSendQueueSize := hin.1
        have hsame : ((rioBuild this order).shared c).mPacketCount = st.side.mPacketCount := hcount
        omega
      apply Or.inr
      by_cases hnone : ((rioBuild this order).shared c).mPacketCount ≤ 0
      · have htail := SharedSend.processSend_clear hn hlow hnone
        rw [htail] at hrest
        obtain rfl := Option.some.inj hrest
        refine ⟨.inl ⟨b, hidle.setShared this order _⟩, hcc.trans hc, ?_, fun _ => hcount.le⟩
        simp only [SendOp.counts, add_zero]
        exact hcount.le
      · have htail := SharedSend.processSend_register hn hlow hnone
        rw [htail] at hbefore
        obtain ⟨hinv', hc', hle, _⟩ := rio_register hin hbefore h (hcc.trans hc)
          (hidle.setShared this order _) hr
        have hlast : st'.side.mPacketCount ≤ st.side.mPacketCount := hle.trans hcount.le
        exact ⟨hinv', hc', by simpa [SendOp.counts] using hlast, fun _ => hlast⟩

end Rio

section Machine

variable [Fintype T] {s : SystemConf T S} {x : S} {t : T} {order : DequeueOrder T}
  {op : SendOp T} {r : RioState T S}

/-- The state of the send path of session `x`. -/
def RioState.of (s : SystemConf T S) (x : S) : RioState T S :=
  ⟨(s.mem.session x).mIsConnected, (s.mem.session x).send⟩

/-- Thread `t` ends a call in the given state of the send path, or has `RegisterDisconnect` left. -/
def Ends (s : SystemConf T S) (x : S) (t : T) (r : RioState T S) : Prop :=
  ∃ s', machine.Reach (fun _ _ => True) s s' ∧ RioState.of s' x = r ∧
    (s'.frames t = [] ∨ s'.frames t = [(x, .disconnect .register)])

theorem Ends.after {s₁ : SystemConf T S} (h : machine.Reach (fun _ _ => True) s s₁)
    (hends : Ends s₁ x t r) : Ends s x t r := by
  obtain ⟨s', hreach, hr, hf⟩ := hends
  exact ⟨s', h.trans hreach, hr, hf⟩

theorem ends_withSend (side : SendSide T S)
    (h : machine.Reach (fun _ _ => True) s (withSend s x t side [])) :
    Ends s x t ⟨(s.mem.session x).mIsConnected, side⟩ :=
  ⟨_, h, by simp [RioState.of], .inl (withSend_frames _ _)⟩

/-- `Disconnect` up to `RegisterDisconnect`. -/
theorem ends_disconnect {cause : Cause}
    (hf : s.frames t = [(x, .disconnect (.disconnect cause))]) :
    Ends s x t ⟨false, (s.mem.session x).send⟩ := by
  let mem := s.mem.set x { s.mem.session x with mIsConnected := false }
  let new : List (SessionFrame T S) :=
    if (s.mem.session x).mIsConnected = false then [] else [(x, .disconnect .register)]
  have hnext : machine.next s (.step t .go) = some ⟨mem, Function.update s.frames t new⟩ := by
    cases hc : (s.mem.session x).mIsConnected <;>
      simp [Machine.next, hf, machine, step, disconnectStep, hc, mem, new]
  refine ⟨_, .next .start trivial hnext, by simp [RioState.of, mem], ?_⟩
  cases hc : (s.mem.session x).mIsConnected <;> simp [new, hc]

theorem ends_registerSend (order : DequeueOrder T) (caller : Caller)
    (hf : s.frames t = [(x, .send (.register caller))])
    (h : (rioBuild x order).registerSend (RioState.of s x) = some r) : Ends s x t r := by
  obtain ⟨⟨side, result⟩, hrun, rfl⟩ := Option.map_eq_some_iff.mp h
  have hreach := registerSend_reach hf (order.length_le _) (order.eq_nil _) hrun
  cases result with
  | overflow =>
    refine .after hreach ?_
    have hends := ends_disconnect (s := withSend s x t side [(x, .disconnect (.disconnect
      .sendBufferOver))]) (withSend_frames _ _)
    simpa [SendResult.frames] using hends
  | _ => exact ends_withSend side hreach

/-- `Send` as the build runs it is what the steps of thread `t` do. -/
theorem ends_send {packet : Packet} (ht : s.frames t = [])
    (hd : (s.mem.session x).destroyed = false)
    (h : (rioBuild x order).step (.send t packet) (RioState.of s x) = some r) : Ends s x t r := by
  let σ := (s.mem.session x).send
  have hcall : machine.Reach (fun _ _ => True) s
      (withSend s x t σ [(x, .send (.send (some packet)))]) := by
    refine .next (a := .enter t (.callSend x (some packet))) .start trivial ?_
    rw [withSend_self]
    simp [Machine.next, machine, enter, mayCall, ht, hd]
  obtain ⟨⟨mid, register⟩, hbefore, hrest⟩ := Option.bind_eq_some_iff.mp h
  cases hc : (s.mem.session x).mIsConnected with
  | false =>
    have hsend := SharedSend.send_disconnected t (some packet)
      (s := (rioBuild x order).shared (RioState.of s x)) hc
    simp only [SendBuild.before, hsend] at hbefore
    obtain ⟨rfl, rfl⟩ := Prod.mk.inj (Option.some.inj hbefore)
    obtain rfl := Option.some.inj hrest
    have hrefuse := send_reach .go (withSend_frames (s := s) (x := x) (t := t) σ
      [(x, .send (.send (some packet)))]) σ [] (by simp [sendStep, hc, σ])
    rw [withSend_withSend] at hrefuse
    exact ends_withSend σ (hcall.trans hrefuse)
  | true =>
    have hsend := SharedSend.send_connected t (some packet)
      (s := (rioBuild x order).shared (RioState.of s x)) hc
    simp only [SendBuild.before, hsend] at hbefore
    obtain ⟨rfl, rfl⟩ := Prod.mk.inj (Option.some.inj hbefore)
    let queued : SendSide T S := { σ with
      mSendQueue := σ.mSendQueue.enqueue t (some packet)
      accepted := σ.accepted.enqueue t (some packet) }
    let counted : SendSide T S := { queued with mPacketCount := σ.mPacketCount + 1 }
    let exchanged : SendSide T S := { counted with mSendRegistered := true }
    have haccept := send_reach .go (withSend_frames (s := s) (x := x) (t := t) σ
      [(x, .send (.send (some packet)))]) σ [.send (.enqueue (some packet))]
      (by simp [sendStep, hc, σ])
    have henqueue := send_reach .go (withSend_frames (s := s) (x := x) (t := t) σ
      [(x, .send (.enqueue (some packet)))]) queued [.send .count]
      (by simp [sendStep, queued, σ])
    have hcount := send_reach .go (withSend_frames (s := s) (x := x) (t := t) queued
      [(x, .send .count)]) counted [.send .exchange]
      (by simp [sendStep, counted, queued])
    have hexchange := send_reach .go (withSend_frames (s := s) (x := x) (t := t) counted
      [(x, .send .exchange)]) exchanged
      (if σ.mSendRegistered = false then [.send (.register .send)] else [])
      (by simp [sendStep, exchanged, counted, queued])
    rw [withSend_withSend] at haccept henqueue hcount hexchange
    have hbefore := (((hcall.trans haccept).trans henqueue).trans hcount).trans hexchange
    cases hr : σ.mSendRegistered with
    | false =>
      rw [if_pos hr] at hbefore
      refine .after hbefore (ends_registerSend order .send (by simp) ?_)
      simpa [rioBuild, RioState.of, hr, σ, hc, exchanged, counted, queued] using hrest
    | true =>
      rw [if_neg (by simp [hr])] at hbefore
      have hends := ends_withSend exchanged hbefore
      have hresult : (⟨true, exchanged⟩ : RioState T S) = r := by
        simpa [rioBuild, RioState.of, hr, σ, hc, exchanged, counted, queued] using hrest
      rwa [hc, hresult] at hends

/-- `ProcessSend` from its test of the backlog on. -/
theorem ends_kickTest (order : DequeueOrder T) {n : ℕ} (hn : n ≠ 0) (hf : s.frames t = [(x, .send .kickTest)])
    (h : (let st := RioState.of s x
      let tail := ((rioBuild x order).shared st).processSend n
      if tail.2 then (rioBuild x order).registerSend ((rioBuild x order).setShared st tail.1)
      else some ((rioBuild x order).setShared st tail.1)) = some r) : Ends s x t r := by
  let σ := (s.mem.session x).send
  by_cases hwarn : σ.mPacketCount ≥ warnSendQueueSize
  · have hkick := send_reach .go hf σ
      [.disconnect (.disconnect .sendQueueSizeOver)] (by simp [sendStep, σ, hwarn])
    have hends := ends_disconnect (s := withSend s x t σ
      [(x, .disconnect (.disconnect .sendQueueSizeOver))]) (x := x) (t := t) (withSend_frames _ _)
    have hresult : (⟨false, σ⟩ : RioState T S) = r := by
      simpa [rioBuild, RioState.of, SharedSend.processSend, hn, hwarn, σ] using h
    rw [withSend_send, hresult] at hends
    exact .after hkick hends
  · have hgo := send_reach .go hf σ [.send .countTest]
      (by simp [sendStep, σ, hwarn])
    by_cases hnone : σ.mPacketCount ≤ 0
    · let cleared : SendSide T S := { σ with mSendRegistered := false }
      have htest := send_reach .go (withSend_frames (s := s) (x := x) (t := t) σ
        [(x, .send .countTest)]) σ [.send .clear] (by simp [sendStep, hnone])
      have hclear := send_reach .go (withSend_frames (s := s) (x := x) (t := t) σ
        [(x, .send .clear)]) cleared [] (by simp [sendStep, cleared])
      rw [withSend_withSend] at htest hclear
      have hends := ends_withSend cleared ((hgo.trans htest).trans hclear)
      have hresult : (⟨(s.mem.session x).mIsConnected, cleared⟩ : RioState T S) = r := by
        simpa [rioBuild, RioState.of, SharedSend.processSend, hn, hwarn, hnone, cleared, σ] using h
      rwa [hresult] at hends
    · have htest := send_reach .go (withSend_frames (s := s) (x := x) (t := t) σ
        [(x, .send .countTest)]) σ [.send (.register .processSend)]
        (by simp [sendStep, hnone])
      rw [withSend_withSend] at htest
      refine .after (hgo.trans htest)
        (ends_registerSend order .processSend (by simp) ?_)
      simpa [rioBuild, RioState.of, SharedSend.processSend, hn, hwarn, hnone, σ] using h

/-- `ProcessSend` of a completion in full, as the build runs it, is what the steps of thread `t`
do. -/
theorem ends_complete (ht : s.frames t = [])
    (hlen : ∀ post ∈ (s.mem.session x).send.outstanding, 0 ≤ post.region.length)
    (h : (rioBuild x order).step .complete (RioState.of s x) = some r) : Ends s x t r := by
  let σ := (s.mem.session x).send
  obtain ⟨⟨mid, register⟩, hbefore, hrest⟩ := Option.bind_eq_some_iff.mp h
  obtain ⟨⟨c, n⟩, hcomplete, hmid⟩ := Option.map_eq_some_iff.mp hbefore
  obtain ⟨rfl, rfl⟩ := Prod.mk.inj hmid
  simp only [rioBuild, RioState.of] at hcomplete
  split at hcomplete
  · simp at hcomplete
  · next post outstanding ho =>
    split at hcomplete
    · next hd =>
      obtain ⟨b, hb, hc⟩ := Option.map_eq_some_iff.mp hcomplete
      obtain ⟨rfl, rfl⟩ := Prod.mk.inj hc
      have hpos := hlen post (ho ▸ List.mem_cons_self)
      let n := post.region.length.toNat
      let taken : SendSide T S := { σ with outstanding := outstanding }
      let processed : SendSide T S := { taken with
        mSendBuffer := some (b.onRead n).1.clean
        mRioSendContext := { σ.mRioSendContext with mDispatcher := none } }
      have hcall : machine.Reach (fun _ _ => True) s
          (withSend s x t taken [(x, .send (.dispatch n))]) := by
        refine .next (a := .enter t (.sent x n)) .start trivial ?_
        have hn : (n : Int) ≤ post.region.length := by omega
        simp [Machine.next, machine, enter, dequeues, rioDispatchResultCount, ht, ho, hn, withSend,
          taken, σ]
      have hdispatch := send_reach .go (withSend_frames (s := s) (x := x) (t := t) taken
        [(x, .send (.dispatch n))]) taken [.send (.processSend n)]
        (by simp [sendStep, taken, σ, hd])
      have hprocess := send_reach .go (withSend_frames (s := s) (x := x) (t := t) taken
        [(x, .send (.processSend n))]) processed
        (if n = 0 then [.disconnect (.disconnect .zeroBytesSend)] else [.send .onSend])
        (by simp [sendStep, taken, σ, hb, processed])
      rw [withSend_withSend] at hdispatch hprocess
      have hprocessed := (hcall.trans hdispatch).trans hprocess
      by_cases hn : n = 0
      · rw [if_pos hn] at hprocessed
        have hends := ends_disconnect (s := withSend s x t processed
          [(x, .disconnect (.disconnect .zeroBytesSend))]) (x := x) (t := t) (withSend_frames _ _)
        have hresult : (⟨false, processed⟩ : RioState T S) = r := by
          simpa [rioBuild, SharedSend.processSend, show post.region.length.toNat = 0 from hn,
            processed, taken, σ, n] using hrest
        rw [withSend_send, hresult] at hends
        exact .after hprocessed hends
      · rw [if_neg hn] at hprocessed
        have hon := send_reach .go (withSend_frames (s := s) (x := x) (t := t) processed
          [(x, .send .onSend)]) processed [.send .kickTest] (by simp [sendStep])
        rw [withSend_withSend] at hon
        refine .after (hprocessed.trans hon) (ends_kickTest order hn (by simp) ?_)
        simpa [RioState.of, processed, taken, σ, n] using hrest
    · simp at hcomplete

end Machine

section Builds

variable {this : S} {order : DequeueOrder T} {r r' : RioState T S} {w w' : WsaState T S}

/-- The builds have come apart: one posted a send without bytes, or is disconnected, or counts a
packet that the other has subtracted. -/
def Diverged (this : S) (order : DequeueOrder T) (r : RioState T S) (w : WsaState T S) : Prop :=
  (rioBuild this order).PostedEmpty r ∨
    r.Inv ∧ r.mIsConnected = true ∧
      (w.shared.mIsConnected = false ∨ r.side.mPacketCount + 1 ≤ w.shared.mPacketCount)

/-- Builds that have come apart do not come together again. -/
theorem Diverged.step {op : SendOp T} (h : Diverged this order r w)
    (hin : (rioBuild this order).within order op r = true)
    (hr : (rioBuild this order).step op r = some r')
    (hw : (wsaBuild this order).step op w = some w') : Diverged this order r' w' := by
  rcases h with hempty | ⟨hinv, hc, hcase⟩
  · exact .inl (rio_postedEmpty hr hempty)
  · rcases rio_step hin hr hinv hc with hempty | ⟨hinv', hc', hcount, _⟩
    · exact .inl (rio_postedEmpty hr hempty)
    · obtain ⟨_, hclosed, hopen⟩ := wsa_step hw
      refine .inr ⟨hinv', hc', ?_⟩
      cases hwc : w.shared.mIsConnected with
      | false => exact .inl (hclosed hwc)
      | true =>
        rcases hopen hwc with hwc' | hwcount
        · exact .inl hwc'
        · rcases hcase with hdown | hmore
          · simp [hwc] at hdown
          · exact .inr (by omega)

theorem Diverged.run {ops : List (SendOp T)} (h : Diverged this order r w)
    (hr : (rioBuild this order).run ((rioBuild this order).within order) ops r = some r')
    (hw : (wsaBuild this order).run (fun _ _ => true) ops w = some w') :
    Diverged this order r' w' := by
  induction ops generalizing r w with
  | nil =>
    obtain rfl := Option.some.inj hr
    obtain rfl := Option.some.inj hw
    exact h
  | cons op ops ih =>
    rw [SendBuild.run] at hr hw
    split at hr
    · next hin =>
      obtain ⟨r₁, hr₁, hr⟩ := Option.bind_eq_some_iff.mp hr
      obtain ⟨w₁, hw₁, hw⟩ := Option.bind_eq_some_iff.mp (by simpa using hw)
      exact ih (h.step hin hr₁ hw₁) hr hw
    · simp at hr

theorem Diverged.not_agree (h : Diverged this order r w) :
    ¬BuildsAgree (rioBuild this order) (wsaBuild this order) r w := by
  intro hagree
  rcases h with hempty | ⟨_, hc, hdown | hmore⟩
  · exact hagree.left hempty
  · have hsame : r.mIsConnected = w.shared.mIsConnected := hagree.connected
    simp [hc, hdown] at hsame
  · have hsame : r.side.mPacketCount = w.shared.mPacketCount := hagree.packetCount
    omega

variable {connected : Bool} {b : NetworkBuffer}

theorem complete_start (connected : Bool) (b : NetworkBuffer) :
    (rioBuild this order).step .complete (.start connected b) = none := rfl

theorem send_start (b : NetworkBuffer) (t : T) (packet : Packet) :
    (rioBuild this order).step (.send t packet) (.start false b) = some (.start false b) := rfl

/-- On a session that is not connected no call does anything. -/
theorem run_disconnected {ops : List (SendOp T)}
    (hr : (rioBuild this order).run ((rioBuild this order).within order) ops (.start false b) =
      some r) :
    r = .start false b ∧
      (wsaBuild this order).run (fun _ _ => true) ops (.start false) = some (.start false) := by
  induction ops with
  | nil => exact ⟨(Option.some.inj hr).symm, rfl⟩
  | cons op ops ih =>
    rw [SendBuild.run] at hr
    split at hr
    · cases op with
      | send t packet =>
        rw [send_start] at hr
        obtain ⟨rfl, hw⟩ := ih hr
        refine ⟨rfl, ?_⟩
        rw [SendBuild.run, if_pos rfl]
        exact hw
      | complete => simp [complete_start] at hr
    · simp at hr

/-- The first `Send` of a connected session drives the builds apart. -/
theorem diverged_send {t : T} {packet : Packet} (hvalid : b.Valid sendBufferSize)
    (hread : b.mReadPos = 0) (hwrite : b.mWritePos = 0)
    (hin : (rioBuild this order).within order (.send t packet) (.start true b) = true)
    (hr : (rioBuild this order).step (.send t packet) (.start true b) = some r)
    (hw : (wsaBuild this order).step (.send t packet) (.start true) = some w) :
    Diverged this order r w := by
  have hidle : (RioState.start (S := S) (T := T) true b).Idle b := ⟨rfl, hvalid, hread, hwrite, rfl⟩
  rcases rio_step hin hr (.inl ⟨b, hidle⟩) rfl with hempty | ⟨hinv, hc, _, hcount⟩
  · exact .inl (rio_postedEmpty hr hempty)
  · have hzero : r.side.mPacketCount ≤ 0 := hcount rfl
    refine .inr ⟨hinv, hc, ?_⟩
    rcases (wsa_step hw).2.2 rfl with hwc | hwcount
    · exact .inl hwc
    · have hone : w.shared.mPacketCount = 1 := hwcount
      exact .inr (by omega)

/-- The builds agree just when no `Send` found the session connected. -/
theorem builds_agree (this : S) (order : DequeueOrder T) (connected : Bool) (b : NetworkBuffer)
    (hvalid : b.Valid sendBufferSize) (hread : b.mReadPos = 0) (hwrite : b.mWritePos = 0)
    (ops : List (SendOp T)) (r : RioState T S)
    (hr : (rioBuild this order).run ((rioBuild this order).within order) ops
      (.start connected b) = some r) :
    (∃ w, (wsaBuild this order).run (fun _ _ => true) ops (.start connected) = some w ∧
      BuildsAgree (rioBuild this order) (wsaBuild this order) r w) ↔
    connected = false ∨ ∀ op ∈ ops, op = .complete := by
  constructor
  · rintro ⟨w, hw, hagree⟩
    cases connected with
    | false => exact .inl rfl
    | true =>
      cases ops with
      | nil => exact .inr (by simp)
      | cons op ops =>
        rw [SendBuild.run] at hr hw
        split at hr
        · next hin =>
          obtain ⟨r₁, hr₁, hrest⟩ := Option.bind_eq_some_iff.mp hr
          obtain ⟨w₁, hw₁, hwrest⟩ := Option.bind_eq_some_iff.mp (by simpa using hw)
          cases op with
          | send t packet =>
            have hfirst := diverged_send hvalid hread hwrite hin hr₁ hw₁
            exact absurd hagree (hfirst.run hrest hwrest).not_agree
          | complete => simp [complete_start] at hr₁
        · simp at hr
  · intro hnone
    have hfresh : BuildsAgree (rioBuild this order) (wsaBuild this order) (.start connected b)
        (.start connected) := ⟨rfl, by simp [rioBuild, RioState.start, Session.construct],
      by simp [wsaBuild, WsaState.start], rfl, rfl, rfl, rfl⟩
    cases connected with
    | false =>
      obtain ⟨rfl, hw⟩ := run_disconnected hr
      exact ⟨_, hw, hfresh⟩
    | true =>
      cases ops with
      | nil =>
        obtain rfl := Option.some.inj hr
        exact ⟨_, rfl, hfresh⟩
      | cons op ops =>
        obtain ⟨rfl, _⟩ : op = .complete ∧ ∀ op ∈ ops, op = .complete := by simpa using hnone
        rw [SendBuild.run, complete_start] at hr
        split at hr <;> simp at hr

end Builds

/-- A fresh send buffer. -/
def sliceBuffer : NetworkBuffer := .construct 2 0 (List.replicate 32768 0) (32768 : ℕ)

/-- A packet is sent, and its send completes. -/
def sentOnce : List (SendOp Unit) := [.send () ⟨[1]⟩, .complete]

theorem builds_differ : ¬∀ (ops : List (SendOp Unit)) (r : RioState Unit Unit),
    (rioBuild () (.fifo Unit)).run ((rioBuild () (.fifo Unit)).within (.fifo Unit)) ops
      (.start true sliceBuffer) = some r →
    ∃ w, (wsaBuild () (.fifo Unit)).run (fun _ _ => true) ops (.start true) = some w ∧
      BuildsAgree (rioBuild () (.fifo Unit)) (wsaBuild () (.fifo Unit)) r w := by
  intro claim
  have hruns : ((rioBuild () (.fifo Unit)).run ((rioBuild () (.fifo Unit)).within (.fifo Unit))
      sentOnce (.start true sliceBuffer)).isSome = true := by decide
  obtain ⟨r, hr⟩ := Option.isSome_iff_exists.mp hruns
  obtain ⟨w, hw, hagree⟩ := claim sentOnce r hr
  have hposted : ((wsaBuild () (.fifo Unit)).run (fun _ _ => true) sentOnce (.start true)).map
      (wsaBuild () (.fifo Unit)).posted = some [[1], []] := by decide
  rw [hw] at hposted
  have hempty := hagree.right
  rw [Option.some.inj hposted] at hempty
  exact hempty (by simp)

theorem builds_agree_notConnected : ∃ w : WsaState Unit Unit,
    BuildsAgree (rioBuild () (.fifo Unit)) (wsaBuild () (.fifo Unit)) (.start false sliceBuffer)
      w := by
  have hvalid := RegisteredBufferPool.construct_valid 2 0 32768
  obtain ⟨w, _, hagree⟩ := (builds_agree () (.fifo Unit) false sliceBuffer hvalid rfl rfl
    [.send () ⟨[1]⟩] (.start false sliceBuffer) rfl).mpr (.inl rfl)
  exact ⟨w, hagree⟩

end ServerCore.Network
