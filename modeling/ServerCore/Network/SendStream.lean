import ServerCore.Network.SliceOwnership

namespace ServerCore.Network

open Framework ConcurrentQueue

variable {T S : Type}

/-- The bytes of the buffer's own slice that a region covers. -/
def NetworkBuffer.regionBytes (b : NetworkBuffer) (region : NetworkBuffer.RioBuf) : List UInt8 :=
  (b.mBuffer.drop (region.offset - b.mOffset).toNat).take region.length.toNat

theorem NetworkBuffer.Valid.append {capacity : Int} {b : NetworkBuffer} (h : b.Valid capacity)
    (bytes : List UInt8) (hfit : (bytes.length : Int) ≤ b.freeSize) :
    (b.append bytes).Valid capacity :=
  (h.store bytes hfit).onWrite bytes.length (Int.natCast_nonneg _)

@[simp] theorem batchBytes_nil : batchBytes ([] : ConcurrentQueue T PacketPtr) = [] := rfl

/-- From `start` to its write position the buffer holds the bytes of the packets, and the region
covers just these. -/
structure Filled (b : NetworkBuffer) (region : NetworkBuffer.RioBuf) (start : Int)
    (packets : ConcurrentQueue T PacketPtr) : Prop where
  valid : b.Valid sendBufferSize
  start_nonneg : 0 ≤ start
  region_eq : region = ⟨b.mRioBuffID, b.mOffset + start, (batchBytes packets).length⟩
  writePos_eq : b.mWritePos = start + (batchBytes packets).length
  bytes_eq : (b.mBuffer.drop start.toNat).take (batchBytes packets).length = batchBytes packets

namespace Filled

theorem empty {b : NetworkBuffer} (h : b.Valid sendBufferSize) :
    Filled b ⟨b.mRioBuffID, b.mOffset + b.mWritePos, 0⟩ b.mWritePos
      ([] : ConcurrentQueue T PacketPtr) :=
  ⟨h, h.read_nonneg.trans h.read_le, rfl, by simp, by simp⟩

theorem null {b : NetworkBuffer} {region : NetworkBuffer.RioBuf} {start : Int}
    {packets : ConcurrentQueue T PacketPtr} (h : Filled b region start packets) (p : T) :
    Filled b region start (packets ++ [(p, none)]) := by
  have hbytes : batchBytes (packets ++ [(p, none)]) = batchBytes packets := by
    simp [batchBytes, packetBytes]
  obtain ⟨hvalid, hstart, hregion, hwrite, hcells⟩ := h
  exact ⟨hvalid, hstart, hbytes.symm ▸ hregion, hbytes.symm ▸ hwrite, hbytes.symm ▸ hcells⟩

/-- Copying one more packet extends the region by its bytes. -/
theorem append {b : NetworkBuffer} {region : NetworkBuffer.RioBuf} {start : Int}
    {packets : ConcurrentQueue T PacketPtr} (h : Filled b region start packets) (p : T)
    (packet : Packet) (hfit : packet.writeSize ≤ b.freeSize) :
    Filled (b.append packet.buffer) { region with length := region.length + packet.writeSize }
      start (packets ++ [(p, some packet)]) := by
  obtain ⟨hvalid, hstart, rfl, hwrite, hcells⟩ := h
  have hbytes : batchBytes (packets ++ [(p, some packet)]) =
      batchBytes packets ++ packet.buffer := by
    simp [batchBytes, packetBytes]
  have hlen := hvalid.length_eq
  have hcap := hvalid.capacity_eq
  have hroom : (packet.buffer.length : Int) ≤ b.freeSize := hfit
  have hwrote := NetworkBuffer.onWrite_spec (b := b.store packet.buffer) _
    (show (packet.buffer.length : Int) ≤ (b.store packet.buffer).freeSize from hroom)
  have happend : b.append packet.buffer = { b.store packet.buffer with
      mWritePos := b.mWritePos + packet.buffer.length } := by
    rw [NetworkBuffer.append, hwrote]
    rfl
  refine ⟨?_, hstart, ?_, ?_, ?_⟩
  · exact hvalid.append packet.buffer hroom
  · rw [hbytes, happend]
    simp [NetworkBuffer.store, Packet.writeSize]
  · rw [hbytes, happend]
    simp only [List.length_append, Nat.cast_add]
    omega
  · rw [hbytes, happend]
    simp only [NetworkBuffer.freeSize] at hroom
    simp only [NetworkBuffer.store, overwrite]
    generalize hr : start.toNat = r at hcells ⊢
    have hw : b.mWritePos.toNat = r + (batchBytes packets).length := by omega
    have htake : (b.mBuffer.take (r + (batchBytes packets).length)).length =
        r + (batchBytes packets).length := by
      rw [List.length_take]
      omega
    rw [hw, List.append_assoc, List.drop_append_of_le_length (by omega), List.drop_take,
      Nat.add_sub_cancel_left, hcells, List.length_append, List.take_append,
      List.take_of_length_le (by omega), Nat.add_sub_cancel_left, List.take_left]

theorem regionBytes {b : NetworkBuffer} {region : NetworkBuffer.RioBuf} {start : Int}
    {packets : ConcurrentQueue T PacketPtr} (h : Filled b region start packets) :
    b.regionBytes region = batchBytes packets := by
  have hoff : b.mOffset + start - b.mOffset = start := by omega
  rw [h.region_eq, NetworkBuffer.regionBytes]
  simp only [hoff, Int.toNat_natCast]
  exact h.bytes_eq

/-- The region lies in the buffer's own slice. -/
theorem encloses {b : NetworkBuffer} {region : NetworkBuffer.RioBuf} {start : Int}
    {packets : ConcurrentQueue T PacketPtr} (h : Filled b region start packets) :
    b.Encloses region := by
  obtain ⟨hvalid, hstart, rfl, hwrite, _⟩ := h
  have hcap := hvalid.capacity_eq
  have hle := hvalid.write_le
  exact ⟨rfl, by simp only; omega, by simp only; omega⟩

end Filled

variable [DecidableEq T] [DecidableEq S]

/-- The buffer and the context of a send hold `packets`. -/
def Loaded (s : SendSide T S) (start : Int) (packets : ConcurrentQueue T PacketPtr) : Prop :=
  ∃ b, s.mSendBuffer = some b ∧ Filled b s.mRioSendContext.region start packets

/-- What was posted, what is in hand and what is queued come from the accepted packets, each at
most once and those of one thread in order. -/
def InOrder (s : SendSide T S) (inHand : ConcurrentQueue T PacketPtr) : Prop :=
  ∀ p, (ofProducer p (s.posted.flatMap Post.packets ++ inHand ++ s.mSendQueue)).Sublist
    (ofProducer p s.accepted)

omit [DecidableEq S] in
theorem InOrder.drop {s : SendSide T S} {inHand : ConcurrentQueue T PacketPtr}
    (h : InOrder s inHand) : InOrder s [] := by
  intro p
  refine List.Sublist.trans ?_ (h p)
  simp only [ofProducer_append, List.append_nil]
  exact (List.sublist_append_left _ _).append_right _

omit [DecidableEq S] in
theorem InOrder.enqueue {s : SendSide T S} {inHand : ConcurrentQueue T PacketPtr}
    (h : InOrder s inHand) (t : T) (buffer : PacketPtr) :
    InOrder { s with
      mSendQueue := s.mSendQueue.enqueue t buffer
      accepted := s.accepted.enqueue t buffer } inHand := by
  intro p
  have hmore := (h p).append (List.Sublist.refl (ofProducer p [(t, buffer)]))
  simpa [ConcurrentQueue.enqueue] using hmore

def SendFrame.InStream (s : SendSide T S) : SendFrame T → Prop
  | .dequeue _ => ∃ b, s.mSendBuffer = some b ∧
      Filled (T := T) b s.mRioSendContext.region b.mWritePos []
  | .copy start copied left => Loaded s start copied ∧ InOrder s (copied ++ left)
  | .post start swapList => Loaded s start swapList ∧ InOrder s swapList
  | _ => True

/-- A posted send stays in the buffer until it completes. -/
structure Streaming (s : SendSide T S) : Prop where
  current : ∀ post ∈ s.outstanding, post ∈ s.posted ∧ s.mSendBuffer = some post.buffer
  filled : ∀ post ∈ s.posted, Filled post.buffer post.region post.writeOffset post.packets
  inOrder : InOrder s []

omit [DecidableEq S] in
theorem SendStep.streaming {this : S} {t : T} {connected : Bool} {s s' : SendSide T S}
    {f : SendFrame T} {c : Choice T S} {new : List (Frame T)}
    (h : SendStep this t connected s f c s' new)
    (hvalid : ∀ b, s.mSendBuffer = some b → b.Valid sendBufferSize)
    (hnone : 0 < f.token → s.outstanding = []) (hs : Streaming s) (hf : f.InStream s) :
    Streaming s' ∧ ∀ g, Frame.send g ∈ new → g.InStream s' := by
  cases h with
  | enqueue buffer =>
    exact ⟨⟨hs.current, hs.filled, hs.inOrder.enqueue t buffer⟩, by simp [SendFrame.InStream]⟩
  | prepare caller b hb =>
    refine ⟨⟨hs.current, hs.filled, hs.inOrder⟩, ?_⟩
    simpa [SendFrame.InStream, hb] using Filled.empty (hvalid b hb)
  | dequeue caller producers b xs rest hb hbulk _ =>
    obtain ⟨b', hb', hfilled⟩ := hf
    obtain rfl : b = b' := Option.some.inj (hb.symm.trans hb')
    have horder : InOrder { s with mSendQueue := rest } xs := by
      intro p
      have hle := hs.inOrder p
      simpa [(takeBulk_spec hbulk).2 p] using hle
    exact ⟨⟨hs.current, hs.filled, horder.drop⟩,
      by simpa [SendFrame.InStream] using ⟨⟨b, hb, hfilled⟩, horder⟩⟩
  | copyNull start copied p left =>
    obtain ⟨⟨b, hb, hfilled⟩, horder⟩ := hf
    refine ⟨⟨hs.current, hs.filled, hs.inOrder⟩, ?_⟩
    simpa [SendFrame.InStream] using ⟨⟨b, hb, hfilled.null p⟩, horder⟩
  | copyPacket start copied p packet left b hb hfit =>
    obtain ⟨⟨b', hb', hfilled⟩, horder⟩ := hf
    obtain rfl : b = b' := Option.some.inj (hb.symm.trans hb')
    have hout := hnone Nat.one_pos
    refine ⟨⟨by simp [hout], hs.filled, hs.inOrder⟩, ?_⟩
    have hmore := hfilled.append p packet hfit
    simpa [SendFrame.InStream] using ⟨⟨_, rfl, hmore⟩, horder⟩
  | fetchSub start copied =>
    obtain ⟨hloaded, horder⟩ := hf
    rw [List.append_nil] at horder
    refine ⟨⟨hs.current, hs.filled, hs.inOrder⟩, ?_⟩
    simpa [SendFrame.InStream] using ⟨hloaded, horder⟩
  | post start swapList b hb =>
    obtain ⟨⟨b', hb', hfilled⟩, horder⟩ := hf
    obtain rfl : b = b' := Option.some.inj (hb.symm.trans hb')
    have hout := hnone Nat.one_pos
    refine ⟨⟨?_, ?_, ?_⟩, by simp⟩
    · simp [hout, hb]
    · intro post hpost
      rcases List.mem_append.mp hpost with hpost | hpost
      · exact hs.filled post hpost
      · rw [List.mem_singleton.mp hpost]
        exact hfilled
    · intro p
      simpa [List.flatMap_append] using horder p
  | zeroBytes b hb =>
    have hout := hnone Nat.one_pos
    exact ⟨⟨by simp [hout], hs.filled, hs.inOrder⟩, by simp⟩
  | processSend n b hb hn =>
    have hout := hnone Nat.one_pos
    exact ⟨⟨by simp [hout], hs.filled, hs.inOrder⟩, by simp [SendFrame.InStream]⟩
  | _ => exact ⟨⟨hs.current, hs.filled, hs.inOrder⟩, by simp [SendFrame.InStream]⟩

omit [DecidableEq S] in
/-- A step without the send token keeps the assertion of the frame that has it. -/
theorem SendStep.inStream {this : S} {t : T} {connected : Bool} {s s' : SendSide T S}
    {f : SendFrame T} {c : Choice T S} {new : List (Frame T)}
    (h : SendStep this t connected s f c s' new) (hf : f.token = 0) {g : SendFrame T}
    (hg : g.InStream s) : g.InStream s' := by
  cases h with
  | enqueue buffer =>
    cases g with
    | copy start copied left => exact ⟨hg.1, hg.2.enqueue t buffer⟩
    | post start swapList => exact ⟨hg.1, hg.2.enqueue t buffer⟩
    | _ => exact hg
  | refuse | accept | count | win | lose => cases g <;> exact hg
  | _ => simp [SendFrame.token] at hf

omit [DecidableEq S] in
theorem SendFrame.InStream.swap {s : SendSide T S} {g : SendFrame T} (hg : g.InStream s)
    {b : Option NetworkBuffer}
    (hb : b = s.mSendBuffer ∨ s.mSendBuffer = none ∨ (Frame.send g).alive = false) :
    g.InStream { s with mSendBuffer := b } := by
  rcases hb with rfl | hnone | hdead
  · exact hg
  · cases g with
    | dequeue caller =>
      obtain ⟨b', hb', _⟩ := hg
      simp [hnone] at hb'
    | copy start copied left =>
      obtain ⟨⟨b', hb', _⟩, _⟩ := hg
      simp [hnone] at hb'
    | post start swapList =>
      obtain ⟨⟨b', hb', _⟩, _⟩ := hg
      simp [hnone] at hb'
    | _ => trivial
  · cases g <;> trivial

/-- The send path of a session keeps the byte stream intact. -/
def sendStream : Assertion T S where
  session s := Streaming s.send
  frame s f := ∀ g, f = .send g → g.InStream s.send

theorem stable_not_valid (capacity : Int) : Stable fun b => ¬b.Valid capacity := by
  exact ⟨fun b hb h => hb h.reset, fun b packet hfit hb h => hb (h.append packet.buffer hfit),
    fun b n hb h => hb (h.onWrite n (Int.natCast_nonneg n)),
    fun b n hn hb h => hb (h.onRead n hn).clean⟩

variable [Fintype T] {recvPool sendPool : RegisteredBufferPool T}
  {ok : SystemConf T S → Action T (Choice T S) → Prop} {s : SystemConf T S}

theorem sendStream_reach (hpool : ∀ e ∈ sendPool.mQueue, e.2.Valid sendBufferSize)
    (h : machine.Reach ok (start recvPool sendPool) s) (x : S) : sendStream.Holds x s := by
  refine Assertion.reach h ?init ?step ?beside ?enter ?env
  case init =>
    refine ⟨by simp [Session.construct], by simp [Session.construct], ?_⟩
    simp [InOrder, Session.construct]
  case step =>
    intro s t c f fs mem new hr _ hf hstep hs htop
    have htoken := (sendToken.le_total (u := t) (g := f) (by simp [hf])).trans (sendToken_le hr x)
    have heffect := hstep.sendSide
    simp only [sendToken] at htoken
    simp only [sendStream] at hs htop ⊢
    generalize (mem.session x).send = s' at heffect ⊢
    cases heffect with
    | send f c s' new h =>
      have hvalid := (buffers_reach (stable_not_valid sendBufferSize) .send hpool hr).1 x
      obtain ⟨hs', hnew⟩ := h.streaming hvalid (fun hpos => by
        simp only [Frame.sendToken] at htoken
        exact List.length_eq_zero_iff.mp (by omega)) hs (htop f rfl)
      exact ⟨hs', fun g hg g' hg' => hnew g' (hg' ▸ hg)⟩
    | packetCount c => exact ⟨⟨hs.current, hs.filled, hs.inOrder⟩, by simp⟩
    | buffer f c b new _ hnew hb =>
      refine ⟨⟨?_, hs.filled, hs.inOrder⟩, ?_⟩
      · intro post hpost
        obtain ⟨hmem, hcur⟩ := hs.current post hpost
        rcases sendBuffer_kept hr hf hb with heq | hnone | hdead
        · exact ⟨hmem, heq.trans hcur⟩
        · simp [hnone] at hcur
        · simp [((lifetime_reach hr x).1 hdead).2.2] at hpost
      · intro g hg g' hg'
        have hout := hnew g hg
        simp [hg', Frame.inSend] at hout
  case beside =>
    intro s t c f fs mem new u g hr hf hmem hstep hb htop hg g' hg'
    subst hg'
    have htoken := (hb sendToken).trans (sendToken_le hr x)
    have heffect := hstep.sendSide
    have hstream := hg g' rfl
    simp only [sendToken] at htoken
    generalize (mem.session x).send = s' at heffect ⊢
    cases heffect with
    | send f c s' new h =>
      by_cases hquiet : f.token = 0
      · exact h.inStream hquiet hstream
      · have hzero : g'.token = 0 := by
          simp only [Frame.sendToken] at htoken
          omega
        cases g' <;> trivial
    | packetCount c => cases g' <;> exact hstream
    | buffer f c b new _ hnew hb =>
      apply hstream.swap
      rcases sendBuffer_kept hr hf hb with heq | hnone | hdead
      · exact .inl heq
      · exact .inr (.inl hnone)
      · refine .inr (.inr ?_)
        by_contra halive
        have hlive := ((lifetime_reach hr x).2 u _ hmem).1 (by simpa using halive)
        simp [hdead] at hlive
  case enter =>
    intro s t c f mem hr _ hstep hs
    simp only [sendStream] at hs ⊢
    have hf : ∀ g, f = .send g → ∀ s : SendSide T S, g.InStream s := by
      rintro g rfl s
      cases hstep <;> trivial
    rcases hstep.sides with ⟨he, _⟩ | ⟨_, _, _, _, _, _, he, _⟩ | ⟨n, post, rest, rfl, ho, _, _, he⟩
    · rw [he]
      exact ⟨hs, fun g hg => hf g hg _, fun u g _ hg => hg⟩
    · rw [he]
      exact ⟨hs, fun g hg => hf g hg _, fun u g _ hg => hg⟩
    · rw [he]
      refine ⟨⟨fun post' hpost => hs.current post' (by simp [ho, hpost]), hs.filled, hs.inOrder⟩,
        fun g hg => hf g hg _, ?_⟩
      intro u g _ hg g' hg'
      have hstream := hg g' hg'
      cases g' <;> exact hstream
  case env =>
    intro s mem hstep hs
    obtain ⟨_, _, he, _⟩ := hstep.session x
    rw [he]
    exact ⟨hs, fun u g _ hg => hg⟩

/-- What the send path of a session promises about its byte stream. -/
structure StreamIntact (s : SendSide T S) : Prop where
  one_outstanding : s.outstanding.length ≤ 1
  /-- A send starts at the write offset before the copy. -/
  offset_eq : ∀ post ∈ s.posted, post.region.offset = post.buffer.mOffset + post.writeOffset
  inside : ∀ post ∈ s.posted,
    post.buffer.mCapacity = sendBufferSize ∧ post.buffer.Encloses post.region
  bytes_eq : ∀ post ∈ s.posted, post.buffer.regionBytes post.region = batchBytes post.packets
  /-- The bytes stay in place until the send completes. -/
  kept : ∀ post ∈ s.outstanding, post ∈ s.posted ∧ s.mSendBuffer = some post.buffer
  whole_packets : s.posted.flatMap (fun post => post.buffer.regionBytes post.region) =
    batchBytes (s.posted.flatMap Post.packets)
  at_most_once : List.Subperm (s.posted.flatMap Post.packets) s.accepted
  in_order : ∀ p, (ofProducer p (s.posted.flatMap Post.packets)).Sublist (ofProducer p s.accepted)

/-- Over every run, whatever the transport does, the send path keeps the stream intact. -/
theorem stream_intact (recvPool : RegisteredBufferPool T) (allocated : Bool)
    (registered : Option ℕ) (t : T) (size : ℕ)
    (h : machine.Reach ok (start recvPool (.initializePool 32768 allocated registered t size)) s)
    (x : S) : StreamIntact (s.mem.session x).send := by
  have hpool := RegisteredBufferPool.initializePool_valid 32768 allocated registered t size
  obtain ⟨hcurrent, hfilled, hinOrder⟩ := (sendStream_reach hpool h x).1
  have hone := sendToken_le h x
  have hbytes (post : Post T) (hpost : post ∈ (s.mem.session x).send.posted) :=
    (hfilled post hpost).regionBytes
  have horder (p : T) : (ofProducer p ((s.mem.session x).send.posted.flatMap Post.packets)).Sublist
      (ofProducer p (s.mem.session x).send.accepted) := by
    refine List.Sublist.trans ?_ (hinOrder p)
    rw [List.append_nil, ofProducer_append]
    exact List.sublist_append_left _ _
  refine ⟨?_, ?_, ?_, hbytes, hcurrent, ?_, subperm_of_producers horder, horder⟩
  · simp only [Potential.total, sendToken] at hone
    omega
  · intro post hpost
    rw [(hfilled post hpost).region_eq]
  · intro post hpost
    exact ⟨(hfilled post hpost).valid.capacity_eq, (hfilled post hpost).encloses⟩
  · rw [batchBytes, List.flatMap_assoc]
    exact List.flatMap_congr hbytes

/-- Thread `t` accepts a session and connects it; thread `p` filled the pools. -/
def connectRun {T S : Type} (p t : T) (this : S) : List (Action T (Choice T S)) :=
  [.env (.acceptEx this), .enter t (.accepted this), .step t .go, .step t .go,
    .step t .go, .step t (.pop p), .step t .go, .step t .go,
    .step t .go, .step t (.pop p), .step t .go, .step t .go,
    .step t (.result true), .step t .go, .step t .go, .step t .go,
    .step t .go, .step t .go, .step t (.result true), .step t .go]

/-- Thread `t` sends a packet and posts it. -/
def sendRun {T S : Type} (t : T) (this : S) (packet : Packet) : List (Action T (Choice T S)) :=
  [.enter t (.callSend this (some packet)), .step t .go, .step t .go, .step t .go, .step t .go,
    .step t .go, .step t .go, .step t (.take [t]), .step t .go, .step t .go,
    .step t (.result true)]

/-- Pools of one slice each. -/
def smallStart : SystemConf (Fin 2) Unit :=
  start (.initializePool 16384 true (some 1) 0 1) (.initializePool 32768 true (some 2) 0 1)

theorem stream_intact_threeBytes : ∃ s : SystemConf (Fin 2) Unit,
    (s.mem.session ()).send.outstanding.map Post.region = [⟨2, 0, 3⟩] ∧
      StreamIntact (s.mem.session ()).send := by
  have hr := Machine.reach_final machine smallStart
    (connectRun 0 0 () ++ sendRun 1 () ⟨[1, 2, 3]⟩) (by decide)
  exact ⟨_, by decide, stream_intact _ true (some 2) 0 1 hr ()⟩

end ServerCore.Network
