import ServerCore.Network.SendStream
import ServerCore.Packets.PacketManager

namespace ServerCore.Network

open Framework ConcurrentQueue

variable {T S : Type} [DecidableEq T] [DecidableEq S]

/-- How a call of `RegisterSend` ends. -/
inductive SendResult where
  | notConnected
  | posted
  | rejected
  /-- `Disconnect(L"SendBuffer Over")` is called. -/
  | overflow
  deriving DecidableEq

/-- The copy loop of `RegisterSend`, which tells whether all packets were copied. -/
def copyBatch (b : NetworkBuffer) (region : NetworkBuffer.RioBuf) :
    ConcurrentQueue T PacketPtr → NetworkBuffer × NetworkBuffer.RioBuf × Bool
  | [] => (b, region, true)
  | (_, none) :: left => copyBatch b region left
  | (_, some packet) :: left =>
      if b.freeSize < packet.writeSize then (b, region, false)
      else
        copyBatch (b.append packet.buffer)
          { region with length := region.length + packet.writeSize } left

/-- `RegisterSend` run alone: `try_dequeue_bulk` serves `producers`, and `ok` tells whether `RIOSend`
is accepted. -/
def registerSend (this : S) (connected : Bool) (producers : List T) (ok : Bool)
    (s : SendSide T S) : Option (SendSide T S × SendResult) :=
  if connected = false then some (s, .notConnected)
  else
    s.mSendBuffer.bind fun b => (takeBulk producers s.mSendQueue).map fun r =>
      let copied := copyBatch b ⟨b.mRioBuffID, b.mOffset + b.mWritePos, 0⟩ r.1
      let s := { s with
        mSendQueue := r.2
        mSendBuffer := some copied.1
        mRioSendContext := ⟨some this, copied.2.1⟩ }
      if copied.2.2 = false then (s, .overflow)
      else
        let s := { s with mPacketCount := s.mPacketCount - r.1.length }
        if ok then
          let post : Post T := ⟨copied.2.1, b.mWritePos, r.1, copied.1⟩
          ({ s with outstanding := s.outstanding ++ [post], posted := s.posted ++ [post] },
            .posted)
        else
          ({ s with
            mRioSendContext := { s.mRioSendContext with mDispatcher := none }
            mSendRegistered := false }, .rejected)

/-- The longest prefix of the packets that fits in `free` bytes. -/
def fitting (free : Int) : ConcurrentQueue T PacketPtr → ConcurrentQueue T PacketPtr
  | [] => []
  | (p, none) :: left => (p, none) :: fitting free left
  | (p, some packet) :: left =>
      if free < packet.writeSize then []
      else (p, some packet) :: fitting (free - packet.writeSize) left

/-- The queue hands out `all` in the given order. The packets that fit were posted, and the others
wait in the queue. -/
structure SentInParts (s s' : SendSide T S) (free : Int) (order : List T)
    (all : ConcurrentQueue T PacketPtr) (r : SendResult) : Prop where
  posted : r = .posted
  bytes : ∃ post, s'.posted = s.posted ++ [post] ∧ s'.outstanding = s.outstanding ++ [post] ∧
    post.buffer.regionBytes post.region = batchBytes (fitting free (all.take bulkDequeueCount))
  queued : takeBulk (order.drop (fitting free (all.take bulkDequeueCount)).length) s'.mSendQueue =
    some (all.drop (fitting free (all.take bulkDequeueCount)).length, [])
  packetCount : s'.mPacketCount = s'.mSendQueue.length

omit [DecidableEq T] [DecidableEq S] in
theorem append_freeSize {b : NetworkBuffer} {packet : Packet} (hfit : packet.writeSize ≤ b.freeSize) :
    (b.append packet.buffer).freeSize = b.freeSize - packet.writeSize := by
  have hroom : (packet.buffer.length : Int) ≤ (b.store packet.buffer).freeSize := hfit
  rw [NetworkBuffer.append, NetworkBuffer.onWrite_spec _ hroom]
  simp only [NetworkBuffer.freeSize, NetworkBuffer.store, Packet.writeSize]
  omega

omit [DecidableEq T] in
theorem batchBytes_cons (p : T) (packet : PacketPtr) (batch : ConcurrentQueue T PacketPtr) :
    (batchBytes ((p, packet) :: batch)).length =
      (packetBytes packet).length + (batchBytes batch).length := by
  simp [batchBytes]

omit [DecidableEq T] in
/-- The copy loop comes to its end just when the bytes of all packets fit. -/
theorem copyBatch_fits {b : NetworkBuffer} (hfree : 0 ≤ b.freeSize)
    (region : NetworkBuffer.RioBuf) (batch : ConcurrentQueue T PacketPtr) :
    (copyBatch b region batch).2.2 = true ↔ ((batchBytes batch).length : Int) ≤ b.freeSize := by
  induction batch generalizing b region with
  | nil => simpa [copyBatch] using hfree
  | cons e left ih =>
    obtain ⟨p, packet⟩ := e
    rw [batchBytes_cons]
    cases packet with
    | none => simpa [copyBatch, packetBytes] using ih hfree region
    | some packet =>
      have hsize : packet.writeSize = ((packetBytes (some packet)).length : Int) := rfl
      by_cases hfull : b.freeSize < packet.writeSize
      · simp only [copyBatch, hfull, if_true, Bool.false_eq_true, false_iff]
        omega
      · have happend := append_freeSize (not_lt.mp hfull)
        have hmore := ih (b := b.append packet.buffer) (by omega)
          { region with length := region.length + packet.writeSize }
        simp only [copyBatch, hfull, if_false]
        rw [hmore, happend]
        omega

omit [DecidableEq T] in
theorem fitting_of_fits {free : Int} {batch : ConcurrentQueue T PacketPtr}
    (hfit : ((batchBytes batch).length : Int) ≤ free) : fitting free batch = batch := by
  induction batch generalizing free with
  | nil => rfl
  | cons e left ih =>
    obtain ⟨p, packet⟩ := e
    rw [batchBytes_cons] at hfit
    cases packet with
    | none => rw [fitting, ih (by simpa [packetBytes] using hfit)]
    | some packet =>
      have hsize : packet.writeSize = ((packetBytes (some packet)).length : Int) := rfl
      rw [fitting, if_neg (by omega), ih (by omega)]

omit [DecidableEq T] in
/-- The region covers the bytes that were copied. -/
theorem copyBatch_filled {b : NetworkBuffer} {region : NetworkBuffer.RioBuf} {start : Int}
    {packets batch : ConcurrentQueue T PacketPtr} (h : Filled b region start packets)
    (hfit : ((batchBytes batch).length : Int) ≤ b.freeSize) :
    Filled (copyBatch b region batch).1 (copyBatch b region batch).2.1 start (packets ++ batch) := by
  induction batch generalizing b region packets with
  | nil => simpa [copyBatch] using h
  | cons e left ih =>
    obtain ⟨p, packet⟩ := e
    rw [batchBytes_cons] at hfit
    cases packet with
    | none =>
      have hmore := ih (h.null p) (by simpa [packetBytes] using hfit)
      simpa [copyBatch] using hmore
    | some packet =>
      have hsize : packet.writeSize = ((packetBytes (some packet)).length : Int) := rfl
      have hroom : packet.writeSize ≤ b.freeSize := by omega
      have happend := append_freeSize hroom
      have hmore := ih (h.append p packet hroom) (by omega)
      simpa [copyBatch, not_lt.mpr hroom] using hmore

omit [DecidableEq S] in
/-- Run on a connected session `RegisterSend` posts its batch just when all of it fits. -/
theorem registerSend_posted {this : S} {s s' : SendSide T S} {b : NetworkBuffer}
    {producers : List T} {batch rest : ConcurrentQueue T PacketPtr} {r : SendResult}
    (hb : s.mSendBuffer = some b) (hvalid : b.Valid sendBufferSize)
    (htake : takeBulk producers s.mSendQueue = some (batch, rest))
    (hrun : registerSend this true producers true s = some (s', r)) :
    r = .posted ↔ ((batchBytes batch).length : Int) ≤ b.freeSize := by
  have hfree : 0 ≤ b.freeSize := by
    have hle := hvalid.write_le
    have hcap := hvalid.capacity_eq
    simp only [NetworkBuffer.freeSize]
    omega
  have hfits := copyBatch_fits hfree ⟨b.mRioBuffID, b.mOffset + b.mWritePos, 0⟩ batch
  simp only [registerSend, Bool.true_eq_false, if_false, hb, htake, Option.bind_some,
    Option.map_some, Option.some.injEq] at hrun
  rw [← hfits]
  split at hrun
  · next hfull =>
    obtain ⟨_, rfl⟩ := Prod.mk.inj hrun
    simp [hfull]
  · next hall =>
    simp only [if_true] at hrun
    obtain ⟨_, rfl⟩ := Prod.mk.inj hrun
    simpa using hall

omit [DecidableEq S] in
theorem registerSend_parts (this : S) {s : SendSide T S} {b : NetworkBuffer} {order : List T}
    {all : ConcurrentQueue T PacketPtr} (hb : s.mSendBuffer = some b)
    (hvalid : b.Valid sendBufferSize) (hcount : s.mPacketCount = s.mSendQueue.length)
    (horder : takeBulk order s.mSendQueue = some (all, [])) :
    ∃ s' r, registerSend this true (order.take bulkDequeueCount) true s = some (s', r) ∧
      (SentInParts s s' b.freeSize order all r ↔
        ((batchBytes (all.take bulkDequeueCount)).length : Int) ≤ b.freeSize) := by
  have hlen := takeBulk_length horder
  rw [← List.take_append_drop bulkDequeueCount order] at horder
  obtain ⟨rest, htake, hrest⟩ := takeBulk_append horder
  have hmin : all.take (order.take bulkDequeueCount).length = all.take bulkDequeueCount := by
    rw [List.length_take, ← hlen]
    exact List.take_eq_take_min.symm
  rw [hmin] at htake
  generalize hbatch : all.take bulkDequeueCount = batch at htake ⊢
  obtain ⟨⟨s', r⟩, hrun⟩ : ∃ result, registerSend this true (order.take bulkDequeueCount) true s =
      some result := by
    simp only [registerSend, Bool.true_eq_false, if_false, hb, htake, Option.bind_some,
      Option.map_some]
    exact ⟨_, rfl⟩
  have hposted := registerSend_posted hb hvalid htake hrun
  refine ⟨s', r, hrun, fun h => hposted.mp h.posted, ?_⟩
  intro hfit
  have hall : fitting b.freeSize batch = batch := fitting_of_fits hfit
  have hfilled := copyBatch_filled (Filled.empty (T := T) hvalid) hfit
  have hqueue := (takeBulk_spec htake).1.length_eq
  have hcopied := hposted.mpr hfit
  subst hcopied
  simp only [registerSend, Bool.true_eq_false, if_false, hb, htake, Option.bind_some,
    Option.map_some, Option.some.injEq] at hrun
  split at hrun
  · simp at hrun
  · simp only [if_true, Prod.mk.injEq, and_true] at hrun
    subst hrun
    refine ⟨rfl, ⟨_, rfl, rfl, ?_⟩, ?_, ?_⟩
    · rw [hbatch, hall]
      exact hfilled.regionBytes
    · have hserved : batch.length = (order.take bulkDequeueCount).length := takeBulk_length htake
      have hskip : order.drop (order.take bulkDequeueCount).length =
          order.drop bulkDequeueCount := by
        rcases le_total bulkDequeueCount order.length with hle | hle
        · rw [List.length_take_of_le hle]
        · rw [List.take_of_length_le hle, List.drop_length, List.drop_eq_nil_of_le hle]
      rw [hbatch, hall, hserved, hskip]
      exact hrest
    · simp only [List.length_append] at hqueue ⊢
      omega

/-- What is left of a call of `RegisterSend` on the stack. -/
def SendResult.frames : SendResult → List (Frame T)
  | .overflow => [.disconnect (.disconnect .sendBufferOver)]
  | _ => []

/-- The state in which session `x` has send side `side`, and the stack of thread `t` is `top`. -/
def withSend (s : SystemConf T S) (x : S) (t : T) (side : SendSide T S)
    (top : List (SessionFrame T S)) : SystemConf T S :=
  ⟨s.mem.set x { s.mem.session x with send := side }, Function.update s.frames t top⟩

section

variable {s : SystemConf T S} {x : S} {t : T}

@[simp] theorem withSend_send (side : SendSide T S) (top : List (SessionFrame T S)) :
    ((withSend s x t side top).mem.session x).send = side := by
  simp [withSend]

@[simp] theorem withSend_connected (side : SendSide T S) (top : List (SessionFrame T S)) :
    ((withSend s x t side top).mem.session x).mIsConnected = (s.mem.session x).mIsConnected := by
  simp [withSend]

@[simp] theorem withSend_frames (side : SendSide T S) (top : List (SessionFrame T S)) :
    (withSend s x t side top).frames t = top := by
  simp [withSend]

@[simp] theorem withSend_withSend (side side' : SendSide T S)
    (top top' : List (SessionFrame T S)) :
    withSend (withSend s x t side top) x t side' top' = withSend s x t side' top' := by
  simp [withSend, System.set]

theorem withSend_self (top : List (SessionFrame T S)) :
    withSend s x t (s.mem.session x).send top = ⟨s.mem, Function.update s.frames t top⟩ := by
  simp [withSend, System.set]

variable [Fintype T]

/-- One step of the send path. -/
theorem send_next {f : SendFrame T} {fs : List (SessionFrame T S)} {c : Choice T S}
    {side : SendSide T S} {new : List (Frame T)} (hf : s.frames t = (x, .send f) :: fs)
    (h : sendStep x t (s.mem.session x).mIsConnected (s.mem.session x).send f c =
      some (side, new)) :
    machine.next s (.step t c) =
      some (withSend s x t side ((new.map fun g => (x, g)) ++ fs)) := by
  simp only [Machine.next, hf, machine, step, h, Option.map_some, withSend]

theorem send_reach {f : SendFrame T} {fs : List (SessionFrame T S)} (c : Choice T S)
    (hf : s.frames t = (x, .send f) :: fs) (side : SendSide T S) (new : List (Frame T))
    (h : sendStep x t (s.mem.session x).mIsConnected (s.mem.session x).send f c =
      some (side, new)) :
    machine.Reach (fun _ _ => True) s
      (withSend s x t side ((new.map fun g => (x, g)) ++ fs)) :=
  .next .start trivial (send_next hf h)

/-- The copy loop of the machine does what `copyBatch` does. -/
theorem copyBatch_reach {start : Int} {copied left : ConcurrentQueue T PacketPtr}
    {fs : List (SessionFrame T S)} {b : NetworkBuffer}
    (hf : s.frames t = (x, .send (.copy start copied left)) :: fs)
    (hb : (s.mem.session x).send.mSendBuffer = some b) :
    let r := copyBatch b (s.mem.session x).send.mRioSendContext.region left
    machine.Reach (fun _ _ => True) s (withSend s x t
      { (s.mem.session x).send with
        mSendBuffer := some r.1
        mRioSendContext := { (s.mem.session x).send.mRioSendContext with region := r.2.1 } }
      ((x, if r.2.2 then .send (.copy start (copied ++ left) [])
        else .disconnect (.disconnect .sendBufferOver)) :: fs)) := by
  induction left generalizing s copied b with
  | nil =>
    have hside : { (s.mem.session x).send with mSendBuffer := some b } = (s.mem.session x).send := by
      rw [← hb]
    have hsame : withSend s x t (s.mem.session x).send ((x, .send (.copy start copied [])) :: fs) =
        s := by
      simp [withSend, System.set, ← hf]
    simp only [copyBatch, if_true, List.append_nil, hside, hsame]
    exact .start
  | cons e left ih =>
    obtain ⟨p, packet⟩ := e
    cases packet with
    | none =>
      have hfirst := send_reach .go hf (s.mem.session x).send _ rfl
      have hrest := ih (s := withSend s x t (s.mem.session x).send
        ((x, .send (.copy start (copied ++ [(p, none)]) left)) :: fs)) (withSend_frames _ _)
        (by simpa using hb)
      have hboth := hfirst.trans hrest
      simp only [withSend_send, withSend_withSend, List.append_assoc, List.cons_append,
        List.nil_append] at hboth
      simp only [copyBatch]
      exact hboth
    | some packet =>
      by_cases hfull : b.freeSize < packet.writeSize
      · have hside : { (s.mem.session x).send with mSendBuffer := some b } =
            (s.mem.session x).send := by
          rw [← hb]
        have hfirst := send_reach .go hf (s.mem.session x).send
          [.disconnect (.disconnect .sendBufferOver)] (by simp [sendStep, hb, hfull])
        simpa [copyBatch, hfull, hside] using hfirst
      · let side := { (s.mem.session x).send with
          mSendBuffer := some (b.append packet.buffer)
          mRioSendContext := { (s.mem.session x).send.mRioSendContext with
            region := { (s.mem.session x).send.mRioSendContext.region with
              length := (s.mem.session x).send.mRioSendContext.region.length +
                packet.writeSize } } }
        have hfirst := send_reach .go hf side
          [.send (.copy start (copied ++ [(p, some packet)]) left)]
          (by simp [sendStep, hb, hfull, side])
        have hrest := ih (s := withSend s x t side
          ((x, .send (.copy start (copied ++ [(p, some packet)]) left)) :: fs)) (withSend_frames _ _)
          (b := b.append packet.buffer) (by simp [side])
        simpa [copyBatch, hfull, side] using hfirst.trans hrest

/-- `registerSend` is what the steps of one thread do when no other thread interferes. -/
theorem registerSend_reach {caller : Caller} {fs : List (SessionFrame T S)} {producers : List T}
    {ok : Bool} {side : SendSide T S} {r : SendResult}
    (hf : s.frames t = (x, .send (.register caller)) :: fs)
    (hlen : producers.length ≤ bulkDequeueCount)
    (hempty : producers = [] → (s.mem.session x).send.mSendQueue = [])
    (hrun : registerSend x (s.mem.session x).mIsConnected producers ok (s.mem.session x).send =
      some (side, r)) :
    machine.Reach (fun _ _ => True) s
      (withSend s x t side ((r.frames.map fun g => (x, g)) ++ fs)) := by
  let σ := (s.mem.session x).send
  cases hc : (s.mem.session x).mIsConnected with
  | false =>
    obtain ⟨rfl, rfl⟩ : σ = side ∧ SendResult.notConnected = r := by
      simpa [registerSend, hc] using hrun
    exact send_reach .go hf σ [] (by simp [sendStep, hc, σ])
  | true =>
    simp only [registerSend, hc, Bool.true_eq_false, if_false, Option.bind_eq_some_iff,
      Option.map_eq_some_iff] at hrun
    obtain ⟨b, hb, ⟨batch, rest⟩, htake, hrun⟩ := hrun
    let context : RioContext S := ⟨some x, b.mRioBuffID, b.mOffset + b.mWritePos, 0⟩
    let prepared : SendSide T S := { σ with mRioSendContext := context }
    let dequeued : SendSide T S := { prepared with mSendQueue := rest }
    have hregister := send_reach .go hf σ [.send (.prepare caller)]
      (by simp [sendStep, hc, σ])
    have hprepare := send_reach .go
      (withSend_frames (s := s) (x := x) (t := t) σ ((x, .send (.prepare caller)) :: fs))
      prepared [.send (.dequeue caller)]
      (by simp [sendStep, hb, σ, prepared, context])
    have hdequeue := send_reach (.take producers)
      (withSend_frames (s := s) (x := x) (t := t) prepared ((x, .send (.dequeue caller)) :: fs))
      dequeued [.send (.copy b.mWritePos [] batch)]
      (by
        simp only [withSend_send, sendStep, prepared, σ]
        rw [if_pos ⟨hlen, hempty⟩]
        simp [hb, htake, dequeued, prepared, σ])
    have hcopy := copyBatch_reach (b := b)
      (withSend_frames (s := s) (x := x) (t := t) dequeued
        ((x, .send (.copy b.mWritePos [] batch)) :: fs)) (by simp [dequeued, prepared, σ, hb])
    simp only [withSend_withSend, withSend_send, List.map_cons, List.map_nil, List.cons_append,
      List.nil_append] at hregister hprepare hdequeue hcopy
    have hcopied := ((hregister.trans hprepare).trans hdequeue).trans hcopy
    let copied : SendSide T S := { dequeued with
      mSendBuffer := some (copyBatch b context.region batch).1
      mRioSendContext := { context with region := (copyBatch b context.region batch).2.1 } }
    cases hall : (copyBatch b context.region batch).2.2 with
    | false =>
      simp only [dequeued, prepared, hall, Bool.false_eq_true, if_false] at hcopied
      simp only [context] at hall
      rw [if_pos hall] at hrun
      obtain ⟨rfl, rfl⟩ := Prod.mk.inj hrun
      exact hcopied
    | true =>
      let subtracted : SendSide T S := { copied with mPacketCount := σ.mPacketCount - batch.length }
      simp only [dequeued, prepared, hall, if_true] at hcopied
      have hsubtract := send_reach .go
        (withSend_frames (s := s) (x := x) (t := t) copied
          ((x, .send (.copy b.mWritePos batch [])) :: fs))
        subtracted [.send (.post b.mWritePos batch)]
        (by simp [sendStep, subtracted, copied, dequeued, prepared])
      simp only [context] at hall
      rw [if_neg (by simp [hall])] at hrun
      have hloaded := hcopied.trans hsubtract
      have hposting := withSend_frames (s := s) (x := x) (t := t) subtracted
        ((x, .send (.post b.mWritePos batch)) :: fs)
      rw [withSend_withSend] at hloaded
      cases ok with
      | true =>
        obtain ⟨rfl, rfl⟩ := Prod.mk.inj hrun
        let post : Post T := ⟨(copyBatch b context.region batch).2.1, b.mWritePos, batch,
          (copyBatch b context.region batch).1⟩
        have hpost := send_reach (.result true) hposting
          { subtracted with
            outstanding := subtracted.outstanding ++ [post]
            posted := subtracted.posted ++ [post] } []
          (by simp [sendStep, subtracted, copied, post])
        rw [withSend_withSend] at hpost
        exact hloaded.trans hpost
      | false =>
        obtain ⟨rfl, rfl⟩ := Prod.mk.inj hrun
        let cleared : SendSide T S := { subtracted with
          mRioSendContext := { subtracted.mRioSendContext with mDispatcher := none } }
        have hpost := send_reach (.result false) hposting subtracted
          [.send .rejected] (by simp [sendStep, subtracted, copied])
        have hclear := send_reach .go
          (withSend_frames (s := s) (x := x) (t := t) subtracted ((x, .send .rejected) :: fs))
          cleared [.send .unregister] (by simp [sendStep, cleared])
        have hunregister := send_reach .go
          (withSend_frames (s := s) (x := x) (t := t) cleared ((x, .send .unregister) :: fs))
          { cleared with mSendRegistered := false } [] (by simp [sendStep])
        rw [withSend_withSend] at hpost hclear hunregister
        exact ((hloaded.trans hpost).trans hclear).trans hunregister

/-- A thread that runs `RegisterSend` of a connected session sends a backlog in parts just when its
next packets fit in the send buffer together. -/
theorem sends_in_parts {caller : Caller} {fs : List (SessionFrame T S)} {b : NetworkBuffer}
    {order : List T} {all : ConcurrentQueue T PacketPtr}
    (hf : s.frames t = (x, .send (.register caller)) :: fs)
    (hc : (s.mem.session x).mIsConnected = true)
    (hb : (s.mem.session x).send.mSendBuffer = some b) (hvalid : b.Valid sendBufferSize)
    (hcount : (s.mem.session x).send.mPacketCount = (s.mem.session x).send.mSendQueue.length)
    (horder : takeBulk order (s.mem.session x).send.mSendQueue = some (all, [])) :
    ∃ side r, registerSend x true (order.take bulkDequeueCount) true (s.mem.session x).send =
        some (side, r) ∧
      machine.Reach (fun _ _ => True) s
        (withSend s x t side ((r.frames.map fun g => (x, g)) ++ fs)) ∧
      (SentInParts (s.mem.session x).send side b.freeSize order all r ↔
        ((batchBytes (all.take bulkDequeueCount)).length : Int) ≤ b.freeSize) := by
  obtain ⟨side, r, hrun, hparts⟩ := registerSend_parts x hb hvalid hcount horder
  have hempty (hnil : order.take bulkDequeueCount = []) :
      (s.mem.session x).send.mSendQueue = [] := by
    obtain rfl : order = [] := by simpa [bulkDequeueCount] using hnil
    simpa [takeBulk] using (Prod.mk.inj (Option.some.inj horder)).2
  have hreach := registerSend_reach hf (List.length_take_le _ _) hempty (hc ▸ hrun)
  exact ⟨side, r, hrun, hreach, hparts⟩

end

/-- The send side of a fresh session with a buffer and the packets of `queue`. -/
def backlogged (queue : ConcurrentQueue Unit PacketPtr) : SendSide Unit Unit :=
  { (Session.construct : Session Unit Unit).send with
    mSendBuffer := some (.construct 2 0 (List.replicate 32768 0) (32768 : ℕ))
    mSendQueue := queue
    mPacketCount := queue.length }

/-- Three packets of the largest size. -/
def largePackets : ConcurrentQueue Unit PacketPtr :=
  List.replicate 3 ((), some ⟨List.replicate Packets.packetChunkSize 0⟩)

theorem largePackets_length : (batchBytes largePackets).length = 3 * Packets.packetChunkSize := by
  simp only [largePackets, List.replicate_succ, List.replicate_zero, batchBytes_cons, packetBytes,
    batchBytes_nil, List.length_replicate, List.length_nil]
  rfl

theorem backlog_disconnects : ¬∀ (s : SendSide Unit Unit) (b : NetworkBuffer) (order : List Unit)
    (all : ConcurrentQueue Unit PacketPtr), s.mSendBuffer = some b → b.Valid sendBufferSize →
    s.mPacketCount = s.mSendQueue.length →
    (∀ e ∈ s.mSendQueue, (packetBytes e.2).length ≤ Packets.packetChunkSize) →
    takeBulk order s.mSendQueue = some (all, []) →
    ∃ s' r, registerSend () true (order.take bulkDequeueCount) true s = some (s', r) ∧
      SentInParts s s' b.freeSize order all r := by
  intro claim
  have hvalid := RegisteredBufferPool.construct_valid 2 0 32768
  have htake : takeBulk [(), (), ()] (backlogged largePackets).mSendQueue =
      some (largePackets, []) := rfl
  have hsize : ∀ e ∈ largePackets, (packetBytes e.2).length ≤ Packets.packetChunkSize := by
    intro e he
    rw [List.eq_of_mem_replicate he]
    exact List.length_replicate.le
  obtain ⟨s', r, hrun, hparts⟩ := claim (backlogged largePackets) _ [(), (), ()] largePackets rfl
    hvalid rfl hsize htake
  have hfit := (registerSend_posted rfl hvalid htake hrun).mp hparts.posted
  have hfree : (NetworkBuffer.construct 2 0 (List.replicate 32768 0) (32768 : ℕ)).freeSize =
      32768 := rfl
  rw [largePackets_length, hfree] at hfit
  exact absurd hfit (by decide)

def smallPackets : ConcurrentQueue Unit PacketPtr := [((), some ⟨[1]⟩), ((), some ⟨[2, 3]⟩)]

/-- A thread is about to run `RegisterSend` of a connected session with two small packets. -/
def registering : SystemConf Unit Unit :=
  ⟨(System.start .empty .empty).set () { (Session.construct : Session Unit Unit) with
      mIsConnected := true
      send := backlogged smallPackets },
    fun _ => [((), .send (.register .send))]⟩

theorem sends_in_parts_twoPackets : ∃ side r,
    SentInParts (backlogged smallPackets) side 32768 [(), ()] smallPackets r := by
  have htake : takeBulk [(), ()] (backlogged smallPackets).mSendQueue =
      some (smallPackets, []) := rfl
  obtain ⟨side, r, _, _, hparts⟩ := sends_in_parts (s := registering) (x := ()) (t := ())
    rfl rfl rfl (RegisteredBufferPool.construct_valid 2 0 32768) rfl htake
  exact ⟨side, r, hparts.mpr (by decide)⟩

end ServerCore.Network
