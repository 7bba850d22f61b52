import ServerCore.Network.SendStream
import ServerCore.Network.PacketSession

namespace ServerCore.Network

open Framework ConcurrentQueue

/-- A packet that `MakePacketBuffer` built, small enough for the other side's receive buffer. -/
def Built (packet : PacketPtr) : Prop :=
  ∃ p : UInt32 × List UInt8, packet = some ⟨makePacketBuffer p.1 p.2⟩ ∧
    ((sizeofPacketHeader + p.2.length : ℕ) : Int) ≤ recvBufferSize

variable {T S : Type}

/-- The messages of packets that were built. -/
theorem exists_messages (batch : ConcurrentQueue T PacketPtr) (h : ∀ e ∈ batch, Built e.2) :
    ∃ messages : List (UInt32 × List UInt8),
      messages.map (fun p => makePacketBuffer p.1 p.2) = batch.map (fun e => packetBytes e.2) ∧
      ∀ p ∈ messages, ((sizeofPacketHeader + p.2.length : ℕ) : Int) ≤ recvBufferSize := by
  induction batch with
  | nil => exact ⟨[], rfl, by simp⟩
  | cons e batch ih =>
    obtain ⟨p, hp, hsize⟩ := h e (by simp)
    obtain ⟨messages, hmap, hmessages⟩ := ih fun e he => h e (by simp [he])
    refine ⟨p :: messages, ?_, ?_⟩
    · rw [List.map_cons, List.map_cons, hmap, hp]
      rfl
    · intro q hq
      rcases List.mem_cons.mp hq with rfl | hq
      · exact hsize
      · exact hmessages q hq

variable [DecidableEq T] [DecidableEq S] [Fintype T]

/-- The other side of a session, which gets the bytes of the posted sends in pieces of its own, has
been handed `batch`. -/
structure Delivered (s : SendSide T S) (batch : ConcurrentQueue T PacketPtr) (r : Receiver) :
    Prop where
  connected : r.mIsConnected = true
  received : r.received = batch.map fun e => packetBytes e.2
  isPrefix : batch <+: s.posted.flatMap Post.packets
  at_most_once : List.Subperm batch s.accepted
  in_order : ∀ p, (ofProducer p batch).Sublist (ofProducer p s.accepted)

/-- Any number of threads send to any number of sessions, connecting and disconnecting as they
like, and the bytes travel in any pieces: the other side is handed whole packets that were sent, each
at most once and those of one thread in its order; and all of them once all bytes are there. -/
theorem packets_delivered {ok : SystemConf T S → Action T (Choice T S) → Prop}
    {s : SystemConf T S} (recvPool : RegisteredBufferPool T) (allocated : Bool)
    (registered : Option ℕ) (t : T) (size : ℕ)
    (h : machine.Reach ok (start recvPool (.initializePool 32768 allocated registered t size)) s)
    (x : S) (hbuilt : ∀ e ∈ (s.mem.session x).send.accepted, Built e.2)
    (rioBuffID : ℕ) (offset : Int) (slice : List UInt8)
    (hslice : (slice.length : Int) = recvBufferSize) (chunks : List (List UInt8))
    (hstream : chunks.flatten <+: (s.mem.session x).send.posted.flatMap fun post =>
      post.buffer.regionBytes post.region)
    (hfits : (Receiver.connected rioBuffID offset slice).fits chunks = true) :
    ∃ r batch, (Receiver.connected rioBuffID offset slice).receiveAll chunks = some r ∧
      Delivered (s.mem.session x).send batch r ∧
      (chunks.flatten = ((s.mem.session x).send.posted.flatMap fun post =>
        post.buffer.regionBytes post.region) →
        batch = (s.mem.session x).send.posted.flatMap Post.packets) := by
  have hpool := RegisteredBufferPool.initializePool_valid 32768 allocated registered t size
  obtain ⟨_, hfilled, hinOrder⟩ := (sendStream_reach hpool h x).1
  generalize (s.mem.session x).send = side at hbuilt hstream hfilled hinOrder ⊢
  have horder (p : T) : (ofProducer p (side.posted.flatMap Post.packets)).Sublist
      (ofProducer p side.accepted) := by
    refine List.Sublist.trans ?_ (hinOrder p)
    rw [List.append_nil, ofProducer_append]
    exact List.sublist_append_left _ _
  have hbytes : (side.posted.flatMap fun post => post.buffer.regionBytes post.region) =
      ((side.posted.flatMap Post.packets).map fun e => packetBytes e.2).flatten := by
    rw [← List.flatMap_def, List.flatMap_assoc]
    exact List.flatMap_congr fun post hpost => (hfilled post hpost).regionBytes
  rw [hbytes] at hstream ⊢
  generalize hpackets : side.posted.flatMap Post.packets = packets at hstream horder ⊢
  have hmem : ∀ e ∈ packets, Built e.2 := by
    intro e he
    exact hbuilt e ((subperm_of_producers horder).subset he)
  obtain ⟨messages, hmap, hsize⟩ := exists_messages packets hmem
  rw [← hmap] at hstream
  obtain ⟨r, hrun, hc, _, _, hreceived⟩ := Receiver.receive_packets rioBuffID offset slice hslice
    messages hsize chunks hstream hfits
  have htake := arrived_map (fun e : T × PacketPtr => packetBytes e.2) chunks.flatten.length packets
  rw [hmap] at hreceived
  refine ⟨r, _, hrun, ⟨hc, hreceived.trans htake, ?_, ?_, ?_⟩, ?_⟩
  · rw [hpackets]
    exact List.take_prefix _ _
  · exact subperm_of_producers fun p =>
      ((List.take_sublist _ _).filter _ |>.map Prod.snd).trans (horder p)
  · exact fun p => ((List.take_sublist _ _).filter _ |>.map Prod.snd).trans (horder p)
  · intro hall
    rw [hall, arrived_all, List.length_map, List.take_length]

/-- A thread sends a packet of eleven bytes, which arrive in two pieces. -/
theorem packets_delivered_twoPieces : ∃ s : SystemConf (Fin 2) Unit, ∃ r,
    (s.mem.session ()).send.accepted = [(1, some ⟨makePacketBuffer 7 [1, 2, 3]⟩)] ∧
      (Receiver.connected 1 0 (List.replicate 16384 0)).receiveAll
        [[11, 0, 0, 0, 7], [0, 0, 0, 1, 2, 3]] = some r ∧
      r.received = [makePacketBuffer 7 [1, 2, 3]] := by
  have hr := Machine.reach_final machine smallStart
    (connectRun 0 0 () ++ sendRun 1 () ⟨makePacketBuffer 7 [1, 2, 3]⟩) (by decide)
  have haccepted : ((machine.final smallStart (connectRun 0 0 () ++
      sendRun 1 () ⟨makePacketBuffer 7 [1, 2, 3]⟩) (by decide)).mem.session ()).send.accepted =
      [(1, some ⟨makePacketBuffer 7 [1, 2, 3]⟩)] := by decide
  have hbuilt : ∀ e ∈ ((machine.final smallStart (connectRun 0 0 () ++
      sendRun 1 () ⟨makePacketBuffer 7 [1, 2, 3]⟩) (by decide)).mem.session ()).send.accepted,
      Built e.2 := by
    rw [haccepted]
    intro e he
    rw [List.mem_singleton.mp he]
    exact ⟨(7, [1, 2, 3]), rfl, by decide⟩
  obtain ⟨r, batch, hrun, hdelivered, hall⟩ := packets_delivered _ true (some 2) 0 1 hr () hbuilt
    1 0 (List.replicate 16384 0) (by rw [List.length_replicate]; rfl)
    [[11, 0, 0, 0, 7], [0, 0, 0, 1, 2, 3]] (by decide) (by decide)
  have hbatch := hall (by decide)
  refine ⟨_, r, haccepted, hrun, ?_⟩
  rw [hdelivered.received, hbatch]
  decide

end ServerCore.Network
