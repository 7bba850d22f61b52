import ServerCore.Network.NetworkBuffer

namespace ServerCore.Network

open NetworkBuffer

/-- A little-endian 32-bit field. -/
def writeU32 (n : UInt32) : List UInt8 :=
  [UInt8.ofNat n.toNat, UInt8.ofNat (n.toNat / 256), UInt8.ofNat (n.toNat / 65536),
    UInt8.ofNat (n.toNat / 16777216)]

def readU32 : List UInt8 → UInt32
  | b₀ :: b₁ :: b₂ :: b₃ :: _ => UInt32.ofNat
      (b₀.toNat + 256 * b₁.toNat + 65536 * b₂.toNat + 16777216 * b₃.toNat)
  | _ => 0

structure PacketHeader where
  size : UInt32
  id : UInt32
  deriving DecidableEq

def sizeofPacketHeader : ℕ := 8

def PacketHeader.write (h : PacketHeader) : List UInt8 := writeU32 h.size ++ writeU32 h.id

/-- `*reinterpret_cast<PacketHeader*>(buffer)`. -/
def PacketHeader.read (buffer : List UInt8) : PacketHeader :=
  ⟨readU32 buffer, readU32 (buffer.drop 4)⟩

theorem readU32_writeU32 (n : UInt32) (rest : List UInt8) : readU32 (writeU32 n ++ rest) = n := by
  have hn := n.toNat_lt
  apply UInt32.toNat_inj.mp
  simp only [writeU32, readU32, List.cons_append, UInt32.toNat_ofNat', UInt8.toNat_ofNat']
  omega

theorem PacketHeader.read_write (h : PacketHeader) (rest : List UInt8) :
    PacketHeader.read (h.write ++ rest) = h := by
  have hid : (h.write ++ rest).drop 4 = writeU32 h.id ++ rest := by
    rw [PacketHeader.write, List.append_assoc]
    exact List.drop_left' rfl
  rw [PacketHeader.read, hid, readU32_writeU32, PacketHeader.write, List.append_assoc,
    readU32_writeU32]

theorem PacketHeader.read_append (d rest : List UInt8) (h : sizeofPacketHeader ≤ d.length) :
    PacketHeader.read (d ++ rest) = PacketHeader.read d := by
  match d, h with
  | _ :: _ :: _ :: _ :: _ :: _ :: _ :: _ :: _, _ => rfl

/-- The bytes of a packet with the given serialized message. -/
def makePacketBuffer (pktId : UInt32) (pkt : List UInt8) : List UInt8 :=
  let dataSize := UInt32.ofNat pkt.length
  let packetSize := dataSize + UInt32.ofNat sizeofPacketHeader
  PacketHeader.write ⟨packetSize, pktId⟩ ++ pkt

/-- `PacketSession::OnRecv` on the `len` bytes of `buffer`, from `processLen` on: the packets
handed to `OnRecvPacket` and the final `processLen`. The first argument bounds the
iterations. Integers are compared as the conversions of the source make them. -/
def onRecvLoop (buffer : List UInt8) : ℕ → Int → Option (List (List UInt8) × Int)
  | 0, _ => none
  | n + 1, processLen =>
      let dataSize : Int := buffer.length - processLen
      if dataSize % 2 ^ 64 < sizeofPacketHeader then some ([], processLen)
      else
        let header := PacketHeader.read (buffer.drop processLen.toNat)
        if dataSize % 2 ^ 32 < header.size.toNat then some ([], processLen)
        else
          (onRecvLoop buffer n (processLen + header.size.toNat)).map fun r =>
            ((buffer.drop processLen.toNat).take header.size.toNat :: r.1, r.2)

/-- `none` when the loop never ends. -/
def onRecv (buffer : List UInt8) : Option (List (List UInt8) × Int) :=
  onRecvLoop buffer (buffer.length + 1) 0

/-- A byte string that `onRecv` takes for one whole packet. -/
structure IsPacket (p : List UInt8) : Prop where
  header_le : sizeofPacketHeader ≤ p.length
  small : p.length < 2 ^ 31
  size_eq : (PacketHeader.read p).size.toNat = p.length

theorem makePacketBuffer_length (pktId : UInt32) (pkt : List UInt8) :
    (makePacketBuffer pktId pkt).length = sizeofPacketHeader + pkt.length := by
  simp only [makePacketBuffer, PacketHeader.write, writeU32, sizeofPacketHeader,
    List.length_append, List.length_cons, List.length_nil]

theorem makePacketBuffer_isPacket (pktId : UInt32) (pkt : List UInt8)
    (h : sizeofPacketHeader + pkt.length < 2 ^ 31) : IsPacket (makePacketBuffer pktId pkt) := by
  have hlen := makePacketBuffer_length pktId pkt
  refine ⟨by omega, by omega, ?_⟩
  rw [hlen, makePacketBuffer, PacketHeader.read_write, UInt32.toNat_add,
    UInt32.toNat_ofNat', UInt32.toNat_ofNat']
  simp only [sizeofPacketHeader] at h ⊢
  omega

/-- The packets of a stream that have fully arrived with its first `n` bytes. -/
def arrived : ℕ → List (List UInt8) → List (List UInt8)
  | _, [] => []
  | n, p :: ps => if p.length ≤ n then p :: arrived (n - p.length) ps else []

/-- Of the packets still to come, `d` is what has arrived, less than the first of them. -/
structure Waiting (ps : List (List UInt8)) (d : List UInt8) : Prop where
  isPrefix : d <+: ps.flatten
  short : ∀ p ∈ ps.head?, d.length < p.length

theorem arrived_append (ps qs : List (List UInt8)) (n : ℕ) (h : ps.flatten.length ≤ n) :
    arrived n (ps ++ qs) = ps ++ arrived (n - ps.flatten.length) qs := by
  induction ps generalizing n with
  | nil => simp
  | cons p ps ih =>
    simp only [List.flatten_cons, List.length_append] at h
    rw [List.cons_append, arrived, if_pos (by omega), ih (n - p.length) (by omega),
      List.flatten_cons, List.length_append, Nat.sub_sub, List.cons_append]

theorem Waiting.arrived_eq {ps : List (List UInt8)} {d : List UInt8} (h : Waiting ps d) :
    arrived d.length ps = [] := by
  cases ps with
  | nil => rfl
  | cons p ps =>
    have hp := h.short p (by simp)
    rw [arrived, if_neg (by omega)]

theorem arrived_isPrefix (n : ℕ) (ps : List (List UInt8)) : arrived n ps <+: ps := by
  induction ps generalizing n with
  | nil => exact List.prefix_refl _
  | cons p ps ih =>
    rw [arrived]
    split
    · exact (List.prefix_cons_inj p).mpr (ih _)
    · exact List.nil_prefix

theorem arrived_all (ps : List (List UInt8)) : arrived ps.flatten.length ps = ps := by
  induction ps with
  | nil => rfl
  | cons p ps ih =>
    rw [List.flatten_cons, List.length_append, arrived, if_pos (Nat.le_add_right _ _),
      Nat.add_sub_cancel_left, ih]

/-- What has arrived of the images of a list are the images of a prefix. -/
theorem arrived_map {α : Type} (f : α → List UInt8) (n : ℕ) (xs : List α) :
    arrived n (xs.map f) = (xs.take (arrived n (xs.map f)).length).map f := by
  rw [List.map_take]
  exact List.prefix_iff_eq_take.mp (arrived_isPrefix n _)

/-- The loop, begun at `start`, hands over the whole packets at the front of `ps` and ends. -/
def HandsOver (buffer : List UInt8) (n start : ℕ) (ps : List (List UInt8)) : Prop :=
  ∃ done left, ps = done ++ left ∧ start + done.flatten.length ≤ buffer.length ∧
    onRecvLoop buffer n start = some (done, ((start + done.flatten.length : ℕ) : Int)) ∧
    Waiting left (buffer.drop (start + done.flatten.length))

theorem onRecvLoop_spec (buffer : List UInt8) (hsmall : buffer.length < 2 ^ 31) (n : ℕ)
    (ps : List (List UInt8)) (hps : ∀ p ∈ ps, IsPacket p) (start : ℕ)
    (hstart : start ≤ buffer.length) (hn : buffer.length - start < n)
    (hd : buffer.drop start <+: ps.flatten) : HandsOver buffer n start ps := by
  induction n generalizing ps start with
  | zero => omega
  | succ n ih =>
    have hlen : (buffer.drop start).length = buffer.length - start := List.length_drop
    have hdata : ((buffer.length : Int) - start) % 2 ^ 64 = (buffer.length - start : ℕ) := by omega
    have hdata' : ((buffer.length : Int) - start) % 2 ^ 32 = (buffer.length - start : ℕ) := by omega
    have stop (hshort : ∀ p ∈ ps.head?, (buffer.drop start).length < p.length)
        (hstep : onRecvLoop buffer (n + 1) start = some ([], (start : Int))) :
        HandsOver buffer (n + 1) start ps := by
      refine ⟨[], ps, rfl, by simpa using hstart, by simpa using hstep, ?_, ?_⟩
      · simpa using hd
      · simpa using hshort
    by_cases hhead : buffer.length - start < sizeofPacketHeader
    · refine stop ?_ ?_
      · intro p hp
        have hsize := (hps p (List.mem_of_mem_head? hp)).header_le
        omega
      · simp only [onRecvLoop]
        rw [hdata, if_pos (by exact_mod_cast hhead)]
    · cases ps with
      | nil =>
        have hnil := hd.length_le
        simp only [List.flatten_nil, List.length_nil, hlen, sizeofPacketHeader] at hnil hhead
        omega
      | cons p ps =>
        have hp := hps p (by simp)
        by_cases hshort : buffer.length - start < p.length
        · -- the header has arrived, and says that the packet has not
          have hpre : buffer.drop start <+: p :=
            List.prefix_of_prefix_length_le hd (List.prefix_append _ _) (by omega)
          obtain ⟨rest, hrest⟩ := hpre
          have hsize := hp.size_eq
          rw [← hrest, PacketHeader.read_append _ _ (by omega), hrest] at hsize
          refine stop ?_ ?_
          · intro q hq
            obtain rfl : p = q := by simpa using hq
            omega
          · simp only [onRecvLoop]
            rw [hdata, hdata', Int.toNat_natCast, if_neg (by exact_mod_cast hhead), if_pos]
            rw [hsize]
            exact_mod_cast hshort
        · have hpre : p <+: buffer.drop start :=
            List.prefix_of_prefix_length_le (List.prefix_append _ _) hd (by omega)
          obtain ⟨rest, hrest⟩ := hpre
          have hsize := hp.size_eq
          rw [← PacketHeader.read_append p rest hp.header_le, hrest] at hsize
          have hdrop : buffer.drop (start + p.length) = rest := by
            rw [← List.drop_drop, ← hrest, List.drop_left]
          have hrestPrefix : rest <+: ps.flatten := by
            rw [← hrest, List.flatten_cons] at hd
            exact (List.prefix_append_right_inj p).mp hd
          have htake : (buffer.drop start).take p.length = p := by rw [← hrest, List.take_left]
          have hpos := hp.header_le
          simp only [sizeofPacketHeader] at hpos
          obtain ⟨done, left, hsplit, hfit, hrun, hwait⟩ :=
            ih ps (fun q hq => hps q (by simp [hq])) (start + p.length) (by omega) (by omega)
              (hdrop ▸ hrestPrefix)
          have hsum : start + (p :: done).flatten.length = start + p.length + done.flatten.length := by
            rw [List.flatten_cons, List.length_append, Nat.add_assoc]
          refine ⟨p :: done, left, by rw [hsplit, List.cons_append], by omega, ?_, ?_⟩
          · simp only [onRecvLoop]
            rw [hdata, hdata', Int.toNat_natCast, if_neg (by exact_mod_cast hhead), if_neg, hsize,
              ← Nat.cast_add, hrun, htake, hsum]
            · rfl
            · rw [hsize]
              exact_mod_cast hshort
          · rw [hsum]
            exact hwait

/-- The receiving side of a session. The last two fields are history: the regions passed to
`RIOReceive` and the packets passed to `OnRecvPacket`. -/
structure Receiver where
  mIsConnected : Bool
  mRecvBuffer : Option NetworkBuffer
  mRioRecvContext : RioBuf
  posted : List RioBuf
  received : List (List UInt8)
  deriving DecidableEq

namespace Receiver

def disconnect (r : Receiver) : Receiver := { r with mIsConnected := false }

/-- `RIOReceive` accepts the request. -/
def registerRecv (r : Receiver) : Receiver :=
  if r.mIsConnected = false then r
  else
    match r.mRecvBuffer with
    | none => r
    | some b =>
        { r with mRioRecvContext := b.recvRegion, posted := r.posted ++ [b.recvRegion] }

/-- What `ProcessRecv` does after `OnRecv` returned `processLen`. -/
def afterRecv (r : Receiver) (b : NetworkBuffer) (processLen : Int) : Receiver :=
  if processLen < 0 ∨ b.dataSize < processLen then r.disconnect
  else
    match b.onRead processLen with
    | (_, false) => r.disconnect
    | (b, true) => registerRecv { r with mRecvBuffer := some b.clean }

/-- `bytes` were received into the posted region, and `ProcessRecv(bytes.length)` runs. -/
def processRecv (r : Receiver) (bytes : List UInt8) : Option Receiver :=
  if bytes.length = 0 then some r.disconnect
  else
    match r.mRecvBuffer with
    | none => some r.disconnect
    | some b =>
        match (b.store bytes).onWrite bytes.length with
        | (b, false) => some { r with mRecvBuffer := some b }.disconnect
        | (b, true) => (onRecv b.data).map fun packets =>
            afterRecv { r with mRecvBuffer := some b, received := r.received ++ packets.1 } b
              packets.2

/-- One completion after another. -/
def receiveAll : Receiver → List (List UInt8) → Option Receiver
  | r, [] => some r
  | r, bytes :: chunks => (r.processRecv bytes).bind fun r => r.receiveAll chunks

/-- Every completion has between one byte and as many as the preceding `RIOReceive` asked for. -/
def fits : Receiver → List (List UInt8) → Bool
  | _, [] => true
  | r, bytes :: chunks =>
      decide (1 ≤ bytes.length ∧ (bytes.length : Int) ≤ r.mRioRecvContext.length) &&
        match r.processRecv bytes with
        | none => true
        | some r => r.fits chunks

/-- A session at the end of `ProcessConnect`, with a slice from the pool. -/
def connected (rioBuffID : ℕ) (offset : Int) (slice : List UInt8) : Receiver :=
  registerRecv
    ⟨true, some (construct rioBuffID offset slice recvBufferSize), ⟨0, 0, 0⟩, [], []⟩

/-- A healthy session with slice `rioBuffID`, `offset`: the packets `done` were handed over and
`left` are still to come, of which `d` has arrived. -/
structure Framing (rioBuffID : ℕ) (offset : Int) (done left : List (List UInt8)) (d : List UInt8)
    (r : Receiver) : Prop where
  connected : r.mIsConnected = true
  buffer : ∃ b, r.mRecvBuffer = some b ∧ b.Valid recvBufferSize ∧ b.mRioBuffID = rioBuffID ∧
    b.mOffset = offset ∧ b.data = d ∧ r.mRioRecvContext = b.recvRegion
  waiting : Waiting left d
  posted : ∀ region ∈ r.posted, 0 < region.length ∧ region.bufferId = rioBuffID ∧
    offset ≤ region.offset ∧ region.offset + region.length ≤ offset + recvBufferSize
  received : r.received = done

variable {rioBuffID : ℕ} {offset : Int} {done left : List (List UInt8)} {d : List UInt8}
  {r : Receiver}

/-- `RegisterRecv` finds room: what waits is less than one packet, and `Clean` has made room. -/
theorem freeSize_pos {b : NetworkBuffer} (h : b.Valid recvBufferSize)
    (hclean : b.mReadPos = 0 ∨ b.mReSizePos ≤ b.freeSize)
    (hshort : (b.data.length : Int) < recvBufferSize) : 0 < b.freeSize := by
  have hdata := h.length_data
  have hcap := h.capacity_eq
  have hre := h.reSizePos_eq
  simp only [dataSize, freeSize, recvBufferSize] at *
  omega

theorem framing_registerRecv {b : NetworkBuffer} (hc : r.mIsConnected = true)
    (hb : r.mRecvBuffer = some b) (hvalid : b.Valid recvBufferSize) (hid : b.mRioBuffID = rioBuffID)
    (hoff : b.mOffset = offset) (hw : Waiting left b.data) (hroom : 0 < b.freeSize)
    (hposted : ∀ region ∈ r.posted, 0 < region.length ∧ region.bufferId = rioBuffID ∧
      offset ≤ region.offset ∧ region.offset + region.length ≤ offset + recvBufferSize)
    (hreceived : r.received = done) :
    Framing rioBuffID offset done left b.data r.registerRecv ∧
      r.registerRecv.posted.length = r.posted.length + 1 := by
  have hrun : r.registerRecv =
      { r with mRioRecvContext := b.recvRegion, posted := r.posted ++ [b.recvRegion] } := by
    rw [registerRecv, if_neg (by simp [hc]), hb]
  rw [hrun]
  refine ⟨⟨hc, ⟨b, hb, hvalid, hid, hoff, rfl, rfl⟩, hw, ?_, hreceived⟩, by simp⟩
  intro region hregion
  rcases List.mem_append.mp hregion with h | h
  · exact hposted region h
  · obtain rfl : region = b.recvRegion := by simpa using h
    obtain ⟨_, hlow, hhigh⟩ := hvalid.encloses_recvRegion
    have hcap := hvalid.capacity_eq
    exact ⟨hroom, hid, by omega, by omega⟩

theorem afterRecv_spec {b b' : NetworkBuffer} {n : ℕ} (hfit : (n : Int) ≤ b.dataSize)
    (hread : b.onRead n = (b', true)) :
    r.afterRecv b n = registerRecv { r with mRecvBuffer := some b'.clean } := by
  rw [afterRecv, if_neg (by omega), hread]

/-- One completion hands over the packets that it completes. -/
theorem Framing.processRecv (h : Framing rioBuffID offset done left d r)
    (hleft : ∀ p ∈ left, IsPacket p ∧ (p.length : Int) ≤ recvBufferSize) (bytes : List UInt8)
    (hpos : 1 ≤ bytes.length) (hlen : (bytes.length : Int) ≤ r.mRioRecvContext.length)
    (hstream : d ++ bytes <+: left.flatten) :
    ∃ r' now later d', r.processRecv bytes = some r' ∧ left = now ++ later ∧
      now.flatten ++ d' = d ++ bytes ∧ Framing rioBuffID offset (done ++ now) later d' r' ∧
      r'.posted.length = r.posted.length + 1 := by
  obtain ⟨b, hb, hvalid, hid, hoff, hd, hctx⟩ := h.buffer
  rw [hctx] at hlen
  obtain ⟨b₁, hwrite, hvalid₁, hdata₁, hid₁, hoff₁⟩ := hvalid.receive bytes hlen
  rw [hd] at hdata₁
  have hsize := hvalid₁.length_data
  have hcap := hvalid₁.write_le
  have hread := hvalid₁.read_nonneg
  have hsmall : b₁.data.length < 2 ^ 31 := by
    simp only [dataSize, recvBufferSize] at hsize hcap
    omega
  -- `OnRecv` hands over the packets that the new bytes complete
  obtain ⟨now, later, hsplit, hnow, hloop, hwait⟩ :=
    onRecvLoop_spec b₁.data hsmall (b₁.data.length + 1) left (fun p hp => (hleft p hp).1) 0
      (Nat.zero_le _) (by omega) (by rw [List.drop_zero, hdata₁]; exact hstream)
  rw [Nat.zero_add] at hnow hloop hwait
  have hrecv : onRecv b₁.data = some (now, (now.flatten.length : Int)) := hloop
  have htotal : now.flatten ++ b₁.data.drop now.flatten.length = d ++ bytes := by
    have hpre : now.flatten <+: left.flatten := by
      rw [hsplit, List.flatten_append]
      exact List.prefix_append _ _
    have hfront : now.flatten <+: b₁.data :=
      List.prefix_of_prefix_length_le hpre (hdata₁ ▸ hstream) hnow
    obtain ⟨rest, hrest⟩ := hfront
    rw [← hdata₁, ← hrest, List.drop_left]
  -- `OnRead` and `Clean` keep the rest, which is shorter than a packet
  obtain ⟨b₂, hok, hvalid₂, hdata₂, hid₂, hoff₂⟩ :=
    hvalid₁.consume now.flatten.length (by omega)
  have hshort : ((b₂.clean.data).length : Int) < recvBufferSize := by
    rw [hdata₂]
    cases later with
    | nil =>
      have hnil := hwait.isPrefix.length_le
      simp only [List.flatten_nil, List.length_nil] at hnil
      simp only [recvBufferSize]
      omega
    | cons p later =>
      have hp := hwait.short p (by simp)
      have hpsize := (hleft p (by simp [hsplit])).2
      omega
  have hroom := freeSize_pos hvalid₂ (clean_room b₂) hshort
  let r₁ : Receiver := { r with mRecvBuffer := some b₁, received := r.received ++ now }
  refine ⟨registerRecv { r₁ with mRecvBuffer := some b₂.clean }, now, later,
    b₁.data.drop now.flatten.length, ?_, hsplit, htotal, ?_⟩
  · rw [Receiver.processRecv, if_neg (by omega), hb]
    simp only [hwrite, hrecv, Option.map_some]
    rw [afterRecv_spec (by omega) hok]
  · rw [← hdata₂]
    exact framing_registerRecv h.connected rfl hvalid₂
      (by rw [clean_mRioBuffID, hid₂, hid₁, hid]) (by rw [clean_mOffset, hoff₂, hoff₁, hoff])
      (by rw [hdata₂]; exact hwait) hroom h.posted (congrArg (· ++ now) h.received)

/-- Whatever the segmentation, the packets handed over are those that have arrived. -/
theorem Framing.receiveAll (h : Framing rioBuffID offset done left d r)
    (hleft : ∀ p ∈ left, IsPacket p ∧ (p.length : Int) ≤ recvBufferSize)
    (chunks : List (List UInt8)) (hfits : r.fits chunks = true)
    (hstream : d ++ chunks.flatten <+: left.flatten) :
    ∃ r' now later d', r.receiveAll chunks = some r' ∧ left = now ++ later ∧
      now.flatten ++ d' = d ++ chunks.flatten ∧
      Framing rioBuffID offset (done ++ now) later d' r' ∧
      r'.posted.length = r.posted.length + chunks.length := by
  induction chunks generalizing r done left d with
  | nil => exact ⟨r, [], left, d, rfl, rfl, by simp, by simpa using h, rfl⟩
  | cons bytes chunks ih =>
    simp only [fits, Bool.and_eq_true, decide_eq_true_eq] at hfits
    obtain ⟨⟨hpos, hlen⟩, hrest⟩ := hfits
    rw [List.flatten_cons, ← List.append_assoc] at hstream
    obtain ⟨r₁, now, later, d₁, hrun, hsplit, htotal, h₁, hcount₁⟩ :=
      h.processRecv hleft bytes hpos hlen ((List.prefix_append _ _).trans hstream)
    rw [hrun] at hrest
    have hstream₁ : d₁ ++ chunks.flatten <+: later.flatten := by
      rw [← htotal, hsplit, List.flatten_append, List.append_assoc] at hstream
      exact (List.prefix_append_right_inj _).mp hstream
    obtain ⟨r₂, now₂, later₂, d₂, hrun₂, hsplit₂, htotal₂, h₂, hcount₂⟩ :=
      ih h₁ (fun p hp => hleft p (by simp [hsplit, hp])) hrest hstream₁
    refine ⟨r₂, now ++ now₂, later₂, d₂, ?_, ?_, ?_, ?_, ?_⟩
    · rw [Receiver.receiveAll, hrun]
      exact hrun₂
    · rw [hsplit, hsplit₂, List.append_assoc]
    · rw [List.flatten_append, List.append_assoc, htotal₂, ← List.append_assoc, htotal,
        List.flatten_cons, List.append_assoc]
    · rw [← List.append_assoc]
      exact h₂
    · rw [List.length_cons]
      omega

/-- Framing does not depend on the segmentation: whatever the cuts of a stream of packets, no
completion disconnects, every receive has room inside the slice, and exactly the packets that
have fully arrived are handed over, in order and with their bytes. -/
theorem receive_packets (rioBuffID : ℕ) (offset : Int) (slice : List UInt8)
    (hslice : (slice.length : Int) = recvBufferSize) (packets : List (UInt32 × List UInt8))
    (hsize : ∀ p ∈ packets, ((sizeofPacketHeader + p.2.length : ℕ) : Int) ≤ recvBufferSize)
    (chunks : List (List UInt8))
    (hstream : chunks.flatten <+: (packets.map fun p => makePacketBuffer p.1 p.2).flatten)
    (hfits : (connected rioBuffID offset slice).fits chunks = true) :
    ∃ r, (connected rioBuffID offset slice).receiveAll chunks = some r ∧
      r.mIsConnected = true ∧
      (∀ region ∈ r.posted, 0 < region.length ∧ region.bufferId = rioBuffID ∧
        offset ≤ region.offset ∧ region.offset + region.length ≤ offset + recvBufferSize) ∧
      r.posted.length = chunks.length + 1 ∧
      r.received = arrived chunks.flatten.length
        (packets.map fun p => makePacketBuffer p.1 p.2) := by
  generalize hps : packets.map (fun p => makePacketBuffer p.1 p.2) = ps at hstream ⊢
  have hleft : ∀ p ∈ ps, IsPacket p ∧ (p.length : Int) ≤ recvBufferSize := by
    intro p hp
    rw [← hps] at hp
    obtain ⟨q, hq, rfl⟩ := List.mem_map.mp hp
    have hq := hsize q hq
    rw [makePacketBuffer_length]
    exact ⟨makePacketBuffer_isPacket q.1 q.2 (by simp only [recvBufferSize] at hq; omega), hq⟩
  have hvalid : (construct rioBuffID offset slice recvBufferSize).Valid recvBufferSize :=
    construct_valid rioBuffID offset hslice
  have hdata : (construct rioBuffID offset slice recvBufferSize).data = [] := by
    simp [construct, data, dataSize]
  have hwait : Waiting ps (construct rioBuffID offset slice recvBufferSize).data := by
    rw [hdata]
    refine ⟨List.nil_prefix, ?_⟩
    intro p hp
    have hpos := (hleft p (List.mem_of_mem_head? hp)).1.header_le
    simp only [sizeofPacketHeader] at hpos
    simp only [List.length_nil]
    omega
  obtain ⟨hstart, hone⟩ := framing_registerRecv (r := ⟨true, some _, ⟨0, 0, 0⟩, [], []⟩) rfl rfl
    hvalid rfl rfl hwait (show (0 : Int) < recvBufferSize - 0 by decide) (by simp) rfl
  rw [hdata] at hstart
  obtain ⟨r, now, later, d, hrun, hsplit, htotal, h, hcount⟩ :=
    hstart.receiveAll hleft chunks hfits (by simpa using hstream)
  refine ⟨r, hrun, h.connected, h.posted, ?_, ?_⟩
  · rw [hcount, hone, List.length_nil]
    omega
  · have hlen : now.flatten.length + d.length = chunks.flatten.length := by
      rw [← List.length_append, htotal, List.nil_append]
    rw [h.received, hsplit, arrived_append _ _ _ (by omega), ← hlen, Nat.add_sub_cancel_left,
      h.waiting.arrived_eq, List.append_nil, List.nil_append]

/-- Two packets whose bytes arrive in three parts, the second cut inside a header. -/
def twoPackets : List (UInt32 × List UInt8) := [(7, [1, 2, 3]), (8, [4])]

def threeParts : List (List UInt8) :=
  [[11, 0, 0, 0, 7], [0, 0, 0, 1, 2, 3, 9, 0, 0], [0, 8, 0, 0, 0, 4]]

theorem receive_packets_threeParts :
    ∃ r, (connected 1 0 (List.replicate 16384 0)).receiveAll threeParts = some r ∧
      r.mIsConnected = true ∧
      r.received = twoPackets.map fun p => makePacketBuffer p.1 p.2 := by
  obtain ⟨r, hrun, hc, _, _, hr⟩ := receive_packets 1 0 (List.replicate 16384 0)
    (by rw [List.length_replicate]; rfl) twoPackets (by decide) threeParts (by decide) (by decide)
  exact ⟨r, hrun, hc, by rw [hr]; decide⟩


end Receiver

end ServerCore.Network
