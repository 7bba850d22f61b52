import ServerCore.Network.PacketParser

namespace ServerCore.Network

open Framework NetworkBuffer Relation

namespace Receiver

/-- The receive buffer when `ProcessRecv` calls `OnRecv`, after `bytes` were received. -/
def recvInput (r : Receiver) (bytes : List UInt8) : Option NetworkBuffer :=
  r.mRecvBuffer.bind fun b =>
    let written := (b.store bytes).onWrite bytes.length
    if written.2 then some written.1 else none

/-- The receive buffer when `ProcessRecv` calls `Clean`. -/
def cleanInput (r : Receiver) (bytes : List UInt8) : Option NetworkBuffer :=
  (r.recvInput bytes).bind fun b => (onRecv b.data).bind fun packets =>
    if packets.2 < 0 ∨ b.dataSize < packets.2 then none
    else if (b.onRead packets.2).2 then some (b.onRead packets.2).1 else none

variable {r : Receiver} {bytes : List UInt8}

theorem processRecv_eq {b : NetworkBuffer} (hpos : 1 ≤ bytes.length)
    (h : r.recvInput bytes = some b) : r.processRecv bytes = (onRecv b.data).map fun packets =>
      afterRecv { r with mRecvBuffer := some b, received := r.received ++ packets.1 } b
        packets.2 := by
  obtain ⟨b₀, hb₀, hwritten⟩ := Option.bind_eq_some_iff.mp h
  rw [processRecv, if_neg (by omega), hb₀]
  simp only at hwritten ⊢
  split at hwritten
  · next hok =>
    obtain rfl := Option.some.inj hwritten
    have hpair : (b₀.store bytes).onWrite bytes.length =
        (((b₀.store bytes).onWrite bytes.length).1, true) := Prod.ext rfl hok
    rw [hpair]
  · exact absurd hwritten.symm (Option.some_ne_none _)

/-- `b` holds what the stream `s` has behind its last boundary `q`. -/
structure Holds (s : List UInt8) (q : ℕ) (b : NetworkBuffer) : Prop where
  valid : b.Valid recvBufferSize
  boundary : packetFormat.Boundary s q
  last : ∀ q', ¬ packetFormat.Next s q q'
  data : b.data = s.drop q

/-- A session that has received the bytes `s` and waits for more. No frame so far was larger than
the buffer, and every receive that has completed had room. -/
structure Parsed (s : List UInt8) (r : Receiver) : Prop where
  connected : r.mIsConnected = true
  buffer : ∃ b q, r.mRecvBuffer = some b ∧ Holds s q b ∧ r.mRioRecvContext = b.recvRegion ∧
    (b.mReadPos = 0 ∨ b.mReSizePos ≤ b.freeSize)
  frames : ∀ p p', packetFormat.Boundary s p → packetFormat.Next s p p' →
    (p' : Int) ≤ p + recvBufferSize
  posted : ∃ earlier, r.posted = earlier ++ [r.mRioRecvContext] ∧
    ∀ region ∈ earlier, 0 < region.length

variable {s : List UInt8} {q : ℕ} {b : NetworkBuffer}

theorem length_drop_add (hq : q ≤ s.length) : (s.drop q).length + q = s.length := by
  rw [List.length_drop]
  omega

theorem data_length_le (hb : b.Valid recvBufferSize) : b.data.length ≤ 16384 := by
  have hlen := hb.length_data
  have hfit := hb.write_le
  have hread := hb.read_nonneg
  simp only [dataSize, recvBufferSize] at hlen hfit
  omega

/-- `OnRecv` stops at the last boundary of the stream. -/
theorem onRecv_last (hb : b.Valid recvBufferSize) (hq : packetFormat.Boundary s q)
    (hdata : b.data = s.drop q) {packets : List (List UInt8) × Int}
    (h : onRecv b.data = some packets) : ∃ n : ℕ, packets.2 = n ∧ (n : Int) ≤ b.dataSize ∧
      packetFormat.Boundary s (q + n) ∧ ∀ q', ¬ packetFormat.Next s (q + n) q' := by
  have hlen := hb.length_data
  have hsmall := data_length_le hb
  obtain ⟨n, hn, hbound, hlast⟩ := onRecvLoop_last (by omega) (p := 0) .refl h
  have hle := hbound.le_length
  refine ⟨n, hn, by omega, ?_, ?_⟩
  · rw [hdata, FrameFormat.boundary_drop_iff hq.le_length] at hbound
    exact ReflTransGen.trans hq hbound
  · intro q' hnext
    have hforward : q + n ≤ q' := by rw [hnext.2.1]; omega
    obtain ⟨x, rfl⟩ := Nat.exists_eq_add_of_le (show q ≤ q' by omega)
    apply hlast x
    rw [hdata]
    exact (FrameFormat.next_drop_iff hq.le_length).mpr hnext

/-- What `OnRecv` works on after a completion. -/
theorem Parsed.recvInput (h : Parsed s r) (hlen : (bytes.length : Int) ≤ r.mRioRecvContext.length) :
    ∃ b b₁ q, r.mRecvBuffer = some b ∧ r.recvInput bytes = some b₁ ∧ b₁.Valid recvBufferSize ∧
      b₁.mWritePos = b.mWritePos + bytes.length ∧ packetFormat.Boundary s q ∧
      b₁.data = (s ++ bytes).drop q ∧ ∀ q', ¬ packetFormat.Next s q q' := by
  obtain ⟨b, q, hb, hholds, hctx, _⟩ := h.buffer
  rw [hctx] at hlen
  obtain ⟨b₁, hwrite, hvalid₁, hdata₁, _⟩ := hholds.valid.receive bytes hlen
  have hpos := (onWrite_spec _ (show (bytes.length : Int) ≤ (b.store bytes).freeSize from hlen))
  refine ⟨b, b₁, q, hb, ?_, hvalid₁, ?_, hholds.boundary, ?_, hholds.last⟩
  · simp [Receiver.recvInput, hb, hwrite]
  · rw [hwrite] at hpos
    rw [(Prod.mk.inj hpos).1]
    rfl
  · rw [hdata₁, hholds.data, List.drop_append_of_le_length hholds.boundary.le_length]

/-- What `Clean` works on, and the receive that follows it. -/
theorem Parsed.cleanInput (h : Parsed s r) (hpos : 1 ≤ bytes.length)
    (hlen : (bytes.length : Int) ≤ r.mRioRecvContext.length) {packets : List (List UInt8) × Int}
    {b₁ : NetworkBuffer} (hinput : r.recvInput bytes = some b₁)
    (hrecv : onRecv b₁.data = some packets) :
    ∃ b₂ q, r.cleanInput bytes = some b₂ ∧ Holds (s ++ bytes) q b₂ ∧
      b₂.mWritePos = b₁.mWritePos ∧ r.processRecv bytes = some (registerRecv
        { r with mRecvBuffer := some b₂.clean, received := r.received ++ packets.1 }) := by
  obtain ⟨_, b', q, _, hinput', hvalid₁, _, hq, hdata₁, _⟩ := h.recvInput hlen
  obtain rfl := Option.some.inj (hinput'.symm.trans hinput)
  obtain ⟨n, hn, hfit, hbound, hlast⟩ := onRecv_last hvalid₁ hq.append hdata₁ hrecv
  obtain ⟨b₂, hok, _⟩ := hvalid₁.consume n hfit
  have hvalid₂ := hvalid₁.onRead n (Int.natCast_nonneg n)
  have hdata₂ := hvalid₁.data_onRead n hfit
  have hspec := onRead_spec (b := b') n hfit
  rw [hok] at hvalid₂ hdata₂ hspec
  refine ⟨b₂, q + n, ?_, ⟨hvalid₂, hbound, hlast, ?_⟩, ?_, ?_⟩
  · rw [Receiver.cleanInput, hinput, Option.bind_some, hrecv, Option.bind_some, hn,
      if_neg (by omega), hok]
    rfl
  · rw [hdata₂, hdata₁, List.drop_drop]
  · rw [(Prod.mk.inj hspec).1]
  · rw [processRecv_eq hpos hinput, hrecv, Option.map_some, hn, afterRecv_spec hfit hok]

/-- No frame that was completed exceeds the buffer. -/
theorem Parsed.frames_append (h : Parsed s r)
    (hlen : (bytes.length : Int) ≤ r.mRioRecvContext.length) (p p' : ℕ)
    (hp : packetFormat.Boundary (s ++ bytes) p) (hnext : packetFormat.Next (s ++ bytes) p p') :
    (p' : Int) ≤ p + recvBufferSize := by
  obtain ⟨_, b₁, q, _, _, hvalid₁, _, hq, hdata₁, _⟩ := h.recvInput hlen
  rcases FrameFormat.Boundary.append_cases hq hp with hbehind | ⟨hold, x, hx⟩
  · have hsize := data_length_le hvalid₁
    have hle : q ≤ (s ++ bytes).length := hq.append.le_length
    have htotal := length_drop_add hle
    rw [← hdata₁] at htotal
    have hforward := FrameFormat.reach_le hbehind
    have hend := hnext.2.2
    simp only [recvBufferSize]
    omega
  · obtain rfl := FrameFormat.next_rightUnique hx.append hnext
    exact h.frames p _ hold hx

theorem registerRecv_eq (hc : r.mIsConnected = true) (hb : r.mRecvBuffer = some b) :
    r.registerRecv =
      { r with mRioRecvContext := b.recvRegion, posted := r.posted ++ [b.recvRegion] } := by
  rw [registerRecv, if_neg (by simp [hc]), hb]

/-- A completion after which `OnRecv` returns. -/
theorem Parsed.processRecv (h : Parsed s r) (hpos : 1 ≤ bytes.length)
    (hlen : (bytes.length : Int) ≤ r.mRioRecvContext.length) {r' : Receiver}
    (hrun : r.processRecv bytes = some r') : Parsed (s ++ bytes) r' := by
  obtain ⟨_, b₁, _, _, hinput, _⟩ := h.recvInput hlen
  rw [processRecv_eq hpos hinput] at hrun
  obtain ⟨packets, hrecv, _⟩ := Option.map_eq_some_iff.mp hrun
  rw [← processRecv_eq hpos hinput] at hrun
  obtain ⟨b₂, q, _, hholds, _, hnext⟩ := h.cleanInput hpos hlen hinput hrecv
  obtain rfl := Option.some.inj (hnext.symm.trans hrun)
  obtain ⟨earlier, hposted, hroom⟩ := h.posted
  rw [registerRecv_eq (r := { r with
    mRecvBuffer := some b₂.clean, received := r.received ++ packets.1 }) h.connected rfl]
  refine ⟨h.connected, ⟨b₂.clean, q, rfl, ?_, rfl, clean_room b₂⟩, h.frames_append hlen, ?_⟩
  · exact ⟨hholds.valid.clean, hholds.boundary, hholds.last,
      hholds.valid.data_clean.trans hholds.data⟩
  · refine ⟨r.posted, rfl, ?_⟩
    intro region hregion
    rw [hposted] at hregion
    rcases List.mem_append.mp hregion with hold | hlast
    · exact hroom region hold
    · obtain rfl := List.mem_singleton.mp hlast
      omega

/-- Whatever has been received, in whatever parts. -/
theorem Parsed.receiveAll (h : Parsed s r) (chunks rest : List (List UInt8))
    (hfits : r.fits (chunks ++ rest) = true) {r' : Receiver}
    (hrun : r.receiveAll chunks = some r') :
    Parsed (s ++ chunks.flatten) r' ∧ r'.fits rest = true := by
  induction chunks generalizing s r with
  | nil =>
    obtain rfl := Option.some.inj hrun
    rw [List.flatten_nil, List.append_nil]
    exact ⟨h, hfits⟩
  | cons bytes chunks ih =>
    simp only [List.cons_append, fits, Bool.and_eq_true, decide_eq_true_eq] at hfits
    obtain ⟨⟨hpos, hlen⟩, hrest⟩ := hfits
    obtain ⟨r₁, hfirst, hlater⟩ := Option.bind_eq_some_iff.mp hrun
    rw [hfirst] at hrest
    rw [List.flatten_cons, ← List.append_assoc]
    exact ih (h.processRecv hpos hlen hfirst) hrest hlater

theorem fits_one (bytes : List UInt8) : r.fits [bytes] =
    decide (1 ≤ bytes.length ∧ (bytes.length : Int) ≤ r.mRioRecvContext.length) := by
  rw [fits]
  cases r.processRecv bytes <;> simp [fits]

/-- Nothing has been received on a new connection. -/
theorem parsed_connected (rioBuffID : ℕ) (offset : Int) (slice : List UInt8)
    (hslice : (slice.length : Int) = recvBufferSize) :
    Parsed [] (Receiver.connected rioBuffID offset slice) := by
  have hvalid : (construct rioBuffID offset slice recvBufferSize).Valid recvBufferSize :=
    construct_valid rioBuffID offset hslice
  have hlast : ∀ p q, ¬ packetFormat.Next [] p q := by
    intro p q hnext
    have hheader : p + sizeofPacketHeader ≤ 0 := hnext.1
    simp only [sizeofPacketHeader] at hheader
    omega
  rw [Receiver.connected, registerRecv_eq rfl rfl]
  refine ⟨rfl, ⟨_, 0, rfl, ⟨hvalid, .refl, hlast 0, rfl⟩, rfl, .inl rfl⟩, ?_, [], rfl, by simp⟩
  intro p p' _ hnext
  exact absurd hnext (hlast p p')

/-- `header.size` as the `int32_t len` of `OnRecvPacket`, which `HandlePacket` passes on to the
handler. -/
def callLength (buffer : List UInt8) (processLen : Int) : Int :=
  toInt32 (PacketHeader.read (buffer.drop processLen.toNat)).size.toNat

/-- `len - sizeof(PacketHeader)` as the `int` that `ParseFromArray` takes. -/
def payloadLength (len : Int) : Int := toInt32 ((len - sizeofPacketHeader) % 2 ^ 64)

/-- The call of `OnRecvPacket` at `processLen` is at least a header long, and its handler parses
received bytes only. -/
structure SafeCall (buffer : List UInt8) (processLen : Int) : Prop where
  header_le : sizeofPacketHeader ≤ callLength buffer processLen
  le_rest : callLength buffer processLen ≤ buffer.length - processLen
  payload_nonneg : 0 ≤ payloadLength (callLength buffer processLen)
  payload_le : sizeofPacketHeader + payloadLength (callLength buffer processLen) ≤
    buffer.length - processLen

/-- All calls that `OnRecv` makes on `buffer`, also when its loop never ends. -/
def SafeCalls (buffer : List UInt8) : Prop :=
  ∀ p q, Visits buffer p → onRecvStep buffer p = some q → SafeCall buffer p

/-- No complete packet of the stream claims to be shorter than a header. -/
def HeadersFit (s : List UInt8) : Prop := ∀ p p', packetFormat.Boundary s p →
  packetFormat.Next s p p' → sizeofPacketHeader ≤ packetFormat.size (s.drop p)

theorem safeCall_iff {buffer : List UInt8} (hlen : buffer.length < 2 ^ 31) {p p' : ℕ}
    (hnext : packetFormat.Next buffer p p') :
    SafeCall buffer p ↔ sizeofPacketHeader ≤ packetFormat.size (buffer.drop p) := by
  obtain ⟨_, hend, hfit⟩ := hnext
  have hcall : callLength buffer p = packetFormat.size (buffer.drop p) :=
    toInt32_of_range _ (Int.natCast_nonneg _) (by
      change ((packetFormat.size (buffer.drop p) : ℕ) : Int) < 2 ^ 31
      omega)
  constructor
  · intro h
    have hle := h.header_le
    rw [hcall] at hle
    exact_mod_cast hle
  · intro hle
    have hpayload : payloadLength (callLength buffer p) =
        packetFormat.size (buffer.drop p) - sizeofPacketHeader := by
      rw [hcall, payloadLength, Int.emod_eq_of_lt (by omega) (by omega),
        toInt32_of_range _ (by omega) (by omega)]
    refine ⟨?_, ?_, ?_, ?_⟩
    · rw [hcall]
      exact_mod_cast hle
    · rw [hcall]
      omega
    · rw [hpayload]
      omega
    · rw [hpayload]
      omega

theorem safeCalls_iff {buffer : List UInt8} (hlen : buffer.length < 2 ^ 31) :
    SafeCalls buffer ↔ HeadersFit buffer := by
  constructor
  · intro h p p' hp hnext
    exact (safeCall_iff hlen hnext).mp (h p p' ((visits_iff hlen p).mpr ⟨p, rfl, hp⟩)
      ((onRecvStep_iff hlen hp.le_length p').mpr ⟨p', rfl, hnext⟩))
  · intro h p q hp hstep
    obtain ⟨start, rfl, hstart⟩ := (visits_iff hlen p).mp hp
    obtain ⟨next, rfl, hnext⟩ := (onRecvStep_iff hlen hstart.le_length q).mp hstep
    exact (safeCall_iff hlen hnext).mpr (h start next hstart hnext)

theorem HeadersFit.drop (h : HeadersFit s) (hq : packetFormat.Boundary s q) :
    HeadersFit (s.drop q) := by
  intro p p' hp hnext
  rw [List.drop_drop]
  exact h (q + p) (q + p')
    (ReflTransGen.trans hq ((FrameFormat.boundary_drop_iff hq.le_length).mp hp))
    ((FrameFormat.next_drop_iff hq.le_length).mp hnext)

theorem HeadersFit.of_append {rest : List UInt8} (h : HeadersFit (s ++ rest)) :
    HeadersFit s := by
  intro p p' hp hnext
  rw [← FrameFormat.size_append hnext.1]
  exact h p p' hp.append hnext.append

/-- The packets behind `q` decide about those that more bytes complete. -/
theorem HeadersFit.append {rest : List UInt8} (h : HeadersFit s)
    (hq : packetFormat.Boundary s q) (hdrop : HeadersFit ((s ++ rest).drop q)) :
    HeadersFit (s ++ rest) := by
  intro p p' hp hnext
  rcases FrameFormat.Boundary.append_cases hq hp with hbehind | ⟨hold, x, hx⟩
  · have hqle : q ≤ (s ++ rest).length := hq.append.le_length
    obtain ⟨y, rfl⟩ := Nat.exists_eq_add_of_le (FrameFormat.reach_le hbehind)
    obtain ⟨z, rfl⟩ := Nat.exists_eq_add_of_le (show q ≤ p' by
      have hend := hnext.2.1
      omega)
    have hle := hdrop y z ((FrameFormat.boundary_drop_iff hqle).mpr hbehind)
      ((FrameFormat.next_drop_iff hqle).mpr hnext)
    rwa [List.drop_drop] at hle
  · rw [FrameFormat.size_append hx.1]
    exact h p x hold hx

/-- Every call of `OnRecvPacket` while the parts `chunks` are received one after another. -/
def SafeRun (r : Receiver) (chunks : List (List UInt8)) : Prop :=
  ∀ before bytes after, chunks = before ++ bytes :: after →
    ∀ r', r.receiveAll before = some r' → ∀ b, r'.recvInput bytes = some b → SafeCalls b.data

theorem HeadersFit.ends {buffer : List UInt8} (h : HeadersFit buffer)
    (hlen : buffer.length < 2 ^ 31) : ∃ packets, onRecv buffer = some packets := by
  refine onRecvLoop_ends hlen ?_ (buffer.length + 1) 0 .refl (by omega)
  intro p p' hp hnext
  have hle := h p p' hp hnext
  have hend := hnext.2.1
  simp only [sizeofPacketHeader] at hle
  omega

/-- Safe calls show that the packets so far are at least a header long. -/
theorem Parsed.headersFit (h : Parsed s r) (hs : HeadersFit s) (chunks : List (List UInt8))
    (hfits : r.fits chunks = true) (hsafe : SafeRun r chunks) :
    HeadersFit (s ++ chunks.flatten) := by
  induction chunks generalizing s r with
  | nil => simpa using hs
  | cons bytes chunks ih =>
    simp only [fits, Bool.and_eq_true, decide_eq_true_eq] at hfits
    obtain ⟨⟨hpos, hlen⟩, hrest⟩ := hfits
    obtain ⟨_, b₁, q, _, hinput, hvalid₁, _, hq, hdata₁, _⟩ := h.recvInput hlen
    have hsmall := data_length_le hvalid₁
    have hcalls := hsafe [] bytes chunks rfl r rfl b₁ hinput
    have hdrop := (safeCalls_iff (by omega)).mp hcalls
    obtain ⟨packets, hrecv⟩ := hdrop.ends (by omega)
    rw [hdata₁] at hdrop
    obtain ⟨_, _, _, _, _, hnext⟩ := h.cleanInput hpos hlen hinput hrecv
    rw [hnext] at hrest
    rw [List.flatten_cons, ← List.append_assoc]
    refine ih (h.processRecv hpos hlen hnext) (hs.append hq hdrop) hrest ?_
    intro before bytes' after hsplit r' hrun b hb
    refine hsafe (bytes :: before) bytes' after (by rw [hsplit]; rfl) r' ?_ b hb
    rw [Receiver.receiveAll, hnext, Option.bind_some]
    exact hrun

/-- Packets that are at least a header long are handed up safely. -/
theorem Parsed.safeRun (h : Parsed s r) (chunks : List (List UInt8))
    (hfits : r.fits chunks = true) (hs : HeadersFit (s ++ chunks.flatten)) :
    SafeRun r chunks := by
  intro before bytes after hsplit r' hrun b₁ hb₁
  subst hsplit
  obtain ⟨hparsed, hfits'⟩ := h.receiveAll before (bytes :: after) hfits hrun
  simp only [fits, Bool.and_eq_true, decide_eq_true_eq] at hfits'
  obtain ⟨_, b', q, _, hinput, hvalid₁, _, hq, hdata₁, _⟩ := hparsed.recvInput hfits'.1.2
  obtain rfl := Option.some.inj (hinput.symm.trans hb₁)
  have hsmall := data_length_le hvalid₁
  rw [safeCalls_iff (by omega), hdata₁]
  rw [List.flatten_append, List.flatten_cons, ← List.append_assoc, ← List.append_assoc] at hs
  exact hs.of_append.drop hq.append

theorem headersFit_nil : HeadersFit [] := by
  intro p p' _ hnext
  have hheader : p + sizeofPacketHeader ≤ 0 := hnext.1
  simp only [sizeofPacketHeader] at hheader
  omega

/-- Whatever a peer sends and however it arrives, the calls of `OnRecvPacket` are safe exactly
when no complete packet of the stream has a size field below the size of a header. -/
theorem onRecvPacket_safe_iff (rioBuffID : ℕ) (offset : Int) (slice : List UInt8)
    (hslice : (slice.length : Int) = recvBufferSize) (chunks : List (List UInt8))
    (hfits : (Receiver.connected rioBuffID offset slice).fits chunks = true) :
    SafeRun (Receiver.connected rioBuffID offset slice) chunks ↔ HeadersFit chunks.flatten := by
  have h := parsed_connected rioBuffID offset slice hslice
  constructor
  · intro hsafe
    exact h.headersFit headersFit_nil chunks hfits hsafe
  · intro hs
    exact h.safeRun chunks hfits hs

/-- Eight bytes that claim to be a packet of three: the payload would have -5 bytes. -/
theorem onRecvPacket_short : ¬ SafeRun
    (Receiver.connected 1 0 (List.replicate 16384 0)) [[3, 0, 0, 0, 7, 0, 0, 0]] := by
  intro hsafe
  have h := parsed_connected 1 0 (List.replicate 16384 0) (by rw [List.length_replicate]; rfl)
  have hs := h.headersFit headersFit_nil [[3, 0, 0, 0, 7, 0, 0, 0]] (by decide) hsafe
  exact absurd (hs 0 3 .refl ⟨by decide, by decide, by decide⟩) (by decide)

theorem onRecvPacket_safe_threeParts :
    SafeRun (Receiver.connected 1 0 (List.replicate 16384 0)) threeParts ↔
      HeadersFit threeParts.flatten :=
  onRecvPacket_safe_iff 1 0 (List.replicate 16384 0) (by rw [List.length_replicate]; rfl)
    threeParts (by decide)

end Receiver

end ServerCore.Network
