import ServerCore.Network.ReceiveStream

namespace ServerCore.Network

open Framework NetworkBuffer Relation

/-- A `memcpy` of `Clean` reads no byte that it writes. -/
def NetworkBuffer.CopyApart (b : NetworkBuffer) : Prop := b.Copies →
  ∀ i, b.mReadPos ≤ i → i < b.mReadPos + b.dataSize → ¬ (0 ≤ i ∧ i < b.dataSize)

/-- How many bytes of a packet that is not complete are among the first `n` of the stream. -/
def incomplete (n : ℕ) (packets : List (List UInt8)) : ℕ :=
  n - (arrived n packets).flatten.length

section Packets

variable {packets : List (List UInt8)} {s : List UInt8}

/-- What has arrived are whole packets and a part of the next. -/
theorem arrived_split (h : s <+: packets.flatten) : ∃ left d,
    packets = arrived s.length packets ++ left ∧
      s = (arrived s.length packets).flatten ++ d ∧ Waiting left d := by
  induction packets generalizing s with
  | nil =>
    have hnil : s = [] := List.prefix_nil.mp h
    exact ⟨[], s, rfl, rfl, by rw [hnil]; exact ⟨List.nil_prefix, by simp⟩⟩
  | cons p packets ih =>
    rw [List.flatten_cons] at h
    simp only [arrived]
    split
    · next hle =>
      obtain ⟨rest, rfl⟩ := List.prefix_of_prefix_length_le (List.prefix_append _ _) h hle
      obtain ⟨left, d, hsplit, hrest, hwait⟩ := ih ((List.prefix_append_right_inj p).mp h)
      rw [List.length_append, Nat.add_sub_cancel_left]
      refine ⟨left, d, ?_, ?_, hwait⟩
      · rw [List.cons_append, ← hsplit]
      · rw [List.flatten_cons, List.append_assoc, ← hrest]
    · next hlt =>
      refine ⟨p :: packets, s, rfl, rfl, by rwa [List.flatten_cons], ?_⟩
      intro x hx
      obtain rfl : p = x := by simpa using hx
      exact not_le.mp hlt

theorem IsPacket.frame {p : List UInt8} (h : IsPacket p) :
    packetFormat.header ≤ p.length ∧ packetFormat.size p = p.length := ⟨h.header_le, h.size_eq⟩

/-- No frame is complete where a packet is still incomplete. -/
theorem Waiting.last {left : List (List UInt8)} {d : List UInt8} (h : Waiting left d)
    (hleft : ∀ p ∈ left, IsPacket p) (x : ℕ) : ¬ packetFormat.Next d 0 x := by
  intro hnext
  obtain ⟨hheader, hend, hfit⟩ := hnext
  rw [List.drop_zero, Nat.zero_add] at hend
  rw [Nat.zero_add] at hheader
  cases left with
  | nil =>
    have hnil := h.isPrefix.length_le
    have hpos : 8 ≤ d.length := hheader
    simp only [List.flatten_nil, List.length_nil] at hnil
    omega
  | cons p left =>
    have hshort := h.short p (by simp)
    obtain ⟨rest, hrest⟩ : d <+: p :=
      List.prefix_of_prefix_length_le h.isPrefix (List.prefix_append _ _) hshort.le
    have hsize := (hleft p (by simp)).frame.2
    rw [← hrest, packetFormat.stable d rest hheader, hrest] at hsize
    omega

/-- The last boundary of a stream of packets is the end of those that have arrived. -/
theorem last_boundary (hpackets : ∀ p ∈ packets, IsPacket p) (h : s <+: packets.flatten) {q : ℕ}
    (hq : packetFormat.Boundary s q) (hlast : ∀ q', ¬ packetFormat.Next s q q') :
    q = (arrived s.length packets).flatten.length := by
  obtain ⟨left, d, hsplit, hs, hwait⟩ := arrived_split h
  generalize arrived s.length packets = done at *
  have hmem : ∀ p ∈ done, IsPacket p := fun p hp => hpackets p (by rw [hsplit]; simp [hp])
  have hbound : packetFormat.Boundary s done.flatten.length := by
    rw [hs]
    exact FrameFormat.boundary_flatten done (fun p hp => (hmem p hp).frame) d
  rcases hq.last hlast hbound with heq | ⟨x, hx⟩
  · exact heq.symm
  · have hforward : done.flatten.length ≤ x := by
      have hend := hx.2.1
      omega
    obtain ⟨y, rfl⟩ := Nat.exists_eq_add_of_le hforward
    have hnext := (FrameFormat.next_drop_iff (p := 0) hbound.le_length).mpr hx
    rw [hs, List.drop_left] at hnext
    exact absurd hnext (hwait.last (fun p hp => hpackets p (by rw [hsplit]; simp [hp])) y)

/-- The incomplete packet is shorter than the longest packet. -/
theorem incomplete_lt {limit : ℕ} (hlimit : 0 < limit)
    (hpackets : ∀ p ∈ packets, p.length ≤ limit) (h : s <+: packets.flatten) :
    incomplete s.length packets < limit := by
  obtain ⟨left, d, hsplit, hs, hwait⟩ := arrived_split h
  have hd : incomplete s.length packets = d.length := by
    have hlen := congrArg List.length hs
    rw [List.length_append] at hlen
    rw [incomplete]
    omega
  rw [hd]
  cases left with
  | nil =>
    have hnil := hwait.isPrefix.length_le
    simp only [List.flatten_nil, List.length_nil] at hnil
    omega
  | cons p left =>
    have hshort := hwait.short p (by simp)
    have hle := hpackets p (by rw [hsplit]; simp)
    omega

end Packets

namespace NetworkBuffer

variable {b : NetworkBuffer}

/-- For a buffer in order the ranges are apart when the data are no longer than what was read. -/
theorem Valid.copyApart_iff {capacity : Int} (h : b.Valid capacity) :
    b.CopyApart ↔ b.freeSize < b.mReSizePos → 2 * b.dataSize ≤ b.mWritePos := by
  have hread := h.read_nonneg
  have hle := h.read_le
  constructor
  · intro hapart hfull
    rcases eq_or_ne b.dataSize 0 with hzero | hne
    · omega
    · have hfirst := hapart ⟨hne, hfull⟩ b.mReadPos le_rfl
      simp only [dataSize] at *
      omega
  · intro hhalf hcopies i hi hstop hwritten
    have hbound := hhalf hcopies.2
    simp only [dataSize] at *
    omega

end NetworkBuffer

namespace Receiver

variable {s bytes : List UInt8} {r : Receiver} {packets : List (List UInt8)}

/-- `ProcessRecv` calls `Clean` on this buffer, and posts the next receive. -/
theorem processRecv_clean {b : NetworkBuffer} (hpos : 1 ≤ bytes.length)
    (h : r.cleanInput bytes = some b) : ∃ received, r.processRecv bytes =
      some (registerRecv { r with mRecvBuffer := some b.clean, received := received }) := by
  obtain ⟨b₁, hinput, hrest⟩ := Option.bind_eq_some_iff.mp h
  obtain ⟨found, hrecv, hread⟩ := Option.bind_eq_some_iff.mp hrest
  split at hread
  · exact absurd hread.symm (Option.some_ne_none _)
  · next hfit =>
    split at hread
    · next hok =>
      obtain rfl := Option.some.inj hread
      have hpair : b₁.onRead found.2 = ((b₁.onRead found.2).1, true) := Prod.ext rfl hok
      refine ⟨r.received ++ found.1, ?_⟩
      rw [processRecv_eq hpos hinput, hrecv, Option.map_some, afterRecv, if_neg hfit, hpair]
    · exact absurd hread.symm (Option.some_ne_none _)

/-- On a stream of packets `OnRecv` returns, and `Clean` is called. -/
theorem Parsed.onRecv_returns (h : Parsed s r) (hpackets : ∀ p ∈ packets, IsPacket p)
    (hstream : s ++ bytes <+: packets.flatten)
    (hlen : (bytes.length : Int) ≤ r.mRioRecvContext.length) :
    ∃ b b₁ found, r.mRecvBuffer = some b ∧ r.recvInput bytes = some b₁ ∧
      b₁.mWritePos = b.mWritePos + bytes.length ∧ onRecv b₁.data = some found := by
  obtain ⟨b, b₁, q, hb, hinput, hvalid₁, hwrite, hq, hdata₁, hlast⟩ := h.recvInput hlen
  have hs : s <+: packets.flatten := (List.prefix_append s bytes).trans hstream
  have hend := last_boundary hpackets hs hq hlast
  obtain ⟨left, d, hsplit, hparts, _⟩ := arrived_split hs
  generalize arrived s.length packets = done at *
  have hrest : b₁.data = d ++ bytes := by
    rw [hdata₁, hend, hparts, List.append_assoc, List.drop_left]
  have hdata : b₁.data.drop 0 <+: left.flatten := by
    rw [List.drop_zero, hrest]
    rw [hparts, hsplit, List.flatten_append, List.append_assoc] at hstream
    exact (List.prefix_append_right_inj _).mp hstream
  have hsmall := data_length_le hvalid₁
  obtain ⟨now, later, _, _, hloop, _⟩ := onRecvLoop_spec b₁.data (by omega) (b₁.data.length + 1)
    left (fun p hp => hpackets p (by rw [hsplit]; simp [hp])) 0 (Nat.zero_le _) (by omega) hdata
  exact ⟨b, b₁, _, hb, hinput, hwrite, hloop⟩

/-- `Clean` finds the bytes of the incomplete packet, and all that was filled before it. -/
theorem Parsed.cleanInput_sizes (h : Parsed s r) (hpackets : ∀ p ∈ packets, IsPacket p)
    (hstream : s ++ bytes <+: packets.flatten) (hpos : 1 ≤ bytes.length)
    (hlen : (bytes.length : Int) ≤ r.mRioRecvContext.length) :
    ∃ b b₂, r.mRecvBuffer = some b ∧ r.cleanInput bytes = some b₂ ∧ b₂.Valid recvBufferSize ∧
      b₂.dataSize = incomplete (s.length + bytes.length) packets ∧
      b₂.mWritePos = b.mWritePos + bytes.length := by
  obtain ⟨b, b₁, found, hb, hinput, hwrite₁, hrecv⟩ := h.onRecv_returns hpackets hstream hlen
  obtain ⟨b₂, q, hclean, hholds, hwrite₂, _⟩ := h.cleanInput hpos hlen hinput hrecv
  have hend := last_boundary hpackets hstream hholds.boundary hholds.last
  have hdata := hholds.valid.length_data
  have htotal := length_drop_add hholds.boundary.le_length
  rw [← hholds.data] at htotal
  have hincomplete : (incomplete (s.length + bytes.length) packets : Int) = b₂.dataSize := by
    rw [incomplete, ← List.length_append, ← hend]
    omega
  exact ⟨b, b₂, hb, hclean, hholds.valid, hincomplete.symm, hwrite₂.trans hwrite₁⟩

/-- One completion: `Clean` copies exactly when a packet is incomplete and the buffer is more than
half full. -/
theorem Parsed.copies_iff (h : Parsed s r) (hpackets : ∀ p ∈ packets, IsPacket p)
    (hstream : s ++ bytes <+: packets.flatten) (hpos : 1 ≤ bytes.length)
    (hlen : (bytes.length : Int) ≤ r.mRioRecvContext.length) :
    ∃ b b₂, r.mRecvBuffer = some b ∧ r.cleanInput bytes = some b₂ ∧
      (b₂.Copies ↔ incomplete (s.length + bytes.length) packets ≠ 0 ∧
        recvBufferSize / 2 < b.mWritePos + bytes.length) := by
  obtain ⟨b, b₂, hb, hclean, hvalid, hdata, hwrite⟩ :=
    h.cleanInput_sizes hpackets hstream hpos hlen
  refine ⟨b, b₂, hb, hclean, ?_⟩
  rw [Copies, hdata, freeSize, hwrite, hvalid.capacity_eq, hvalid.reSizePos_eq]
  simp only [recvBufferSize]
  omega

/-- One completion: `Clean` does not copy onto itself exactly when the buffer is at most half
full, or the incomplete packet takes at most half of what is filled. -/
theorem Parsed.copyApart_iff (h : Parsed s r) (hpackets : ∀ p ∈ packets, IsPacket p)
    (hstream : s ++ bytes <+: packets.flatten) (hpos : 1 ≤ bytes.length)
    (hlen : (bytes.length : Int) ≤ r.mRioRecvContext.length) :
    ∃ b b₂, r.mRecvBuffer = some b ∧ r.cleanInput bytes = some b₂ ∧
      (b₂.CopyApart ↔ b.mWritePos + bytes.length ≤ recvBufferSize / 2 ∨
        2 * (incomplete (s.length + bytes.length) packets : Int) ≤
          b.mWritePos + bytes.length) := by
  obtain ⟨b, b₂, hb, hclean, hvalid, hdata, hwrite⟩ :=
    h.cleanInput_sizes hpackets hstream hpos hlen
  refine ⟨b, b₂, hb, hclean, ?_⟩
  rw [hvalid.copyApart_iff, hdata, hwrite, freeSize, hwrite, hvalid.capacity_eq,
    hvalid.reSizePos_eq, or_iff_not_imp_left]
  refine imp_congr_left ?_
  simp only [recvBufferSize]
  omega

/-- No `Clean` copies onto itself while `chunks` are received one after another. -/
def CleanApart (r : Receiver) (chunks : List (List UInt8)) : Prop :=
  ∀ before bytes after, chunks = before ++ bytes :: after →
    ∀ r', r.receiveAll before = some r' → ∀ b, r'.cleanInput bytes = some b → b.CopyApart

/-- After every completion the buffer is at most half full, or the incomplete packet takes at most
half of what is filled. -/
def HalfConsumed (r : Receiver) (packets chunks : List (List UInt8)) : Prop :=
  ∀ before bytes after, chunks = before ++ bytes :: after →
    ∀ r', r.receiveAll before = some r' → ∀ b, r'.mRecvBuffer = some b →
      b.mWritePos + bytes.length ≤ recvBufferSize / 2 ∨
        2 * (incomplete (before.flatten.length + bytes.length) packets : Int) ≤
          b.mWritePos + bytes.length

/-- The completions of a run, each with the session before it. -/
theorem Parsed.completion (h : Parsed [] r) {before after : List (List UInt8)}
    (hfits : r.fits (before ++ bytes :: after) = true)
    (hstream : (before ++ bytes :: after).flatten <+: packets.flatten) {r' : Receiver}
    (hrun : r.receiveAll before = some r') : Parsed before.flatten r' ∧ 1 ≤ bytes.length ∧
      (bytes.length : Int) ≤ r'.mRioRecvContext.length ∧
      before.flatten ++ bytes <+: packets.flatten := by
  obtain ⟨hparsed, hrest⟩ := h.receiveAll before (bytes :: after) hfits hrun
  simp only [fits, Bool.and_eq_true, decide_eq_true_eq] at hrest
  refine ⟨hparsed, hrest.1.1, hrest.1.2, ?_⟩
  rw [List.flatten_append, List.flatten_cons, ← List.append_assoc] at hstream
  exact (List.prefix_append _ _).trans hstream

/-- Whatever the packets and the segmentation, `Clean` never copies onto itself exactly when every
completion that leaves the buffer more than half full leaves at most half of it to an incomplete
packet. -/
theorem clean_apart_iff (rioBuffID : ℕ) (offset : Int) (slice : List UInt8)
    (hslice : (slice.length : Int) = recvBufferSize) (packets : List (List UInt8))
    (hpackets : ∀ p ∈ packets, IsPacket p ∧ (p.length : Int) ≤ recvBufferSize)
    (chunks : List (List UInt8)) (hstream : chunks.flatten <+: packets.flatten)
    (hfits : (Receiver.connected rioBuffID offset slice).fits chunks = true) :
    CleanApart (Receiver.connected rioBuffID offset slice) chunks ↔
      HalfConsumed (Receiver.connected rioBuffID offset slice) packets chunks := by
  have hnew := parsed_connected rioBuffID offset slice hslice
  have hwell : ∀ p ∈ packets, IsPacket p := fun p hp => (hpackets p hp).1
  constructor
  · intro hapart before bytes after hsplit r' hrun b hb
    subst hsplit
    obtain ⟨hparsed, hpos, hlen, hpart⟩ := hnew.completion hfits hstream hrun
    obtain ⟨b', b₂, hb', hclean, hiff⟩ := hparsed.copyApart_iff hwell hpart hpos hlen
    obtain rfl := Option.some.inj (hb'.symm.trans hb)
    exact hiff.mp (hapart before bytes after rfl r' hrun b₂ hclean)
  · intro hhalf before bytes after hsplit r' hrun b hclean
    subst hsplit
    obtain ⟨hparsed, hpos, hlen, hpart⟩ := hnew.completion hfits hstream hrun
    obtain ⟨b', b₂, hb', hclean', hiff⟩ := hparsed.copyApart_iff hwell hpart hpos hlen
    obtain rfl := Option.some.inj (hclean'.symm.trans hclean)
    exact hiff.mpr (hhalf before bytes after rfl r' hrun b' hb')

/-- With packets of at most 4097 bytes `Clean` never copies onto itself. -/
theorem clean_apart_small (rioBuffID : ℕ) (offset : Int) (slice : List UInt8)
    (hslice : (slice.length : Int) = recvBufferSize) (packets : List (List UInt8))
    (hpackets : ∀ p ∈ packets, IsPacket p ∧ p.length ≤ 4097) (chunks : List (List UInt8))
    (hstream : chunks.flatten <+: packets.flatten)
    (hfits : (Receiver.connected rioBuffID offset slice).fits chunks = true) :
    CleanApart (Receiver.connected rioBuffID offset slice) chunks := by
  intro before bytes after hsplit r' hrun b hclean
  subst hsplit
  have hnew := parsed_connected rioBuffID offset slice hslice
  obtain ⟨hparsed, hpos, hlen, hpart⟩ := hnew.completion hfits hstream hrun
  obtain ⟨b', b₂, _, hclean', hiff⟩ :=
    hparsed.copyApart_iff (fun p hp => (hpackets p hp).1) hpart hpos hlen
  obtain rfl := Option.some.inj (hclean'.symm.trans hclean)
  have hshort := incomplete_lt (by decide) (fun p hp => (hpackets p hp).2) hpart
  rw [List.length_append] at hshort
  rw [hiff]
  simp only [recvBufferSize]
  omega

/-- A packet of more than half of the buffer. -/
def longPacket : List UInt8 := makePacketBuffer 7 (List.replicate 8992 0)

theorem longPacket_length : longPacket.length = 9000 := by
  rw [longPacket, makePacketBuffer_length, List.length_replicate]
  rfl

theorem longPacket_isPacket : IsPacket longPacket := by
  apply makePacketBuffer_isPacket
  rw [List.length_replicate]
  decide

def shortPacket : List UInt8 := makePacketBuffer 8 [1, 2, 3]

theorem shortPacket_isPacket : IsPacket shortPacket := makePacketBuffer_isPacket _ _ (by decide)

/-- The long packet and the first five bytes of the short one. -/
def longAndPart : List UInt8 := longPacket ++ shortPacket.take 5

theorem longAndPart_length : longAndPart.length = 9005 := by
  rw [longAndPart, List.length_append, longPacket_length]
  rfl

theorem longAndPart_prefix : longAndPart <+: [longPacket, shortPacket].flatten := by
  rw [List.flatten_cons, List.flatten_singleton]
  exact (List.prefix_append_right_inj _).mpr (List.take_prefix 5 shortPacket)

theorem longAndPart_incomplete : incomplete 9005 [longPacket, shortPacket] = 5 := by
  have hshort : shortPacket.length = 11 := rfl
  simp [incomplete, arrived, longPacket_length, hshort]

/-- Here `Clean` copies the five bytes to the front. -/
theorem clean_apart_longAndPart :
    (∃ b, (Receiver.connected 1 0 (List.replicate 16384 0)).cleanInput longAndPart = some b ∧
      b.Copies) ∧ CleanApart (Receiver.connected 1 0 (List.replicate 16384 0)) [longAndPart] := by
  have hslice : ((List.replicate 16384 (0 : UInt8)).length : Int) = recvBufferSize := by
    rw [List.length_replicate]
    rfl
  have hlen := longAndPart_length
  have hpackets : ∀ p ∈ [longPacket, shortPacket], IsPacket p ∧ (p.length : Int) ≤ 16384 := by
    intro p hp
    rcases List.mem_pair.mp hp with rfl | rfl
    · exact ⟨longPacket_isPacket, by rw [longPacket_length]; decide⟩
    · exact ⟨shortPacket_isPacket, by decide⟩
  constructor
  · have hstream : [] ++ longAndPart <+: [longPacket, shortPacket].flatten := longAndPart_prefix
    obtain ⟨b, b₂, hb, hclean, hcopies⟩ := (parsed_connected 1 0 _ hslice).copies_iff
      (fun p hp => (hpackets p hp).1) hstream (by omega) (by rw [hlen]; decide)
    obtain rfl := Option.some.inj hb
    refine ⟨b₂, hclean, hcopies.mpr ?_⟩
    rw [List.length_nil, Nat.zero_add, hlen, longAndPart_incomplete]
    decide
  · refine (clean_apart_iff 1 0 _ hslice [longPacket, shortPacket] hpackets [longAndPart]
      ?_ ?_).mpr ?_
    · rw [List.flatten_singleton]
      exact longAndPart_prefix
    · rw [fits_one, hlen]
      rfl
    · intro before bytes after hsplit r' hrun b hb
      obtain ⟨rfl, rfl⟩ : before = [] ∧ bytes = longAndPart := by
        cases before with
        | nil => exact ⟨rfl, (List.cons.inj hsplit).1.symm⟩
        | cons x before => simp at hsplit
      obtain rfl := Option.some.inj hrun
      obtain rfl := Option.some.inj hb
      rw [List.flatten_nil, List.length_nil, Nat.zero_add, hlen, longAndPart_incomplete]
      decide

/-- A packet of the size of the buffer. -/
def fullPacket : List UInt8 := makePacketBuffer 7 (List.replicate 16376 0)

theorem fullPacket_length : fullPacket.length = 16384 := by
  rw [fullPacket, makePacketBuffer_length, List.length_replicate]
  rfl

theorem fullPacket_isPacket : IsPacket fullPacket := by
  apply makePacketBuffer_isPacket
  rw [List.length_replicate]
  decide

/-- When its first 10000 bytes have arrived, they are copied onto themselves. -/
theorem clean_overlaps :
    (IsPacket fullPacket ∧ (fullPacket.length : Int) ≤ recvBufferSize) ∧
      (Receiver.connected 1 0 (List.replicate 16384 0)).fits [fullPacket.take 10000] = true ∧
      ¬ CleanApart (Receiver.connected 1 0 (List.replicate 16384 0)) [fullPacket.take 10000] := by
  have hlen : (fullPacket.take 10000).length = 10000 := by
    rw [List.length_take, fullPacket_length]
    rfl
  refine ⟨⟨fullPacket_isPacket, by rw [fullPacket_length]; decide⟩, ?_, ?_⟩
  · rw [fits_one, hlen]
    rfl
  · intro hapart
    have hnew := parsed_connected 1 0 (List.replicate 16384 0)
      (by rw [List.length_replicate]; rfl)
    have hstream : [] ++ fullPacket.take 10000 <+: [fullPacket].flatten := by
      simpa using List.take_prefix 10000 fullPacket
    obtain ⟨b, b₂, hb, hclean, hiff⟩ := hnew.copyApart_iff
      (by simpa using fullPacket_isPacket) hstream (by omega) (by rw [hlen]; decide)
    obtain rfl := Option.some.inj hb
    have hhalf := hiff.mp (hapart [] _ [] rfl _ rfl b₂ hclean)
    rw [List.length_nil, Nat.zero_add, hlen, incomplete, arrived, fullPacket_length] at hhalf
    exact absurd hhalf (by decide)

end Receiver

end ServerCore.Network
