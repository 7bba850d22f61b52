import ServerCore.Network.ReceiveStream

namespace ServerCore.Network

open Framework NetworkBuffer Relation

namespace Receiver

/-- No size field that `OnRecv` reads is below the size of a header. -/
def SizesFit (s : List UInt8) : Prop := ∀ p, packetFormat.Boundary s p →
  p + sizeofPacketHeader ≤ s.length → sizeofPacketHeader ≤ packetFormat.size (s.drop p)

/-- A packet that is larger than the buffer, and of which a whole buffer has been received. -/
def Overfull (s : List UInt8) (p : ℕ) : Prop := packetFormat.Boundary s p ∧
  p + sizeofPacketHeader ≤ s.length ∧ recvBufferSize < packetFormat.size (s.drop p) ∧
  (p : Int) + recvBufferSize ≤ s.length

/-- Every posted receive has room, and a packet that fills the buffer and does not fit in it has
led to a disconnect. -/
structure RoomOrDisconnect (s : List UInt8) (r : Receiver) : Prop where
  room : ∀ region ∈ r.posted, 0 < region.length
  disconnect : ∀ p, Overfull s p → r.mIsConnected = false

variable {s : List UInt8} {r : Receiver}

theorem SizesFit.headersFit (h : SizesFit s) : HeadersFit s :=
  fun p _ hp hnext => h p hp hnext.1

/-- The loop of `OnRecv` ends after every completion. -/
theorem Parsed.ends (h : Parsed s r) (chunks : List (List UInt8))
    (hfits : r.fits chunks = true) (hs : HeadersFit (s ++ chunks.flatten)) :
    ∃ r', r.receiveAll chunks = some r' := by
  induction chunks generalizing s r with
  | nil => exact ⟨r, rfl⟩
  | cons bytes chunks ih =>
    simp only [fits, Bool.and_eq_true, decide_eq_true_eq] at hfits
    obtain ⟨⟨hpos, hlen⟩, hrest⟩ := hfits
    obtain ⟨_, b₁, q, _, hinput, hvalid₁, _, hq, hdata₁, _⟩ := h.recvInput hlen
    have hsmall := data_length_le hvalid₁
    rw [List.flatten_cons, ← List.append_assoc] at hs
    have hdrop := hs.of_append.drop hq.append
    rw [← hdata₁] at hdrop
    obtain ⟨packets, hrecv⟩ := hdrop.ends (by omega)
    obtain ⟨_, _, _, _, _, hnext⟩ := h.cleanInput hpos hlen hinput hrecv
    rw [hnext] at hrest
    obtain ⟨r', hrun⟩ := ih (h.processRecv hpos hlen hnext) hrest hs
    exact ⟨r', by rw [Receiver.receiveAll, hnext, Option.bind_some, hrun]⟩

/-- The posted receives run out of room with a packet that does not fit in the buffer. -/
theorem Parsed.room_iff (h : Parsed s r) :
    (∀ region ∈ r.posted, 0 < region.length) ↔ ∀ p, ¬ Overfull s p := by
  obtain ⟨b, q, _, hholds, hctx, hroom⟩ := h.buffer
  obtain ⟨earlier, hposted, hearlier⟩ := h.posted
  have hdata := hholds.valid.length_data
  have htotal := length_drop_add hholds.boundary.le_length
  rw [← hholds.data] at htotal
  constructor
  · intro hall p hover
    obtain ⟨hp, hheader, hlarge, hfull⟩ := hover
    rcases hholds.boundary.last hholds.last hp with rfl | ⟨p', hnext⟩
    · have hpos := hall r.mRioRecvContext (by rw [hposted]; simp)
      have hread := hholds.valid.read_nonneg
      rw [hctx, recvRegion] at hpos
      simp only [freeSize, dataSize, hholds.valid.capacity_eq] at hpos hdata
      omega
    · have hend := hnext.2.1
      have hle := h.frames p p' hp hnext
      omega
  · intro hnone region hregion
    rw [hposted] at hregion
    rcases List.mem_append.mp hregion with hold | hlast
    · exact hearlier region hold
    · obtain rfl := List.mem_singleton.mp hlast
      rw [hctx]
      refine freeSize_pos hholds.valid hroom ?_
      apply lt_of_not_ge
      intro hfull
      have hheader : q + sizeofPacketHeader ≤ s.length := by
        simp only [recvBufferSize, sizeofPacketHeader] at hfull ⊢
        omega
      refine hnone q ⟨hholds.boundary, hheader, ?_, by omega⟩
      -- the last packet is incomplete, so it is larger than what is there of it
      apply lt_of_not_ge
      intro hsmall
      exact hholds.last _ ⟨hheader, rfl, by omega⟩

/-- Where no size field is below a header, every receive has room, and a packet that can never
fit leads to a disconnect, exactly when no packet larger than the buffer gets to fill it. -/
theorem registerRecv_room_iff (rioBuffID : ℕ) (offset : Int) (slice : List UInt8)
    (hslice : (slice.length : Int) = recvBufferSize) (chunks : List (List UInt8))
    (hfits : (Receiver.connected rioBuffID offset slice).fits chunks = true)
    (hsizes : SizesFit chunks.flatten) :
    ∃ r, (Receiver.connected rioBuffID offset slice).receiveAll chunks = some r ∧
      (RoomOrDisconnect chunks.flatten r ↔ ∀ p, ¬ Overfull chunks.flatten p) := by
  have hnew := parsed_connected rioBuffID offset slice hslice
  obtain ⟨r, hrun⟩ := hnew.ends chunks hfits hsizes.headersFit
  rw [← List.append_nil chunks] at hfits
  obtain ⟨h, _⟩ := hnew.receiveAll chunks [] hfits hrun
  rw [List.nil_append] at h
  refine ⟨r, hrun, ?_⟩
  rw [← h.room_iff]
  constructor
  · exact RoomOrDisconnect.room
  · intro hroom
    refine ⟨hroom, ?_⟩
    intro p hover
    exact absurd hover (h.room_iff.mp hroom p)

/-- A packet of nine bytes in two parts. -/
theorem registerRecv_room_twoParts :
    ∃ r, (Receiver.connected 1 0 (List.replicate 16384 0)).receiveAll
        [[9, 0, 0, 0, 7], [0, 0, 0, 1]] = some r ∧
      (RoomOrDisconnect [9, 0, 0, 0, 7, 0, 0, 0, 1] r ↔
        ∀ p, ¬ Overfull [9, 0, 0, 0, 7, 0, 0, 0, 1] p) := by
  refine registerRecv_room_iff 1 0 (List.replicate 16384 0) (by rw [List.length_replicate]; rfl)
    [[9, 0, 0, 0, 7], [0, 0, 0, 1]] (by decide) ?_
  intro p hp hheader
  rcases hp.cases_head with rfl | ⟨x, hx, hxp⟩
  · decide
  · have hend : x = 9 := hx.2.1
    have hle := FrameFormat.reach_le hxp
    have hnine : p + 8 ≤ 9 := hheader
    omega

/-- The first 16384 bytes of a packet of 16385. -/
def oversizedPart : List UInt8 := PacketHeader.write ⟨16385, 7⟩ ++ List.replicate 16376 0

theorem oversizedPart_length : oversizedPart.length = 16384 := by
  rw [oversizedPart, List.length_append, List.length_replicate]
  rfl

theorem oversizedPart_size : packetFormat.size oversizedPart = 16385 := by
  change (PacketHeader.read oversizedPart).size.toNat = 16385
  rw [oversizedPart, PacketHeader.read_write]
  rfl

theorem oversizedPart_boundary (p : ℕ) (hp : packetFormat.Boundary oversizedPart p) : p = 0 := by
  rcases hp.cases_head with rfl | ⟨x, hx, _⟩
  · rfl
  · have hend := hx.2.1
    have hfit := hx.2.2
    rw [List.drop_zero, oversizedPart_size] at hend
    rw [oversizedPart_length] at hfit
    omega

/-- When these bytes have arrived, the session is connected and waits for zero bytes. -/
theorem registerRecv_noRoom :
    (Receiver.connected 1 0 (List.replicate 16384 0)).fits [oversizedPart] = true ∧
      SizesFit [oversizedPart].flatten ∧
      ∃ r, (Receiver.connected 1 0 (List.replicate 16384 0)).receiveAll [oversizedPart] = some r ∧
        r.mIsConnected = true ∧ ¬ RoomOrDisconnect [oversizedPart].flatten r := by
  have hflat : [oversizedPart].flatten = oversizedPart := by simp
  have hnew := parsed_connected 1 0 (List.replicate 16384 0) (by rw [List.length_replicate]; rfl)
  have hfits : (Receiver.connected 1 0 (List.replicate 16384 0)).fits [oversizedPart] = true := by
    rw [fits_one, oversizedPart_length]
    rfl
  have hsizes : SizesFit [oversizedPart].flatten := by
    rw [hflat]
    intro p hp _
    obtain rfl := oversizedPart_boundary p hp
    rw [List.drop_zero, oversizedPart_size]
    decide
  obtain ⟨r, hrun⟩ := hnew.ends [oversizedPart] hfits hsizes.headersFit
  obtain ⟨h, _⟩ := hnew.receiveAll [oversizedPart] [] hfits hrun
  refine ⟨hfits, hsizes, r, hrun, h.connected, ?_⟩
  intro hroom
  refine h.room_iff.mp hroom.room 0 ?_
  rw [List.nil_append, hflat]
  refine ⟨.refl, ?_, ?_, ?_⟩
  · rw [oversizedPart_length]
    decide
  · rw [List.drop_zero, oversizedPart_size]
    decide
  · rw [oversizedPart_length]
    decide

end Receiver

end ServerCore.Network
