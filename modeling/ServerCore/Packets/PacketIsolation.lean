import ServerCore.Packets.ChunkOwnership

namespace ServerCore.Packets

open Framework Network

variable {T C : Type}

/-- Where the range of the packet ends. -/
def Packet.stop (p : Packet C) : ℕ := p.mBuffer + p.mAllocSize.toNat

/-- A live packet and its chunk: one returned lies below the used size and keeps its bytes, one
not returned lies at the used size of a chunk that is open for it. -/
structure Packet.Placed (p : Packet C) (chunk : PacketChunk) : Prop where
  inside : p.stop ≤ packetChunkSize
  closed : p.returned = true → p.stop ≤ chunk.mUsedSize.toNat ∧ p.mWriteSize = p.mAllocSize ∧
    chunk.slice p.mBuffer p.mWriteSize.toNat = p.bytes
  opened : p.returned = false → p.mBuffer = chunk.mUsedSize.toNat ∧ chunk.mIsOpen = true ∧
    0 < p.mAllocSize.toNat

/-- The live packets of a chunk lie in it one after another. -/
structure Layout (σ : PacketMemory T C) : Prop where
  used : ∀ c, (σ.chunk c).mUsedSize.toNat ≤ packetChunkSize
  length : ∀ c, (σ.chunk c).constructed = true → (σ.chunk c).mBuffers.length = packetChunkSize
  placed : ∀ (n : ℕ) (p : Packet C), σ.packets[n]? = some p → 0 < p.useCount →
    p.Placed (σ.chunk p.mOwnerChunk)
  apart : ∀ (i j : ℕ) (p q : Packet C), i < j → σ.packets[i]? = some p → σ.packets[j]? = some q →
    0 < p.useCount → 0 < q.useCount → p.mOwnerChunk = q.mOwnerChunk → p.stop ≤ q.mBuffer

theorem PacketMemory.getElem?_setPacket {σ : PacketMemory T C} {n : ℕ} {p : Packet C}
    (hp : σ.packets[n]? = some p) (q : Packet C) (m : ℕ) :
    (σ.setPacket n q).packets[m]? = if n = m then some q else σ.packets[m]? := by
  obtain ⟨hlt, _⟩ := List.getElem?_eq_some_iff.mp hp
  simp [setPacket, List.getElem?_set, hlt]

theorem PacketMemory.getElem?_addPacket {σ : PacketMemory T C} {n : ℕ} {p q : Packet C}
    (hq : (σ.addPacket p).packets[n]? = some q) :
    σ.packets[n]? = some q ∧ n < σ.packets.length ∨ n = σ.packets.length ∧ q = p := by
  simp only [addPacket] at hq
  by_cases hn : n < σ.packets.length
  · exact .inl ⟨by rwa [List.getElem?_append_left hn] at hq, hn⟩
  · rw [List.getElem?_append_right (Nat.le_of_not_lt hn)] at hq
    obtain ⟨hlt, rfl⟩ := List.getElem?_eq_some_iff.mp hq
    simp only [List.length_singleton] at hlt
    exact .inr ⟨by omega, by simp⟩

theorem slice_overwrite (buf bytes : List UInt8) {start size pos : ℕ} (hle : start + size ≤ pos)
    (hpos : pos ≤ buf.length) :
    ((overwrite buf pos bytes).drop start).take size = (buf.drop start).take size := by
  have hlen : (buf.take pos).length = pos := by simp [hpos]
  rw [overwrite, List.append_assoc, List.drop_append_of_le_length (by omega),
    List.take_append_of_le_length (by rw [List.length_drop]; omega), List.drop_take, List.take_take,
    min_eq_left (by omega)]

namespace Layout

/-- Of the live packets of a chunk only the last may not have been returned. -/
theorem stop_le_used {σ : PacketMemory T C} (h : Layout σ) {i j : ℕ} {p q : Packet C}
    (hp : σ.packets[i]? = some p) (hq : σ.packets[j]? = some q) (hij : i ≠ j)
    (hplive : 0 < p.useCount) (hqlive : 0 < q.useCount) (howner : p.mOwnerChunk = q.mOwnerChunk)
    (hopen : q.returned = false) : p.returned = true ∧ p.stop ≤ q.mBuffer := by
  obtain ⟨_, hpclosed, hpopened⟩ := h.placed i p hp hplive
  obtain ⟨hq₁, _, hq₂⟩ := (h.placed j q hq hqlive).opened hopen
  rw [howner] at hpclosed hpopened
  have hreturned : p.returned = true := by
    by_contra hne
    obtain ⟨hp₁, _, hp₂⟩ := hpopened (by simpa using hne)
    rcases Nat.lt_or_gt_of_ne hij with hlt | hlt
    · have hle := h.apart i j p q hlt hp hq hplive hqlive howner
      simp only [Packet.stop] at hle
      omega
    · have hle := h.apart j i q p hlt hq hp hqlive hplive howner.symm
      simp only [Packet.stop] at hle
      omega
  exact ⟨hreturned, hq₁ ▸ (hpclosed hreturned).1⟩

/-- A packet that keeps its range and does not come to life stays apart from the others. -/
theorem apart_setPacket {σ : PacketMemory T C} (h : Layout σ) {n : ℕ} {p q : Packet C}
    (hp : σ.packets[n]? = some p) (hstart : q.mBuffer = p.mBuffer) (hstop : q.stop = p.stop)
    (howner : q.mOwnerChunk = p.mOwnerChunk) (hlive : 0 < q.useCount → 0 < p.useCount)
    (i j : ℕ) (a b : Packet C) (hij : i < j) (ha : (σ.setPacket n q).packets[i]? = some a)
    (hb : (σ.setPacket n q).packets[j]? = some b) (halive : 0 < a.useCount)
    (hblive : 0 < b.useCount) (ho : a.mOwnerChunk = b.mOwnerChunk) : a.stop ≤ b.mBuffer := by
  have hold (m : ℕ) (a : Packet C) (ha : (σ.setPacket n q).packets[m]? = some a)
      (hlive' : 0 < a.useCount) : ∃ a', σ.packets[m]? = some a' ∧ 0 < a'.useCount ∧
        a.mBuffer = a'.mBuffer ∧ a.stop = a'.stop ∧ a.mOwnerChunk = a'.mOwnerChunk := by
    rw [PacketMemory.getElem?_setPacket hp] at ha
    split at ha
    · next hn =>
      obtain rfl := Option.some.inj ha
      exact ⟨p, hn ▸ hp, hlive hlive', hstart, hstop, howner⟩
    · exact ⟨a, ha, hlive', rfl, rfl, rfl⟩
  obtain ⟨a', ha', halive', _, hastop, haowner⟩ := hold i a ha halive
  obtain ⟨b', hb', hblive', hbstart, _, hbowner⟩ := hold j b hb hblive
  rw [hastop, hbstart]
  exact h.apart i j a' b' hij ha' hb' halive' hblive' (haowner ▸ hbowner ▸ ho)

variable [DecidableEq C]

/-- The use count of a chunk does not matter. -/
theorem recount {σ : PacketMemory T C} (h : Layout σ) (c : C) (useCount : ℕ) :
    Layout (σ.setChunk c { σ.chunk c with useCount := useCount }) := by
  obtain ⟨hused, hlength, hplaced, hapart⟩ := h
  refine ⟨?_, ?_, ?_, hapart⟩
  · intro c'
    by_cases hc : c' = c
    · subst hc
      simpa using hused c'
    · simpa [hc] using hused c'
  · intro c'
    by_cases hc : c' = c
    · subst hc
      simpa using hlength c'
    · simpa [hc] using hlength c'
  · intro n p hp hlive
    have hplace := hplaced n p hp hlive
    by_cases hc : p.mOwnerChunk = c
    · subst hc
      simp only [PacketMemory.setChunk_self]
      exact ⟨hplace.inside, hplace.closed, hplace.opened⟩
    · simpa [hc] using hplace

/-- A chunk without live packets may be reset. -/
theorem renew {σ : PacketMemory T C} (h : Layout σ) {c : C} (hfree : σ.owned c = 0)
    {chunk : PacketChunk} (hused : chunk.mUsedSize = 0)
    (hlen : chunk.constructed = true → chunk.mBuffers.length = packetChunkSize) :
    Layout (σ.setChunk c chunk) := by
  refine ⟨?_, ?_, ?_, h.apart⟩
  · intro c'
    by_cases hc : c' = c
    · simp [hc, hused]
    · simpa [hc] using h.used c'
  · intro c'
    by_cases hc : c' = c
    · simpa [hc] using hlen
    · simpa [hc] using h.length c'
  · intro n p hp hlive
    have hc : p.mOwnerChunk ≠ c := by
      rintro rfl
      have hnone := List.countP_eq_zero.mp hfree p (List.mem_of_getElem? hp)
      simp [Packet.keeps, hlive] at hnone
    simpa [hc] using h.placed n p hp hlive

omit [DecidableEq C] in
/-- A packet that lost or gained references stays where it is. -/
theorem recountPacket {σ : PacketMemory T C} (h : Layout σ) {n : ℕ} {p : Packet C}
    (hp : σ.packets[n]? = some p) {useCount : ℕ} (hlive : 0 < useCount → 0 < p.useCount) :
    Layout (σ.setPacket n { p with useCount := useCount }) := by
  refine ⟨h.used, h.length, ?_, h.apart_setPacket hp rfl rfl rfl hlive⟩
  intro m q hq hqlive
  rw [PacketMemory.getElem?_setPacket hp] at hq
  split at hq
  · obtain rfl := Option.some.inj hq
    have hplaced := h.placed n p hp (hlive hqlive)
    exact ⟨hplaced.inside, hplaced.closed, hplaced.opened⟩
  · exact h.placed m q hq hqlive

/-- Writes for a packet that is not returned reach no other live packet. -/
theorem write {σ : PacketMemory T C} (h : Layout σ) {n : ℕ} {p : Packet C}
    (hp : σ.packets[n]? = some p) (hlive : 0 < p.useCount) (hopen : p.returned = false)
    (hchunk : (σ.chunk p.mOwnerChunk).constructed = true) {pos : ℕ} {bytes : List UInt8}
    (hpos : p.mBuffer ≤ pos) (hstop : pos + bytes.length ≤ p.stop) :
    Layout (σ.write p.mOwnerChunk pos bytes) := by
  have hlen := h.length _ hchunk
  have hinside := (h.placed n p hp hlive).inside
  refine ⟨?_, ?_, ?_, h.apart⟩
  · intro c
    by_cases hc : c = p.mOwnerChunk
    · simpa [PacketMemory.write, hc] using h.used p.mOwnerChunk
    · simpa [PacketMemory.write, hc] using h.used c
  · intro c
    by_cases hc : c = p.mOwnerChunk
    · simp only [PacketMemory.write, hc, PacketMemory.setChunk_self]
      rw [overwrite_length _ _ _ (by omega)]
      exact fun _ => hlen
    · simpa [PacketMemory.write, hc] using h.length c
  · intro m q hq hqlive
    have hplaced := h.placed m q hq hqlive
    by_cases hc : q.mOwnerChunk = p.mOwnerChunk
    · rw [hc] at hplaced ⊢
      simp only [PacketMemory.write, PacketMemory.setChunk_self]
      refine ⟨hplaced.inside, ?_, hplaced.opened⟩
      intro hreturned
      have hne : m ≠ n := by
        rintro rfl
        obtain rfl := Option.some.inj (hp.symm.trans hq)
        simp [hopen] at hreturned
      have hle := (h.stop_le_used hq hp hne hqlive hlive hc hopen).2
      obtain ⟨hused, hsize, hbytes⟩ := hplaced.closed hreturned
      refine ⟨hused, hsize, ?_⟩
      simp only [Packet.stop, ← hsize] at hle
      rw [← hbytes]
      exact slice_overwrite _ _ (by omega) (by omega)
    · simpa [PacketMemory.write, hc] using hplaced

/-- `Open` puts a packet behind all live packets of the chunk. -/
theorem chunkOpen {σ : PacketMemory T C} (h : Layout σ) {c : C} {size : UInt32} (useCount : ℕ)
    (hclosed : (σ.chunk c).mIsOpen = false) (hfit : size ≤ (σ.chunk c).freeSize)
    (hpos : 0 < size.toNat) :
    Layout ((σ.setChunk c { σ.chunk c with mIsOpen := true, useCount := useCount }).addPacket
      ⟨(σ.chunk c).mUsedSize.toNat, size, 0, c, 1, false, []⟩) := by
  have hroom : (σ.chunk c).mUsedSize.toNat + size.toNat ≤ packetChunkSize := by
    have hused := h.used c
    have hfit := UInt32.le_iff_toNat_le.mp hfit
    rw [PacketChunk.freeSize, UInt32.toNat_sub_of_le _ _ (UInt32.le_iff_toNat_le.mpr hused)] at hfit
    change size.toNat ≤ packetChunkSize - _ at hfit
    omega
  have hold (n : ℕ) (p : Packet C) (hp : σ.packets[n]? = some p) (hlive : 0 < p.useCount)
      (hc : p.mOwnerChunk = c) : p.returned = true ∧ p.stop ≤ (σ.chunk c).mUsedSize.toNat := by
    have hplaced := h.placed n p hp hlive
    rw [hc] at hplaced
    have hreturned : p.returned = true := by
      by_contra hne
      simp [(hplaced.opened (by simpa using hne)).2.1] at hclosed
    exact ⟨hreturned, (hplaced.closed hreturned).1⟩
  refine ⟨?_, ?_, ?_, ?_⟩
  · intro c'
    by_cases hc : c' = c
    · subst hc
      simpa using h.used c'
    · simpa [hc] using h.used c'
  · intro c'
    by_cases hc : c' = c
    · subst hc
      simpa using h.length c'
    · simpa [hc] using h.length c'
  · intro n p hp hlive
    rcases PacketMemory.getElem?_addPacket hp with ⟨hp, _⟩ | ⟨_, rfl⟩
    · have hplaced := h.placed n p hp hlive
      by_cases hc : p.mOwnerChunk = c
      · have hreturned := (hold n p hp hlive hc).1
        subst hc
        simp only [PacketMemory.addPacket_chunk, PacketMemory.setChunk_self]
        exact ⟨hplaced.inside, hplaced.closed, by simp [hreturned]⟩
      · simpa [hc] using hplaced
    · simp only [PacketMemory.addPacket_chunk, PacketMemory.setChunk_self]
      exact ⟨hroom, by simp, fun _ => ⟨rfl, rfl, hpos⟩⟩
  · intro i j p q hij hp hq hplive hqlive ho
    rcases PacketMemory.getElem?_addPacket hp with ⟨hp, _⟩ | ⟨hi, rfl⟩
    · rcases PacketMemory.getElem?_addPacket hq with ⟨hq, _⟩ | ⟨_, rfl⟩
      · exact h.apart i j p q hij hp hq hplive hqlive ho
      · exact (hold i p hp hplive ho).2
    · rcases PacketMemory.getElem?_addPacket hq with ⟨_, hj⟩ | ⟨hj, _⟩ <;> omega

/-- `Close` lets the used size grow over the packet. -/
theorem close {σ : PacketMemory T C} (h : Layout σ) {n : ℕ} {p : Packet C}
    (hp : σ.packets[n]? = some p) (hlive : 0 < p.useCount) (hopen : p.returned = false) :
    Layout (σ.close n p p.mAllocSize) := by
  obtain ⟨hstart, hmIsOpen, _⟩ := (h.placed n p hp hlive).opened hopen
  have hinside := (h.placed n p hp hlive).inside
  have hgrow : ((σ.chunk p.mOwnerChunk).mUsedSize + p.mAllocSize).toNat = p.stop := by
    simp only [Packet.stop, packetChunkSize] at hinside ⊢
    rw [UInt32.toNat_add, hstart]
    omega
  have hclose : σ.close n p p.mAllocSize = (σ.setChunk p.mOwnerChunk
      { σ.chunk p.mOwnerChunk with
        mIsOpen := false, mUsedSize := (σ.chunk p.mOwnerChunk).mUsedSize + p.mAllocSize }).setPacket
      n { p with
        mWriteSize := p.mAllocSize, returned := true
        bytes := (σ.chunk p.mOwnerChunk).slice p.mBuffer p.mAllocSize.toNat } := by
    simp [PacketMemory.close, Packet.close, PacketChunk.close, hmIsOpen, PacketChunk.slice]
  have hp' : (σ.setChunk p.mOwnerChunk { σ.chunk p.mOwnerChunk with
      mIsOpen := false, mUsedSize := (σ.chunk p.mOwnerChunk).mUsedSize + p.mAllocSize }).packets[n]?
      = some p := hp
  rw [hclose]
  refine ⟨?_, ?_, ?_, h.apart_setPacket hp rfl rfl rfl id⟩
  · intro c
    by_cases hc : c = p.mOwnerChunk
    · simpa [hc, hgrow] using hinside
    · simpa [hc] using h.used c
  · intro c
    by_cases hc : c = p.mOwnerChunk
    · simpa [hc] using h.length p.mOwnerChunk
    · simpa [hc] using h.length c
  · intro m q hq hqlive
    rw [PacketMemory.getElem?_setPacket hp'] at hq
    split at hq
    · obtain rfl := Option.some.inj hq
      simp only [PacketMemory.setPacket_chunk, PacketMemory.setChunk_self]
      exact ⟨hinside, fun _ => ⟨hgrow.ge, rfl, rfl⟩, by simp⟩
    · next hne =>
      have hplaced := h.placed m q hq hqlive
      by_cases hc : q.mOwnerChunk = p.mOwnerChunk
      · obtain ⟨hreturned, hle⟩ := h.stop_le_used hq hp (Ne.symm hne) hqlive hlive hc hopen
        rw [hc] at hplaced ⊢
        simp only [PacketMemory.setPacket_chunk, PacketMemory.setChunk_self]
        obtain ⟨_, hsize, hbytes⟩ := hplaced.closed hreturned
        refine ⟨hplaced.inside, fun _ => ⟨?_, hsize, hbytes⟩, by simp [hreturned]⟩
        rw [hgrow, Packet.stop]
        exact hle.trans (Nat.le_add_right _ _)
      · simpa [hc] using hplaced

end Layout

/-- The packet that `MakePacketBuffer` is making in the frame. -/
def Frame.packet : Frame C → Option ℕ
  | .header packet _ => packet
  | .serialize n _ | .close n _ => some n
  | _ => none

def Frame.works (n : ℕ) (f : Frame C) : ℕ := if f.packet = some n then 1 else 0

theorem Frame.packet_of_plain {f : Frame C} (h : f.plain = true) : f.packet = none := by
  cases f with
  | header packet m => cases packet <;> first | rfl | simp [plain] at h
  | _ => first | rfl | simp [plain] at h

variable [DecidableEq T] [DecidableEq C]

omit [DecidableEq T] [DecidableEq C] in
theorem message_of_releaseFrames {o : Option C} {g : Frame C} (h : g ∈ releaseFrames o) :
    g.message = none := by
  cases o with
  | none => simp [releaseFrames] at h
  | some c =>
    obtain rfl := List.mem_singleton.mp h
    rfl

/-- The frames of `MakePacketBuffer` that a step leaves. -/
theorem PacketStep.new_frame {t : T} {σ σ' : PacketMemory T C} {fs old new : List (Frame C)}
    (h : PacketStep t σ fs old σ' new) {g : Frame C} (hg : g ∈ new) :
    g.message = none ∨ (∃ m, g = .open' m ∧ m.pkt.length ≤ intMax) ∨
      ∃ f, old = [f] ∧ g.message = f.message ∧ (g.packet = none ∨ g.packet = f.packet ∨
        g.packet = some σ.packets.length ∧ ∃ m c, f = .chunkOpen m ∧
          σ' = (σ.setChunk c
            { σ.chunk c with mIsOpen := true, useCount := (σ.chunk c).useCount + 1 }).addPacket
            ⟨(σ.chunk c).mUsedSize.toNat, m.packetSize, 0, c, 1, false, []⟩) := by
  cases h with
  | plain f g' _ hplain hmessage =>
    obtain rfl := List.mem_singleton.mp hg
    exact .inr (.inr ⟨f, rfl, hmessage, .inl (Frame.packet_of_plain hplain)⟩)
  | reset again m c g' _ hplain hmessage =>
    obtain rfl := List.mem_singleton.mp hg
    exact .inr (.inr ⟨_, rfl, hmessage, .inl (Frame.packet_of_plain hplain)⟩)
  | assign again c m =>
    rcases List.mem_append.mp hg with hg | hg
    · exact .inl (message_of_releaseFrames hg)
    · obtain rfl := List.mem_singleton.mp hg
      exact .inr (.inr ⟨_, rfl, rfl, .inl rfl⟩)
  | dropped owner => exact .inl (message_of_releaseFrames hg)
  | makePacketBuffer m _ hlen =>
    obtain rfl := List.mem_singleton.mp hg
    exact .inr (.inl ⟨m, rfl, hlen⟩)
  | chunkOpen m c _ _ _ =>
    obtain rfl := List.mem_singleton.mp hg
    exact .inr (.inr ⟨_, rfl, rfl, .inr (.inr ⟨rfl, m, c, rfl, rfl⟩)⟩)
  | dequeue | construct =>
    obtain rfl := List.mem_singleton.mp hg
    exact .inr (.inr ⟨_, rfl, rfl, .inl rfl⟩)
  | header | serialize =>
    obtain rfl := List.mem_singleton.mp hg
    exact .inr (.inr ⟨_, rfl, rfl, .inr (.inl rfl)⟩)
  | serializeFail | drop | lastRelease | pushGlobal | push | exitThread =>
    obtain rfl := List.mem_singleton.mp hg
    exact .inl rfl
  | close | release => simp at hg

/-- A packet that is not returned stays what it is while a frame works on it. -/
theorem PacketStep.getElem? {t : T} {σ σ' : PacketMemory T C} {fs old new : List (Frame C)}
    (h : PacketStep t σ fs old σ' new) {n : ℕ} {p : Packet C} (hp : σ.packets[n]? = some p)
    (hopen : p.returned = false)
    (hother : ∀ f ∈ old, f.packet = some n → ∃ g ∈ new, g.packet = some n) :
    σ'.packets[n]? = some p := by
  cases h with
  | chunkOpen m c _ _ _ =>
    obtain ⟨hlt, _⟩ := List.getElem?_eq_some_iff.mp hp
    simpa [PacketMemory.addPacket, List.getElem?_append_left hlt] using hp
  | serializeFail k m q hq =>
    have hne : k ≠ n := by
      rintro rfl
      have hg := hother _ (List.mem_singleton_self _) rfl
      simp [PacketMemory.drop, Frame.packet] at hg
    rw [PacketMemory.drop, PacketMemory.getElem?_setPacket hq, if_neg hne, hp]
  | close k m q hq =>
    have hne : k ≠ n := by
      rintro rfl
      have hg := hother _ (List.mem_singleton_self _) rfl
      simp at hg
    have hq' : (σ.setChunk q.mOwnerChunk (q.close (σ.chunk q.mOwnerChunk) m.packetSize).2).packets[k]?
        = some q := hq
    rw [PacketMemory.close, PacketMemory.getElem?_setPacket hq', if_neg hne]
    exact hp
  | drop k q _ hq hreturned _ =>
    have hne : k ≠ n := by
      rintro rfl
      obtain rfl := Option.some.inj (hp.symm.trans hq)
      simp [hopen] at hreturned
    rw [PacketMemory.drop, PacketMemory.getElem?_setPacket hq, if_neg hne, hp]
  | _ => exact hp

/-- One for a packet that does not exist yet. -/
def PacketMemory.vacant (σ : PacketMemory T C) (n : ℕ) : ℕ := 1 - (σ.packets.length - n)

theorem PacketStep.works {t : T} {σ σ' : PacketMemory T C} {fs old new : List (Frame C)}
    (h : PacketStep t σ fs old σ' new) (n : ℕ) :
    σ'.vacant n + stackWeight (Frame.works n) new ≤
      σ.vacant n + stackWeight (Frame.works n) old := by
  have hrelease (o : Option C) : stackWeight (Frame.works n) (releaseFrames o) = 0 := by
    cases o <;> rfl
  cases h with
  | plain f g _ hplain _ =>
    simp [Frame.works, Frame.packet_of_plain hplain]
  | reset again m c g _ hplain _ =>
    have hzero : g.works n = 0 := by simp [Frame.works, Frame.packet_of_plain hplain]
    rw [stackWeight_cons, hzero]
    exact Nat.le_add_right _ _
  | assign again c m =>
    simp [hrelease, Frame.works, Frame.packet, PacketMemory.vacant]
  | dropped owner => simp [hrelease]
  | chunkOpen m c _ _ _ =>
    by_cases hn : σ.packets.length = n
    · simp [PacketMemory.vacant, Frame.works, Frame.packet, hn]
    · simp [PacketMemory.vacant, Frame.works, Frame.packet, hn]
      omega
  | _ =>
    simp [Frame.works, Frame.packet, PacketMemory.vacant, PacketMemory.drop, PacketMemory.close,
      PacketMemory.write, PacketMemory.setPacket]

theorem PacketStep.old_eq {t : T} {σ σ' : PacketMemory T C} {fs old new : List (Frame C)}
    (h : PacketStep t σ fs old σ' new) {f : Frame C} (hf : f ∈ old) : old = [f] := by
  cases h <;> simp_all

/-- Each packet that is being made is live, not returned and of the size of its message. -/
structure Working [Fintype T] (s : PacketConf T C) : Prop where
  fits : ∀ t f m, f ∈ s.frames t → f.message = some m → m.pkt.length ≤ intMax
  one : ∀ n, s.mem.vacant n + weight (Frame.works n) s.frames ≤ 1
  packet : ∀ t f n m, f ∈ s.frames t → f.packet = some n → f.message = some m →
    ∃ p, s.mem.packets[n]? = some p ∧ p.returned = false ∧ 0 < p.useCount ∧
      p.mAllocSize = m.packetSize

section

variable [Fintype T]

/-- The step of another frame leaves a packet that is being made as it is. -/
theorem Working.keeps_packet {s : PacketConf T C} {t u : T} {old fs new : List (Frame C)}
    {mem : PacketMemory T C} (hs : Working s) (hf : s.frames t = old ++ fs)
    (h : PacketStep t s.mem fs old mem new) {g : Frame C} (hg : Other s.frames t fs u g) {n : ℕ}
    (hn : g.packet = some n) {p : Packet C} (hp : s.mem.packets[n]? = some p)
    (hopen : p.returned = false) : mem.packets[n]? = some p := by
  refine h.getElem? hp hopen ?_
  intro f hold hfn
  have htwo := hg.weight (f := f) (by rw [hf, h.old_eq hold]; rfl) (Frame.works n)
  have hone := hs.one n
  simp only [Frame.works, hn, hfn, if_true] at htwo
  exact absurd (htwo.trans (Nat.le_of_add_left_le hone)) (by omega)

theorem Working.step {s : PacketConf T C} {t : T} {old fs new : List (Frame C)}
    {mem : PacketMemory T C} (hs : Working s) (hf : s.frames t = old ++ fs)
    (hstep : PacketStep t s.mem fs old mem new) :
    Working ⟨mem, Function.update s.frames t (new ++ fs)⟩ := by
  have hmem {f : Frame C} (hold : old = [f]) : f ∈ s.frames t := by simp [hf, hold]
  refine ⟨?_, ?_, ?_⟩
  · intro u g m hg hm
    rcases mem_update _ hg with ⟨rfl, hnew⟩ | hother
    · rcases hstep.new_frame hnew with hnone | ⟨m', rfl, hlen⟩ | ⟨f, hold, hmessage, _⟩
      · simp [hnone] at hm
      · obtain rfl := Option.some.inj hm
        exact hlen
      · exact hs.fits u f m (hmem hold) (hmessage ▸ hm)
    · exact hs.fits u g m (hother.mem_append hf) hm
  · intro n
    have hworks := hstep.works n
    have hweight := weight_stack (Frame.works n) hf new
    have hone := hs.one n
    simp only
    omega
  · intro u g n m hg hn hm
    rcases mem_update _ hg with ⟨rfl, hnew⟩ | hother
    · rcases hstep.new_frame hnew with hnone | ⟨m', rfl, _⟩ |
        ⟨f, hold, hmessage, hnone | hpacket | ⟨hpacket, m', c, rfl, rfl⟩⟩
      · simp [hnone] at hm
      · simp [Frame.packet] at hn
      · simp [hnone] at hn
      · obtain ⟨p, hp, hopen, hlive, hsize⟩ :=
          hs.packet u f n m (hmem hold) (hpacket ▸ hn) (hmessage ▸ hm)
        exact ⟨p, hstep.getElem? hp hopen fun _ _ _ => ⟨g, hnew, hn⟩, hopen, hlive, hsize⟩
      · obtain rfl := Option.some.inj (hpacket.symm.trans hn)
        obtain rfl := Option.some.inj (hmessage.symm.trans hm)
        exact ⟨_, List.getElem?_concat_length, rfl, Nat.one_pos, rfl⟩
    · obtain ⟨p, hp, hopen, hlive, hsize⟩ := hs.packet u g n m (hother.mem_append hf) hn hm
      exact ⟨p, hs.keeps_packet hf hstep hother hn hp hopen, hopen, hlive, hsize⟩

omit [DecidableEq T] [DecidableEq C] in
/-- A returned packet is none of those that are being made. -/
theorem Working.getElem?_setPacket {s : PacketConf T C} (hs : Working s) {u : T} {g : Frame C}
    {k n : ℕ} {m : Message} {p : Packet C} (hg : g ∈ s.frames u) (hk : g.packet = some k)
    (hm : g.message = some m) (hp : s.mem.packets[n]? = some p) (hreturned : p.returned = true)
    (q : Packet C) : (s.mem.setPacket n q).packets[k]? = s.mem.packets[k]? := by
  obtain ⟨p', hp', hopen, _⟩ := hs.packet u g k m hg hk hm
  rw [PacketMemory.getElem?_setPacket hp, if_neg]
  rintro rfl
  obtain rfl := Option.some.inj (hp.symm.trans hp')
  simp [hopen] at hreturned

theorem working_reach {ok : PacketConf T C → Action T (Choice T C) → Prop} {s : PacketConf T C}
    (h : machine.Reach ok start s) : Working s := by
  refine h.invariant Working ⟨by simp [start], fun n => ?_, by simp [start]⟩ ?_
  · simp [start, PacketMemory.vacant, PacketMemory.start]
  · intro s a s' _ hs _ hnext
    rcases next_view hnext with ⟨t, old, fs, mem, new, hf, hstep, rfl⟩ | ⟨n, p, hp, hreturned, _, rfl⟩
    · exact hs.step hf hstep
    · refine ⟨hs.fits, ?_, ?_⟩
      · intro k
        simpa [PacketMemory.vacant, PacketMemory.setPacket] using hs.one k
      · intro u g k m hg hk hm
        rw [hs.getElem?_setPacket hg hk hm hp hreturned]
        exact hs.packet u g k m hg hk hm

omit [DecidableEq T] in
/-- The chunk of a live packet exists. -/
theorem Tracked.constructed {s : PacketConf T C} {n : ℕ} {p : Packet C}
    (hs : Tracked p.mOwnerChunk s) (hp : s.mem.packets[n]? = some p) (hlive : 0 < p.useCount) :
    (s.mem.chunk p.mOwnerChunk).constructed = true := by
  have hpos : 0 < s.mem.owned p.mOwnerChunk :=
    List.countP_pos_iff.mpr ⟨p, List.mem_of_getElem? hp, by simp [Packet.keeps, hlive]⟩
  have hcounted := hs.counted
  by_contra hne
  have hunused := hs.unused (by simp [PacketMemory.absent, hne])
  omega

omit [DecidableEq T] in
/-- A chunk that does not exist has no live packet. -/
theorem Tracked.owned_of_absent {s : PacketConf T C} {c : C} (hs : Tracked c s)
    (hc : (s.mem.chunk c).constructed = false) : s.mem.owned c = 0 := by
  have hcounted := hs.counted
  have hunused := hs.unused (by simp [PacketMemory.absent, hc])
  omega

omit [DecidableEq T] [DecidableEq C] [Fintype T] in
theorem Message.packetSize_toNat (m : Message) (h : m.pkt.length ≤ intMax) :
    m.packetSize.toNat = sizeofPacketHeader + m.pkt.length := by
  simp only [intMax, Message.packetSize, Message.dataSize, sizeofPacketHeader] at h ⊢
  rw [UInt32.toNat_add, UInt32.toNat_ofNat', UInt32.toNat_ofNat']
  omega

theorem Layout.step {ok : PacketConf T C → Action T (Choice T C) → Prop} {s : PacketConf T C}
    (hr : machine.Reach ok start s) (hs : Layout s.mem) {t : T} {old fs new : List (Frame C)}
    {mem : PacketMemory T C} (hf : s.frames t = old ++ fs)
    (hstep : PacketStep t s.mem fs old mem new) : Layout mem := by
  have hworking := working_reach hr
  have hmem {f : Frame C} (hold : f ∈ old) : f ∈ s.frames t := by simp [hf, hold]
  have hmaking {f : Frame C} {n : ℕ} {m : Message} {p : Packet C} (hold : f ∈ old)
      (hn : f.packet = some n) (hm : f.message = some m) (hp : s.mem.packets[n]? = some p) :
      p.returned = false ∧ 0 < p.useCount ∧ p.mAllocSize = m.packetSize ∧
        p.stop = p.mBuffer + sizeofPacketHeader + m.pkt.length := by
    obtain ⟨q, hq, hopen, hlive, hsize⟩ := hworking.packet t f n m (hmem hold) hn hm
    obtain rfl := Option.some.inj (hp.symm.trans hq)
    refine ⟨hopen, hlive, hsize, ?_⟩
    rw [Packet.stop, hsize, m.packetSize_toNat (hworking.fits t f m (hmem hold) hm), Nat.add_assoc]
  cases hstep with
  | construct again m c habsent =>
    exact hs.renew ((tracked_reach hr c).owned_of_absent habsent) rfl (by simp [PacketChunk.construct])
  | reset again m c g hl _ _ =>
    exact hs.renew (steady_reach hr c t again m (by simp [hf]) hl) rfl (hs.length c)
  | chunkOpen m c hl hclosed hfit =>
    have hfits := hworking.fits t _ m (hmem (List.mem_singleton_self _)) rfl
    apply hs.chunkOpen _ hclosed hfit
    rw [m.packetSize_toNat hfits, sizeofPacketHeader]
    omega
  | header n m p hp =>
    obtain ⟨hopen, hlive, _, hstop⟩ := hmaking (List.mem_singleton_self _) rfl rfl hp
    apply hs.write hp hlive hopen ((tracked_reach hr _).constructed hp hlive) le_rfl
    rw [hstop]
    exact Nat.le_add_right _ _
  | serialize n m p hp =>
    obtain ⟨hopen, hlive, _, hstop⟩ := hmaking (List.mem_singleton_self _) rfl rfl hp
    exact hs.write hp hlive hopen ((tracked_reach hr _).constructed hp hlive)
      (Nat.le_add_right _ _) hstop.ge
  | serializeFail n m p hp | drop n p _ hp _ _ => exact hs.recountPacket hp (by omega)
  | close n m p hp =>
    obtain ⟨hopen, hlive, hsize, _⟩ := hmaking (List.mem_singleton_self _) rfl rfl hp
    exact hsize ▸ hs.close hp hlive hopen
  | release c | lastRelease c | pushGlobal c => exact hs.recount _ _
  | push c =>
    have hcount := hs.recount c ((s.mem.chunk c).useCount + 1)
    exact ⟨hcount.used, hcount.length, hcount.placed, hcount.apart⟩
  | _ => exact ⟨hs.used, hs.length, hs.placed, hs.apart⟩

theorem layout_reach {ok : PacketConf T C → Action T (Choice T C) → Prop} {s : PacketConf T C}
    (h : machine.Reach ok start s) : Layout s.mem := by
  refine h.invariant (fun s => Layout s.mem) ?_ ?_
  · constructor <;> simp [start, PacketMemory.start, PacketChunk.absent]
  · intro s a s' hr hs _ hnext
    rcases next_view hnext with ⟨t, old, fs, mem, new, hf, hstep, rfl⟩ | ⟨n, p, hp, _, hpos, rfl⟩
    · exact Layout.step hr hs hf hstep
    · exact hs.recountPacket hp fun _ => hpos

end

/-- Live packets share no bytes, and a queued chunk has no user. -/
structure PacketsIsolated (s : PacketConf T C) : Prop where
  used : ∀ c, (s.mem.chunk c).mUsedSize.toNat ≤ packetChunkSize
  inside : ∀ p ∈ s.mem.packets, 0 < p.useCount →
    p.mBuffer + p.mAllocSize.toNat ≤ packetChunkSize ∧
      (s.mem.chunk p.mOwnerChunk).mBuffers.length = packetChunkSize
  disjoint : ∀ (i j : ℕ) (p q : Packet C), i ≠ j → s.mem.packets[i]? = some p →
    s.mem.packets[j]? = some q → 0 < p.useCount → 0 < q.useCount →
    p.mOwnerChunk = q.mOwnerChunk → p.mBuffer + p.mAllocSize.toNat ≤ q.mBuffer ∨
      q.mBuffer + q.mAllocSize.toNat ≤ p.mBuffer
  queued_unused : ∀ c ∈ s.mem.mPacketChunks.map Prod.snd,
    (∀ p ∈ s.mem.packets, 0 < p.useCount → p.mOwnerChunk ≠ c) ∧
      ∀ t, s.mem.lPacketChunk t ≠ some c
  queued_once : (s.mem.mPacketChunks.map Prod.snd).Nodup
  bytes_kept : ∀ p ∈ s.mem.packets, 0 < p.useCount → p.returned = true →
    (s.mem.chunk p.mOwnerChunk).slice p.mBuffer p.mAllocSize.toNat = p.bytes

/-- Live packets never share bytes, in any interleaving of threads that make, pass on and drop
packets. -/
theorem packets_isolated [Fintype T] (s : PacketConf T C)
    (h : machine.Reach (fun _ _ => True) start s) : PacketsIsolated s := by
  have hlayout := layout_reach h
  have hget {p : Packet C} (hp : p ∈ s.mem.packets) : ∃ n, s.mem.packets[n]? = some p :=
    List.mem_iff_getElem?.mp hp
  have hqueued {c : C} : (s.mem.mPacketChunks.map Prod.snd).count c = s.mem.queued c := by
    rw [List.count, List.countP_map]
    exact List.countP_congr fun e _ => by simp
  refine ⟨hlayout.used, ?_, ?_, ?_, ?_, ?_⟩
  · intro p hp hlive
    obtain ⟨n, hn⟩ := hget hp
    exact ⟨(hlayout.placed n p hn hlive).inside,
      hlayout.length _ ((tracked_reach h _).constructed hn hlive)⟩
  · intro i j p q hij hp hq hplive hqlive ho
    rcases Nat.lt_or_gt_of_ne hij with hlt | hlt
    · exact .inl (hlayout.apart i j p q hlt hp hq hplive hqlive ho)
    · exact .inr (hlayout.apart j i q p hlt hq hp hqlive hplive ho.symm)
  · intro c hc
    have hpos : 0 < s.mem.queued c := hqueued ▸ List.count_pos_iff.mpr hc
    have htracked := tracked_reach h c
    have hplace := htracked.place
    have howned := htracked.fresh (by omega)
    constructor
    · rintro p hp hlive rfl
      have hkeeps := List.countP_eq_zero.mp howned p hp
      simp [Packet.keeps, hlive] at hkeeps
    · intro t ht
      have hone := single_le_sum (fun o => if o = some c then 1 else 0) s.mem.lPacketChunk t
      simp only [ht, if_true] at hone
      simp only [PacketMemory.current] at hplace
      omega
  · apply List.nodup_iff_count_le_one.mpr
    intro c
    have hplace := (tracked_reach h c).place
    rw [hqueued]
    omega
  · intro p hp hlive hreturned
    obtain ⟨n, hn⟩ := hget hp
    obtain ⟨_, hsize, hbytes⟩ := (hlayout.placed n p hn hlive).closed hreturned
    rw [← hsize]
    exact hbytes

/-- Thread `t` has popped a chunk in its first call and makes a packet in it. -/
def fillRun {T C : Type} (t : T) : List (Action T (Choice T C)) :=
  [.step t .go, .step t .go, .step t .go, .step t .go, .step t .go, .step t .go,
    .step t (.serialized true), .step t .go]

/-- Thread `t` makes a packet in a new chunk `c` and ends, thread `u` drops the packet, which gives
the chunk back, and makes a packet in the same chunk. -/
def recycleRun {T C : Type} (t u : T) (c : C) : List (Action T (Choice T C)) :=
  [.enter t (.makePacketBuffer ⟨7, [1, 2, 3]⟩), .step t .go] ++
    List.replicate 10 (.step t (.take none)) ++ [.step t (.malloc c)] ++ fillRun t ++
    [.enter t .exitThread, .step t .go, .env (.copy 0), .enter u (.drop 0), .step u .go,
      .enter u (.drop 0), .step u .go, .step u .go, .step u .go, .step u .go, .step u .go] ++
    [.enter u (.makePacketBuffer ⟨8, [4]⟩), .step u .go, .step u (.take (some u))] ++ fillRun u

theorem packets_isolated_recycled : ∃ s : PacketConf (Fin 2) (Fin 2),
    s.mem.packets.map (fun p => (p.mOwnerChunk, p.mBuffer, p.useCount, p.bytes)) =
      [(0, 0, 0, [11, 0, 0, 0, 7, 0, 0, 0, 1, 2, 3]), (0, 0, 1, [9, 0, 0, 0, 8, 0, 0, 0, 4])] ∧
      PacketsIsolated s := by
  have hr := Machine.reach_final machine (start : PacketConf (Fin 2) (Fin 2))
    (recycleRun 0 1 0) (by decide)
  exact ⟨_, by decide, packets_isolated _ hr⟩

end ServerCore.Packets
