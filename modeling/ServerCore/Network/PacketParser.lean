import ServerCore.Framework.Framing
import ServerCore.Network.PacketSession
import ServerCore.Network.RegisteredBufferPool

namespace ServerCore.Network

open Framework Relation

/-- Packets as frames: the `size` field counts the header. -/
def packetFormat : FrameFormat UInt8 where
  header := sizeofPacketHeader
  size d := (PacketHeader.read d).size.toNat
  stable d rest h := by rw [PacketHeader.read_append d rest h]

/-- One round of the loop of `OnRecv`: the next `processLen`, or `none` when it breaks. -/
def onRecvStep (buffer : List UInt8) (processLen : Int) : Option Int :=
  let dataSize : Int := buffer.length - processLen
  if dataSize % 2 ^ 64 < sizeofPacketHeader then none
  else
    let header := PacketHeader.read (buffer.drop processLen.toNat)
    if dataSize % 2 ^ 32 < header.size.toNat then none
    else some (processLen + header.size.toNat)

/-- The loop comes to `processLen`. -/
def Visits (buffer : List UInt8) (processLen : Int) : Prop :=
  ReflTransGen (fun p q => onRecvStep buffer p = some q) 0 processLen

section Loop

variable {buffer : List UInt8}

theorem onRecvLoop_break {processLen : Int} (n : ℕ) (h : onRecvStep buffer processLen = none) :
    onRecvLoop buffer (n + 1) processLen = some ([], processLen) := by
  simp only [onRecvStep] at h
  simp only [onRecvLoop]
  split
  · rfl
  · next hheader =>
    rw [if_neg hheader] at h
    split
    · rfl
    · next hfit =>
      rw [if_neg hfit] at h
      exact absurd h (Option.some_ne_none _)

theorem onRecvLoop_next {processLen q : Int} (n : ℕ)
    (h : onRecvStep buffer processLen = some q) : onRecvLoop buffer (n + 1) processLen =
      (onRecvLoop buffer n q).map fun r =>
        ((buffer.drop processLen.toNat).take (packetFormat.size (buffer.drop processLen.toNat)) ::
          r.1, r.2) := by
  simp only [onRecvStep] at h
  simp only [onRecvLoop]
  split at h
  · exact absurd h.symm (Option.some_ne_none _)
  · next hheader =>
    split at h
    · exact absurd h.symm (Option.some_ne_none _)
    · next hfit =>
      rw [if_neg hheader, if_neg hfit, Option.some.inj h]
      rfl

/-- A round that leaves `processLen` as it is is repeated forever. -/
theorem onRecvLoop_stuck {processLen : Int} (h : onRecvStep buffer processLen = some processLen)
    (n : ℕ) : onRecvLoop buffer n processLen = none := by
  induction n with
  | zero => rfl
  | succ n ih => rw [onRecvLoop_next n h, ih, Option.map_none]

/-- For the lengths of an `int32_t`, a round goes from a packet to the next. -/
theorem onRecvStep_iff (hlen : buffer.length < 2 ^ 31) {p : ℕ} (hp : p ≤ buffer.length) (q : Int) :
    onRecvStep buffer p = some q ↔ ∃ p' : ℕ, q = p' ∧ packetFormat.Next buffer p p' := by
  have hdata : ((buffer.length : Int) - p) % 2 ^ 64 = (buffer.length - p : ℕ) := by omega
  have hdata' : ((buffer.length : Int) - p) % 2 ^ 32 = (buffer.length - p : ℕ) := by omega
  simp only [onRecvStep, FrameFormat.Next, packetFormat]
  rw [hdata, hdata', Int.toNat_natCast]
  generalize (PacketHeader.read (buffer.drop p)).size.toNat = size
  generalize sizeofPacketHeader = header
  split
  · next hheader =>
    refine iff_of_false (Option.some_ne_none _).symm ?_
    intro h
    obtain ⟨_, _, hheader', _, _⟩ := h
    omega
  · split
    · next hfit =>
      refine iff_of_false (Option.some_ne_none _).symm ?_
      intro h
      obtain ⟨_, _, _, _, hend⟩ := h
      omega
    · constructor
      · intro h
        exact ⟨p + size, by rw [← Option.some.inj h, Nat.cast_add], by omega, rfl, by omega⟩
      · intro h
        obtain ⟨p', rfl, _, rfl, _⟩ := h
        rw [Nat.cast_add]

/-- The loop comes to the packet boundaries and to nothing else. -/
theorem visits_iff (hlen : buffer.length < 2 ^ 31) (q : Int) :
    Visits buffer q ↔ ∃ p : ℕ, q = p ∧ packetFormat.Boundary buffer p := by
  constructor
  · intro h
    induction h with
    | refl => exact ⟨0, rfl, .refl⟩
    | tail _ hstep ih =>
      obtain ⟨p, rfl, hp⟩ := ih
      obtain ⟨p', rfl, hnext⟩ := (onRecvStep_iff hlen hp.le_length _).mp hstep
      exact ⟨p', rfl, hp.tail hnext⟩
  · intro h
    obtain ⟨p, rfl, hp⟩ := h
    induction hp with
    | refl => exact .refl
    | tail hp hnext ih =>
      exact ih.tail ((onRecvStep_iff hlen (FrameFormat.Boundary.le_length hp) _).mpr
        ⟨_, rfl, hnext⟩)

/-- When the loop ends, it has come to the last boundary. -/
theorem onRecvLoop_last (hlen : buffer.length < 2 ^ 31) {n p : ℕ} {packets : List (List UInt8)}
    {processLen : Int} (hp : packetFormat.Boundary buffer p)
    (h : onRecvLoop buffer n p = some (packets, processLen)) :
    ∃ q : ℕ, processLen = q ∧ packetFormat.Boundary buffer q ∧
      ∀ q', ¬ packetFormat.Next buffer q q' := by
  induction n generalizing p packets with
  | zero => exact absurd h.symm (Option.some_ne_none _)
  | succ n ih =>
    cases hstep : onRecvStep buffer p with
    | none =>
      rw [onRecvLoop_break n hstep] at h
      obtain ⟨_, rfl⟩ : [] = packets ∧ (p : Int) = processLen := by simpa using h
      refine ⟨p, rfl, hp, ?_⟩
      intro q' hnext
      have hsome := (onRecvStep_iff hlen hp.le_length _).mpr ⟨q', rfl, hnext⟩
      rw [hstep] at hsome
      exact absurd hsome.symm (Option.some_ne_none _)
    | some next =>
      obtain ⟨p', rfl, hnext⟩ := (onRecvStep_iff hlen hp.le_length _).mp hstep
      rw [onRecvLoop_next n hstep] at h
      obtain ⟨r, hrest, heq⟩ := Option.map_eq_some_iff.mp h
      obtain ⟨_, rfl⟩ := Prod.mk.inj heq
      exact ih (hp.tail hnext) hrest

/-- The loop ends when every size field that it reads is positive. -/
theorem onRecvLoop_ends (hlen : buffer.length < 2 ^ 31)
    (hsize : ∀ p p', packetFormat.Boundary buffer p → packetFormat.Next buffer p p' → p < p')
    (n p : ℕ) (hp : packetFormat.Boundary buffer p) (hn : buffer.length - p < n) :
    ∃ r, onRecvLoop buffer n p = some r := by
  induction n generalizing p with
  | zero => omega
  | succ n ih =>
    cases hstep : onRecvStep buffer p with
    | none => exact ⟨_, onRecvLoop_break n hstep⟩
    | some next =>
      obtain ⟨p', rfl, hnext⟩ := (onRecvStep_iff hlen hp.le_length _).mp hstep
      have hlt := hsize p p' hp hnext
      have hend := hnext.2.2
      obtain ⟨r, hr⟩ := ih p' (hp.tail hnext) (by omega)
      rw [onRecvLoop_next n hstep, hr]
      exact ⟨_, rfl⟩

end Loop

/-- The loop ends after finitely many rounds, each of which makes progress inside the data. -/
structure Terminates (buffer : List UInt8) : Prop where
  ends : ∃ n r, onRecvLoop buffer n 0 = some r
  progress : ∀ p q, Visits buffer p → onRecvStep buffer p = some q → p < q
  bounded : ∀ p, Visits buffer p → p ≤ buffer.length

/-- The parser terminates exactly on the data in which no packet says that it has size 0. -/
theorem onRecv_terminates_iff (buffer : List UInt8) (hlen : buffer.length < 2 ^ 31) :
    Terminates buffer ↔ ∀ p, packetFormat.Boundary buffer p →
      p + sizeofPacketHeader ≤ buffer.length →
      (PacketHeader.read (buffer.drop p)).size ≠ 0 := by
  constructor
  · intro h p hp hheader hzero
    have hsize : packetFormat.size (buffer.drop p) = 0 := congrArg UInt32.toNat hzero
    have hnext : packetFormat.Next buffer p p := ⟨hheader, by omega, hp.le_length⟩
    have hlt := h.progress p p ((visits_iff hlen p).mpr ⟨p, rfl, hp⟩)
      ((onRecvStep_iff hlen hp.le_length p).mpr ⟨p, rfl, hnext⟩)
    exact lt_irrefl _ hlt
  · intro h
    have hprogress : ∀ p p', packetFormat.Boundary buffer p → packetFormat.Next buffer p p' →
        p < p' := by
      intro p p' hp hnext
      have hne := h p hp hnext.1
      have hpos : 0 < packetFormat.size (buffer.drop p) := by
        apply Nat.pos_of_ne_zero
        intro hzero
        exact hne (UInt32.toNat_inj.mp hzero)
      have hend := hnext.2.1
      omega
    refine ⟨⟨_, onRecvLoop_ends hlen hprogress (buffer.length + 1) 0 .refl (by omega)⟩, ?_, ?_⟩
    · intro p q hp hstep
      obtain ⟨start, rfl, hstart⟩ := (visits_iff hlen p).mp hp
      obtain ⟨next, rfl, hnext⟩ := (onRecvStep_iff hlen hstart.le_length q).mp hstep
      exact_mod_cast hprogress start next hstart hnext
    · intro p hp
      obtain ⟨start, rfl, hstart⟩ := (visits_iff hlen p).mp hp
      exact_mod_cast hstart.le_length

/-- Eight zero bytes are a packet of size 0, which the loop reads forever. -/
theorem onRecv_zeros : ¬ Terminates (List.replicate 8 0) := by
  intro h
  obtain ⟨n, r, hr⟩ := h.ends
  rw [onRecvLoop_stuck (by decide) n] at hr
  exact absurd hr.symm (Option.some_ne_none _)

theorem onRecv_terminates_header : Terminates [8, 0, 0, 0, 7, 0, 0, 0] ↔
    ∀ p, packetFormat.Boundary [8, 0, 0, 0, 7, 0, 0, 0] p → p + sizeofPacketHeader ≤ 8 →
      (PacketHeader.read ([8, 0, 0, 0, 7, 0, 0, 0].drop p)).size ≠ 0 :=
  onRecv_terminates_iff [8, 0, 0, 0, 7, 0, 0, 0] (by decide)

end ServerCore.Network
