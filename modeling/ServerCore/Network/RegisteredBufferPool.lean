import ServerCore.Framework.ConcurrentQueue
import ServerCore.Network.NetworkBuffer
import Mathlib.Data.List.Nodup

namespace ServerCore.Network

open Framework

/-- Conversion to a signed 32-bit integer. -/
def toInt32 (n : Int) : Int := (n + 2 ^ 31) % 2 ^ 32 - 2 ^ 31

theorem toInt32_of_range (n : Int) (h₀ : 0 ≤ n) (h₁ : n < 2 ^ 31) : toInt32 n = n := by
  unfold toInt32
  omega

def roundDown (value multiple : ℕ) : ℕ := value / multiple * multiple

def roundUp (value multiple : ℕ) : ℕ :=
  roundDown value multiple + if value % multiple > 0 then multiple else 0

/-- `AllocateBufferSpace`: `bufferSize` and `receiveBuffersAllocated`. The product is one of
two 32-bit numbers. -/
def allocateBufferSpace (granularity pendigBufferSize pendingRecvs : ℕ) : ℕ × ℕ :=
  let desiredSize := pendigBufferSize * pendingRecvs % 2 ^ 32
  let actualSize := roundUp desiredSize granularity
  let actualSize :=
    if actualSize > 2 ^ 32 - 1 then (2 ^ 32 - 1) / granularity * granularity else actualSize
  (actualSize % 2 ^ 32, min pendingRecvs (actualSize / pendigBufferSize % 2 ^ 32))

/-- `RegisteredBufferPool<BS>`; `T` names the threads that enqueue. -/
structure RegisteredBufferPool (T : Type) where
  mQueue : ConcurrentQueue T NetworkBuffer
  mAllocCount : Int
  mUseCount : Int
  mRioBuffID : ℕ
  mSize : ℕ

namespace RegisteredBufferPool

variable {T : Type}

def empty : RegisteredBufferPool T := ⟨[], 0, 0, 0, 0⟩

/-- The buffers that the loop of `Initialize` enqueues, over a zeroed region. -/
def slices (bs rioBuffID size : ℕ) : List NetworkBuffer :=
  (List.range size).map fun i : ℕ =>
    .construct rioBuffID (toInt32 (i * bs : ℕ)) (List.replicate bs 0) bs

/-- `Initialize(size)` on thread `t`. The system tells whether it allocates the region and
under which id it registers it. -/
def initializePool (bs : ℕ) (allocated : Bool) (registered : Option ℕ) (t : T) (size : ℕ) :
    RegisteredBufferPool T :=
  if allocated = false then { empty with mSize := size }
  else
    match registered with
    | none => { empty with mSize := size }
    | some rioBuffID =>
        ⟨(slices bs rioBuffID size).map fun b => (t, b), size, 0, rioBuffID, size⟩

/-- `size_t` is unsigned. -/
def getFreeCount (p : RegisteredBufferPool T) : Int := (p.mAllocCount - p.mUseCount) % 2 ^ 64

end RegisteredBufferPool

/-- A buffer that covers one of `size` slices of `bs` bytes each. -/
structure IsSlice (bs rioBuffID size : ℕ) (b : NetworkBuffer) : Prop where
  valid : b.Valid bs
  id_eq : b.mRioBuffID = rioBuffID
  slot : ∃ k < size, b.mOffset = k * bs

namespace RegisteredBufferPool

theorem offset_eq (bs size i : ℕ) (hi : i < size) (hfit : bs * size < 2 ^ 31) :
    toInt32 (i * bs : ℕ) = (i * bs : ℕ) := by
  have hle : i * bs ≤ size * bs := Nat.mul_le_mul_right bs hi.le
  rw [Nat.mul_comm size bs] at hle
  exact toInt32_of_range _ (by omega) (by omega)

theorem construct_valid (rioBuffID : ℕ) (offset : Int) (bs : ℕ) :
    (NetworkBuffer.construct rioBuffID offset (List.replicate bs 0) bs).Valid bs := by
  refine ⟨rfl, rfl, ?_, le_refl _, le_refl _, ?_⟩
  · simp [NetworkBuffer.construct]
  · exact Int.natCast_nonneg bs

/-- Every enqueued buffer is fresh. -/
theorem slices_valid (bs rioBuffID size : ℕ) (b : NetworkBuffer)
    (hb : b ∈ slices bs rioBuffID size) : b.Valid bs ∧ b.mReadPos = 0 ∧ b.mWritePos = 0 := by
  obtain ⟨i, _, rfl⟩ := List.mem_map.mp hb
  exact ⟨construct_valid _ _ _, rfl, rfl⟩

theorem initializePool_valid (bs : ℕ) (allocated : Bool) (registered : Option ℕ) (t : T)
    (size : ℕ) : ∀ e ∈ (initializePool bs allocated registered t size).mQueue, e.2.Valid bs := by
  intro e he
  unfold initializePool at he
  split at he
  · exact absurd he List.not_mem_nil
  · split at he
    · exact absurd he List.not_mem_nil
    · next rioBuffID =>
      obtain ⟨b, hb, rfl⟩ := List.mem_map.mp he
      exact (slices_valid bs rioBuffID size b hb).1

theorem slices_isSlice (bs rioBuffID size : ℕ) (hfit : bs * size < 2 ^ 31) (b : NetworkBuffer)
    (hb : b ∈ slices bs rioBuffID size) : IsSlice bs rioBuffID size b := by
  have hvalid := (slices_valid bs rioBuffID size b hb).1
  obtain ⟨i, hi, rfl⟩ := List.mem_map.mp hb
  have hi := List.mem_range.mp hi
  have hoff := offset_eq bs size i hi hfit
  rw [Nat.cast_mul] at hoff
  refine ⟨hvalid, rfl, i, hi, ?_⟩
  simpa [NetworkBuffer.construct] using hoff

theorem slices_offset (bs rioBuffID size : ℕ) (hfit : bs * size < 2 ^ 31) :
    (slices bs rioBuffID size).map NetworkBuffer.mOffset =
      (List.range size).map fun i : ℕ => ((i * bs : ℕ) : Int) := by
  rw [slices, List.map_map]
  apply List.map_congr_left
  intro i hi
  rw [Function.comp_apply]
  change toInt32 (i * bs : ℕ) = (i * bs : ℕ)
  rw [offset_eq bs size i (List.mem_range.mp hi) hfit]

/-- Each slice is enqueued once. -/
theorem slices_offset_nodup (bs rioBuffID size : ℕ) (hbs : 0 < bs) (hfit : bs * size < 2 ^ 31) :
    ((slices bs rioBuffID size).map NetworkBuffer.mOffset).Nodup := by
  rw [slices_offset bs rioBuffID size hfit]
  refine List.Nodup.map_on ?_ List.nodup_range
  intro i _ j _ heq
  exact Nat.eq_of_mul_eq_mul_right hbs (Int.natCast_inj.mp heq)

end RegisteredBufferPool

/-- Slices at different offsets do not overlap. -/
theorem IsSlice.disjoint {bs id size : ℕ} {b c : NetworkBuffer} (hb : IsSlice bs id size b)
    (hc : IsSlice bs id size c) (hne : b.mOffset ≠ c.mOffset) :
    b.mOffset + bs ≤ c.mOffset ∨ c.mOffset + bs ≤ b.mOffset := by
  obtain ⟨i, _, hi⟩ := hb.slot
  obtain ⟨j, _, hj⟩ := hc.slot
  rw [hi, hj] at hne ⊢
  rcases Nat.lt_trichotomy i j with hlt | heq | hlt
  · apply Or.inl
    have h := Nat.mul_le_mul_right bs (Nat.succ_le_of_lt hlt)
    rw [Nat.succ_mul] at h
    exact_mod_cast h
  · exact absurd (by rw [heq]) hne
  · apply Or.inr
    have h := Nat.mul_le_mul_right bs (Nat.succ_le_of_lt hlt)
    rw [Nat.succ_mul] at h
    exact_mod_cast h

end ServerCore.Network
