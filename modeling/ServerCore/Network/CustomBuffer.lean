import ServerCore.Framework.Along
import ServerCore.Network.NetworkBuffer

namespace ServerCore.Network

open Framework

/-- `CustomBuffer`, with its own storage. -/
structure CustomBuffer where
  mCapacity : Int
  mReSizePos : Int
  mReadPos : Int
  mWritePos : Int
  mBuffer : List UInt8
  deriving DecidableEq

/-- `mBuffer.resize(size)`. -/
def resize (buf : List UInt8) (size : ℕ) : List UInt8 :=
  buf.take size ++ List.replicate (size - buf.length) 0

@[simp] theorem length_resize (buf : List UInt8) (size : ℕ) :
    (resize buf size).length = size := by
  simp only [resize, List.length_append, List.length_take, List.length_replicate]
  omega

/-- An operation on the buffer with its argument, an `int32_t`. -/
inductive CustomBufferOp where
  | init (capacity : Int)
  | onWrite (numOfBytes : Int)
  | onRead (numOfBytes : Int)
  | clean
  deriving DecidableEq

/-- A positive capacity, a count that is not negative. -/
def CustomBufferOp.Legal : CustomBufferOp → Prop
  | .init capacity => 0 < capacity ∧ capacity < 2 ^ 31
  | .onWrite numOfBytes | .onRead numOfBytes => 0 ≤ numOfBytes ∧ numOfBytes < 2 ^ 31
  | .clean => True

namespace CustomBuffer

/-- The constructor. -/
def construct (capacity : Int) : CustomBuffer :=
  ⟨capacity, capacity / 2, 0, 0, resize [] capacity.toNat⟩

def init (b : CustomBuffer) (capacity : Int) : CustomBuffer :=
  { b with
    mCapacity := capacity
    mReSizePos := capacity / 2
    mBuffer := resize b.mBuffer capacity.toNat }

def dataSize (b : CustomBuffer) : Int := b.mWritePos - b.mReadPos

def freeSize (b : CustomBuffer) : Int := b.mCapacity - b.mWritePos

def clean (b : CustomBuffer) : CustomBuffer :=
  if b.dataSize = 0 then { b with mReadPos := 0, mWritePos := 0 }
  else if b.freeSize < b.mReSizePos then
    { b with
      mBuffer := memcpy b.mBuffer 0 b.mReadPos.toNat b.dataSize.toNat
      mReadPos := 0
      mWritePos := b.dataSize }
  else b

def onRead (b : CustomBuffer) (numOfBytes : Int) : CustomBuffer × Bool :=
  if numOfBytes > b.dataSize then (b, false)
  else ({ b with mReadPos := b.mReadPos + numOfBytes }, true)

def onWrite (b : CustomBuffer) (numOfBytes : Int) : CustomBuffer × Bool :=
  if numOfBytes > b.freeSize then (b, false)
  else ({ b with mWritePos := b.mWritePos + numOfBytes }, true)

def apply (b : CustomBuffer) : CustomBufferOp → CustomBuffer
  | .init capacity => b.init capacity
  | .onWrite numOfBytes => (b.onWrite numOfBytes).1
  | .onRead numOfBytes => (b.onRead numOfBytes).1
  | .clean => b.clean

/-- The operations one after another. -/
def next (b : CustomBuffer) (op : CustomBufferOp) : Option CustomBuffer := some (b.apply op)

/-- The positions are in order and inside a storage of `mCapacity` bytes. -/
structure Valid (b : CustomBuffer) : Prop where
  read_nonneg : 0 ≤ b.mReadPos
  read_le : b.mReadPos ≤ b.mWritePos
  write_le : b.mWritePos ≤ b.mCapacity
  length_eq : (b.mBuffer.length : Int) = b.mCapacity

/-- The same buffer as one of the pool, whose operations are the same but for `Init`. -/
def toNetworkBuffer (b : CustomBuffer) : NetworkBuffer :=
  ⟨b.mCapacity, b.mReSizePos, b.mReadPos, b.mWritePos, 0, 0, b.mBuffer⟩

/-- The copy of `Clean`, if it makes one, reads and writes inside `mBuffer`. -/
def CopyInside (b : CustomBuffer) : Prop := b.toNetworkBuffer.Copies →
  0 ≤ b.mReadPos ∧ 0 ≤ b.dataSize ∧ b.mReadPos + b.dataSize ≤ b.mBuffer.length

/-- An operation leaves the buffer valid and copies only inside it. -/
structure Keeps (b : CustomBuffer) (op : CustomBufferOp) (b' : CustomBuffer) : Prop where
  valid : b'.Valid
  freeSize_nonneg : 0 ≤ b'.freeSize
  copy : op = .clean → b.CopyInside

/-- `Init` does not cut off bytes that were written. -/
def FitsInit (b : CustomBuffer) : CustomBufferOp → Prop
  | .init capacity => b.mWritePos ≤ capacity
  | _ => True

theorem toNetworkBuffer_clean (b : CustomBuffer) :
    b.clean.toNetworkBuffer = b.toNetworkBuffer.clean := by
  unfold clean
  rw [apply_ite toNetworkBuffer, apply_ite toNetworkBuffer]
  rfl

/-- The bytes after `Clean` are those of its `memcpy`, or else as they were. -/
theorem clean_mBuffer (b : CustomBuffer) : b.clean.mBuffer =
    if b.toNetworkBuffer.Copies then memcpy b.mBuffer 0 b.mReadPos.toNat b.dataSize.toNat
    else b.mBuffer := by
  have hclean := congrArg NetworkBuffer.mBuffer (toNetworkBuffer_clean b)
  rwa [NetworkBuffer.clean_mBuffer] at hclean

theorem toNetworkBuffer_onRead (b : CustomBuffer) (n : Int) :
    (b.onRead n).1.toNetworkBuffer = (b.toNetworkBuffer.onRead n).1 := by
  unfold onRead NetworkBuffer.onRead
  rw [apply_ite Prod.fst, apply_ite Prod.fst, apply_ite toNetworkBuffer]
  rfl

theorem toNetworkBuffer_onWrite (b : CustomBuffer) (n : Int) :
    (b.onWrite n).1.toNetworkBuffer = (b.toNetworkBuffer.onWrite n).1 := by
  unfold onWrite NetworkBuffer.onWrite
  rw [apply_ite Prod.fst, apply_ite Prod.fst, apply_ite toNetworkBuffer]
  rfl

@[simp] theorem clean_mCapacity (b : CustomBuffer) : b.clean.mCapacity = b.mCapacity := by
  unfold clean
  rw [apply_ite mCapacity, apply_ite mCapacity, ite_self, ite_self]

@[simp] theorem onRead_mCapacity (b : CustomBuffer) (n : Int) :
    (b.onRead n).1.mCapacity = b.mCapacity := by
  unfold onRead
  split <;> rfl

@[simp] theorem onWrite_mCapacity (b : CustomBuffer) (n : Int) :
    (b.onWrite n).1.mCapacity = b.mCapacity := by
  unfold onWrite
  split <;> rfl

/-- The buffer is a valid one of the pool for its own capacity. -/
def Sound (b : CustomBuffer) : Prop := b.toNetworkBuffer.Valid b.mCapacity

variable {b : CustomBuffer}

theorem Sound.valid (h : b.Sound) : b.Valid :=
  ⟨h.read_nonneg, h.read_le, h.write_le, h.length_eq⟩

theorem construct_sound {capacity : Int} (h : 0 < capacity) : (construct capacity).Sound := by
  refine ⟨rfl, rfl, ?_, le_refl _, le_refl _, h.le⟩
  simp only [toNetworkBuffer, construct, length_resize]
  omega

theorem Sound.init (h : b.Sound) {capacity : Int} (hcap : 0 < capacity)
    (hfit : b.mWritePos ≤ capacity) : (b.init capacity).Sound := by
  refine ⟨rfl, rfl, ?_, h.read_nonneg, h.read_le, hfit⟩
  simp only [toNetworkBuffer, CustomBuffer.init, length_resize]
  omega

theorem Sound.clean (h : b.Sound) : b.clean.Sound := by
  have hclean := NetworkBuffer.Valid.clean h
  rwa [← toNetworkBuffer_clean, ← clean_mCapacity b] at hclean

theorem Sound.onRead (h : b.Sound) {n : Int} (hn : 0 ≤ n) : (b.onRead n).1.Sound := by
  have hread := NetworkBuffer.Valid.onRead h n hn
  rwa [← toNetworkBuffer_onRead, ← onRead_mCapacity b n] at hread

theorem Sound.onWrite (h : b.Sound) {n : Int} (hn : 0 ≤ n) : (b.onWrite n).1.Sound := by
  have hwrite := NetworkBuffer.Valid.onWrite h n hn
  rwa [← toNetworkBuffer_onWrite, ← onWrite_mCapacity b n] at hwrite

/-- `Clean` of a sound buffer moves its data to the front of the storage. -/
theorem Sound.copyInside (h : b.Sound) : b.CopyInside := by
  intro _
  have hread : 0 ≤ b.mReadPos := h.read_nonneg
  have hle : b.mReadPos ≤ b.mWritePos := h.read_le
  have hwrite : b.mWritePos ≤ b.mCapacity := h.write_le
  have hlen : (b.mBuffer.length : Int) = b.mCapacity := h.length_eq
  simp only [dataSize]
  omega

theorem Sound.freeSize_nonneg (h : b.Sound) : 0 ≤ b.freeSize := by
  have hwrite : b.mWritePos ≤ b.mCapacity := h.write_le
  simp only [freeSize]
  omega

theorem Sound.keeps {op : CustomBufferOp} {b' : CustomBuffer} (h : b.Sound) (h' : b'.Sound) :
    b.Keeps op b' :=
  ⟨h'.valid, h'.freeSize_nonneg, fun _ => h.copyInside⟩

theorem Sound.apply (h : b.Sound) {op : CustomBufferOp} (hop : op.Legal) (hfit : b.FitsInit op) :
    (b.apply op).Sound := by
  cases op with
  | init capacity => exact h.init hop.1 hfit
  | onWrite n => exact h.onWrite hop.1
  | onRead n => exact h.onRead hop.1
  | clean => exact h.clean

theorem Sound.keeps_iff (h : b.Sound) {op : CustomBufferOp} (hop : op.Legal) :
    b.Keeps op (b.apply op) ↔ b.FitsInit op := by
  constructor
  · intro hkeeps
    cases op with
    | init capacity => exact hkeeps.valid.write_le
    | _ => exact trivial
  · intro hfit
    exact h.keeps (h.apply hop hfit)

/-- Every operation leaves the buffer valid, exactly when no `Init` cuts off written bytes. -/
theorem keeps_valid_iff {capacity : Int} (hcap : 0 < capacity) {ops : List CustomBufferOp}
    (hops : ∀ op ∈ ops, op.Legal) :
    Along next Keeps (construct capacity) ops ↔
      Along next (fun b op _ => b.FitsInit op) (construct capacity) ops := by
  apply along_iff Sound CustomBufferOp.Legal
  · intro b op b' hb hop hnext
    obtain rfl := Option.some.inj hnext
    exact hb.keeps_iff hop
  · intro b op b' hb hop hnext hfit
    obtain rfl := Option.some.inj hnext
    exact hb.apply hop hfit
  · exact construct_sound hcap
  · exact hops

theorem along_cons {P : CustomBuffer → CustomBufferOp → CustomBuffer → Prop}
    {op : CustomBufferOp} {ops : List CustomBufferOp} : Along next P b (op :: ops) ↔
      P b op (b.apply op) ∧ Along next P (b.apply op) ops := by
  constructor
  · intro h
    exact h (b.apply op) rfl
  · intro h b' hnext
    obtain rfl := Option.some.inj hnext
    exact h

/-- `Init` with data in the buffer, to more than was written. -/
def grow : List CustomBufferOp := [.onWrite 6, .onRead 2, .init 16, .onWrite 10, .clean]

theorem grow_keeps : Along next Keeps (construct 8) grow := by
  apply (keeps_valid_iff (by decide) (by simp [grow, CustomBufferOp.Legal])).mpr
  simp only [grow, along_cons, FitsInit, true_and]
  exact ⟨by decide, trivial⟩

/-- `Init` to less than what was written. -/
def shrink : List CustomBufferOp := [.onWrite 8, .init 4]

theorem shrink_invalid : ¬∀ capacity : Int, 0 < capacity → ∀ ops : List CustomBufferOp,
    (∀ op ∈ ops, op.Legal) → Along next Keeps (construct capacity) ops := by
  intro claim
  have hkeeps := claim 8 (by decide) shrink (by simp [shrink, CustomBufferOp.Legal])
  simp only [shrink, along_cons] at hkeeps
  exact absurd hkeeps.2.1.freeSize_nonneg (by decide)

end CustomBuffer

end ServerCore.Network
