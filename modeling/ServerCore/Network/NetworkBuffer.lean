import Mathlib.Data.List.TakeDrop
import Mathlib.Tactic.Linarith

namespace ServerCore.Network

def recvBufferSize : Int := 16384

def sendBufferSize : Int := 32768

/-- `memcpy(&buf[dst], &buf[src], n)` as an ascending byte copy. -/
def memcpy (buf : List UInt8) (dst src : ℕ) : ℕ → List UInt8
  | 0 => buf
  | n + 1 => (memcpy buf dst src n).set (dst + n) ((memcpy buf dst src n).getD (src + n) 0)

/-- Writes bytes from outside to `&buf[pos]`. -/
def overwrite (buf : List UInt8) (pos : ℕ) (bytes : List UInt8) : List UInt8 :=
  buf.take pos ++ bytes ++ buf.drop (pos + bytes.length)

@[simp] theorem memcpy_length (buf : List UInt8) (dst src n : ℕ) :
    (memcpy buf dst src n).length = buf.length := by
  induction n with
  | zero => rfl
  | succ n ih => simp [memcpy, ih]

theorem overwrite_length (buf : List UInt8) (pos : ℕ) (bytes : List UInt8)
    (h : pos + bytes.length ≤ buf.length) : (overwrite buf pos bytes).length = buf.length := by
  simp only [overwrite, List.length_append, List.length_take, List.length_drop]
  omega

/-- A downward copy changes the target range only, and there to the bytes read before it. -/
theorem memcpy_get (buf : List UInt8) (dst src n : ℕ) (hdown : dst ≤ src)
    (hfit : src + n ≤ buf.length) (i : ℕ) : (memcpy buf dst src n)[i]? =
      if dst ≤ i ∧ i < dst + n then buf[src + (i - dst)]? else buf[i]? := by
  induction n generalizing i with
  | zero =>
    rw [if_neg (by omega)]
    rfl
  | succ n ih =>
    have hread : (memcpy buf dst src n)[src + n]? = buf[src + n]? := by
      rw [ih (by omega), if_neg (by omega)]
    by_cases hi : i = dst + n
    · subst i
      rw [memcpy, List.getElem?_set_self (by rw [memcpy_length]; omega), if_pos (by omega),
        Nat.add_sub_cancel_left, ← hread]
      have hlt : src + n < (memcpy buf dst src n).length := by rw [memcpy_length]; omega
      simp [List.getElem?_eq_getElem hlt, List.getD_eq_getElem?_getD]
    · rw [memcpy, List.getElem?_set_ne (Ne.symm hi), ih (by omega)]
      by_cases hin : dst ≤ i ∧ i < dst + n
      · rw [if_pos hin, if_pos (by omega)]
      · rw [if_neg hin, if_neg (by omega)]

theorem memcpy_front (buf : List UInt8) (src n : ℕ) (hfit : src + n ≤ buf.length) :
    (memcpy buf 0 src n).take n = (buf.drop src).take n := by
  apply List.ext_getElem?
  intro i
  by_cases hi : i < n
  · rw [List.getElem?_take_of_lt hi, List.getElem?_take_of_lt hi, List.getElem?_drop,
      memcpy_get buf 0 src n (Nat.zero_le _) hfit, if_pos (by omega), Nat.sub_zero]
  · rw [List.getElem?_take_eq_none (by omega), List.getElem?_take_eq_none (by omega)]

/-- `mBuffer` is the slice of the registered region that starts at `mOffset`. -/
structure NetworkBuffer where
  mCapacity : Int
  mReSizePos : Int
  mReadPos : Int
  mWritePos : Int
  mRioBuffID : ℕ
  mOffset : Int
  mBuffer : List UInt8
  deriving DecidableEq

namespace NetworkBuffer

/-- The constructor, for a slice that holds `bytes`. -/
def construct (rioBuffID : ℕ) (offset : Int) (bytes : List UInt8) (capacity : Int) :
    NetworkBuffer :=
  ⟨capacity, capacity / 2, 0, 0, rioBuffID, offset, bytes⟩

def reset (b : NetworkBuffer) : NetworkBuffer := { b with mReadPos := 0, mWritePos := 0 }

def dataSize (b : NetworkBuffer) : Int := b.mWritePos - b.mReadPos

def freeSize (b : NetworkBuffer) : Int := b.mCapacity - b.mWritePos

def clean (b : NetworkBuffer) : NetworkBuffer :=
  if b.dataSize = 0 then { b with mReadPos := 0, mWritePos := 0 }
  else if b.freeSize < b.mReSizePos then
    { b with
      mBuffer := memcpy b.mBuffer 0 b.mReadPos.toNat b.dataSize.toNat
      mReadPos := 0
      mWritePos := b.dataSize }
  else b

/-- `Clean` executes its `memcpy`. -/
def Copies (b : NetworkBuffer) : Prop := b.dataSize ≠ 0 ∧ b.freeSize < b.mReSizePos

instance : DecidablePred Copies := fun b =>
  inferInstanceAs (Decidable (b.dataSize ≠ 0 ∧ b.freeSize < b.mReSizePos))

def onRead (b : NetworkBuffer) (numOfBytes : Int) : NetworkBuffer × Bool :=
  if numOfBytes > b.dataSize then (b, false)
  else ({ b with mReadPos := b.mReadPos + numOfBytes }, true)

def onWrite (b : NetworkBuffer) (numOfBytes : Int) : NetworkBuffer × Bool :=
  if numOfBytes > b.freeSize then (b, false)
  else ({ b with mWritePos := b.mWritePos + numOfBytes }, true)

/-- Bytes arrive at `WritePos()`: from the network or by `memcpy_s`. -/
def store (b : NetworkBuffer) (bytes : List UInt8) : NetworkBuffer :=
  { b with mBuffer := overwrite b.mBuffer b.mWritePos.toNat bytes }

/-- The bytes between `ReadPos()` and `WritePos()`. -/
def data (b : NetworkBuffer) : List UInt8 :=
  (b.mBuffer.drop b.mReadPos.toNat).take b.dataSize.toNat

/-- A buffer of the given capacity whose positions are in order and whose slice is complete. -/
structure Valid (capacity : Int) (b : NetworkBuffer) : Prop where
  capacity_eq : b.mCapacity = capacity
  reSizePos_eq : b.mReSizePos = capacity / 2
  length_eq : (b.mBuffer.length : Int) = capacity
  read_nonneg : 0 ≤ b.mReadPos
  read_le : b.mReadPos ≤ b.mWritePos
  write_le : b.mWritePos ≤ capacity

variable {capacity : Int} {b : NetworkBuffer}

theorem construct_valid (rioBuffID : ℕ) (offset : Int) {slice : List UInt8}
    (hslice : (slice.length : Int) = capacity) :
    (construct rioBuffID offset slice capacity).Valid capacity :=
  ⟨rfl, rfl, hslice, le_refl _, le_refl _, hslice ▸ Int.natCast_nonneg slice.length⟩

theorem Valid.reset (h : b.Valid capacity) : b.reset.Valid capacity := by
  have hlen := h.length_eq
  exact ⟨h.capacity_eq, h.reSizePos_eq, h.length_eq, le_refl _, le_refl _,
    by simp only [NetworkBuffer.reset]; omega⟩

theorem Valid.length_data (h : b.Valid capacity) : (b.data.length : Int) = b.dataSize := by
  have hlen := h.length_eq
  have h₀ := h.read_nonneg
  have h₁ := h.read_le
  have h₂ := h.write_le
  simp only [data, dataSize, List.length_take, List.length_drop]
  omega

theorem Valid.store (h : b.Valid capacity) (bytes : List UInt8)
    (hfit : (bytes.length : Int) ≤ b.freeSize) : (b.store bytes).Valid capacity := by
  have hlen := h.length_eq
  have h₀ := h.read_nonneg
  have h₁ := h.read_le
  have hcap := h.capacity_eq
  simp only [freeSize] at hfit
  refine ⟨h.capacity_eq, h.reSizePos_eq, ?_, h.read_nonneg, h.read_le, h.write_le⟩
  rw [NetworkBuffer.store, overwrite_length _ _ _ (by omega)]
  exact h.length_eq

theorem onWrite_spec (n : Int) (hfit : n ≤ b.freeSize) :
    b.onWrite n = ({ b with mWritePos := b.mWritePos + n }, true) := by
  rw [onWrite, if_neg (not_lt.mpr hfit)]

theorem onRead_spec (n : Int) (hfit : n ≤ b.dataSize) :
    b.onRead n = ({ b with mReadPos := b.mReadPos + n }, true) := by
  rw [onRead, if_neg (not_lt.mpr hfit)]

theorem Valid.onWrite (h : b.Valid capacity) (n : Int) (hn : 0 ≤ n) :
    (b.onWrite n).1.Valid capacity := by
  have hcap := h.capacity_eq
  have h₁ := h.read_le
  by_cases hfit : n ≤ b.freeSize
  · rw [onWrite_spec n hfit]
    simp only [freeSize] at hfit
    exact ⟨h.capacity_eq, h.reSizePos_eq, h.length_eq, h.read_nonneg, by simp only; omega,
      by simp only; omega⟩
  · rw [NetworkBuffer.onWrite, if_pos (not_le.mp hfit)]
    exact h

theorem Valid.onRead (h : b.Valid capacity) (n : Int) (hn : 0 ≤ n) :
    (b.onRead n).1.Valid capacity := by
  have h₀ := h.read_nonneg
  by_cases hfit : n ≤ b.dataSize
  · rw [onRead_spec n hfit]
    simp only [dataSize] at hfit
    exact ⟨h.capacity_eq, h.reSizePos_eq, h.length_eq, by simp only; omega, by simp only; omega,
      h.write_le⟩
  · rw [NetworkBuffer.onRead, if_pos (not_le.mp hfit)]
    exact h

theorem Valid.clean (h : b.Valid capacity) : b.clean.Valid capacity := by
  have h₀ := h.read_nonneg
  have h₁ := h.read_le
  have h₂ := h.write_le
  unfold NetworkBuffer.clean
  split
  · exact h.reset
  · split
    · refine ⟨h.capacity_eq, h.reSizePos_eq, ?_, le_refl _, ?_, ?_⟩
      · simp only [memcpy_length]
        exact h.length_eq
      · simp only [dataSize]; omega
      · simp only [dataSize]; omega
    · exact h

/-- Bytes that arrive and are counted by `OnWrite` are appended to the data. -/
theorem Valid.data_onWrite (h : b.Valid capacity) (bytes : List UInt8)
    (hfit : (bytes.length : Int) ≤ b.freeSize) :
    ((b.store bytes).onWrite bytes.length).1.data = b.data ++ bytes := by
  have hlen := h.length_eq
  have h₀ := h.read_nonneg
  have h₁ := h.read_le
  have hcap := h.capacity_eq
  rw [onWrite_spec _ (show (bytes.length : Int) ≤ (b.store bytes).freeSize from hfit)]
  simp only [freeSize] at hfit
  generalize hr : b.mReadPos.toNat = r
  generalize hd : (b.mWritePos - b.mReadPos).toNat = d
  have hw : b.mWritePos.toNat = r + d := by omega
  have hsize : (b.mWritePos + (bytes.length : Int) - b.mReadPos).toNat = d + bytes.length := by
    omega
  have htake : (b.mBuffer.take (r + d)).length = r + d := by
    rw [List.length_take]
    omega
  have hinner : ((b.mBuffer.drop r).take d).length = d := by
    rw [List.length_take, List.length_drop]
    omega
  simp only [data, dataSize, NetworkBuffer.store, overwrite, hw, hsize, hr, hd]
  rw [List.append_assoc, List.drop_append_of_le_length (by omega), List.drop_take,
    Nat.add_sub_cancel_left, List.take_append, hinner, List.take_of_length_le (by omega),
    Nat.add_sub_cancel_left, List.take_left]

/-- `OnRead` drops bytes from the front of the data. -/
theorem Valid.data_onRead (h : b.Valid capacity) (n : ℕ) (hfit : (n : Int) ≤ b.dataSize) :
    (b.onRead n).1.data = b.data.drop n := by
  have h₀ := h.read_nonneg
  rw [onRead_spec _ hfit]
  obtain ⟨r, hr⟩ := Int.eq_ofNat_of_zero_le h₀
  have hstart : (b.mReadPos + (n : Int)).toNat = r + n := by omega
  have hsize : (b.mWritePos - (b.mReadPos + (n : Int))).toNat = b.dataSize.toNat - n := by
    simp only [dataSize]
    omega
  simp only [data, dataSize] at hsize ⊢
  rw [hsize, hstart, hr, Int.toNat_natCast, List.drop_take, List.drop_drop]

/-- `Clean` moves the data and keeps them. -/
theorem Valid.data_clean (h : b.Valid capacity) : b.clean.data = b.data := by
  have hlen := h.length_eq
  have h₀ := h.read_nonneg
  have h₁ := h.read_le
  have h₂ := h.write_le
  unfold NetworkBuffer.clean
  split
  · next hzero =>
    have hnil : b.data = [] := by simp [data, hzero]
    rw [hnil]
    rfl
  · split
    · have hfit : b.mReadPos.toNat + b.dataSize.toNat ≤ b.mBuffer.length := by
        simp only [dataSize]
        omega
      simp only [data, dataSize, Int.sub_zero, Int.toNat_zero, List.drop_zero]
      exact memcpy_front b.mBuffer _ _ hfit
    · rfl

/-- The bytes after `Clean` are those of its `memcpy`, or else as they were. -/
theorem clean_mBuffer (b : NetworkBuffer) : b.clean.mBuffer =
    if b.Copies then memcpy b.mBuffer 0 b.mReadPos.toNat b.dataSize.toNat else b.mBuffer := by
  unfold clean
  by_cases hzero : b.dataSize = 0
  · have hnot : ¬ b.Copies := fun h => h.1 hzero
    rw [if_pos hzero, if_neg hnot]
  · rw [if_neg hzero]
    by_cases hfull : b.freeSize < b.mReSizePos
    · have hcopies : b.Copies := ⟨hzero, hfull⟩
      rw [if_pos hfull, if_pos hcopies]
    · have hnot : ¬ b.Copies := fun h => hfull h.2
      rw [if_neg hfull, if_neg hnot]

/-- After `Clean` the data start at position 0, or no less than `mReSizePos` is free. -/
theorem clean_room (b : NetworkBuffer) :
    b.clean.mReadPos = 0 ∨ b.clean.mReSizePos ≤ b.clean.freeSize := by
  unfold clean
  split
  · exact .inl rfl
  · split
    · exact .inl rfl
    · next hroom => exact .inr (not_lt.mp hroom)

@[simp] theorem clean_mRioBuffID (b : NetworkBuffer) : b.clean.mRioBuffID = b.mRioBuffID := by
  unfold clean
  split
  · rfl
  · split <;> rfl

@[simp] theorem clean_mOffset (b : NetworkBuffer) : b.clean.mOffset = b.mOffset := by
  unfold clean
  split
  · rfl
  · split <;> rfl

@[simp] theorem onWrite_mRioBuffID (b : NetworkBuffer) (n : Int) :
    (b.onWrite n).1.mRioBuffID = b.mRioBuffID := by
  unfold onWrite
  split <;> rfl

@[simp] theorem onWrite_mOffset (b : NetworkBuffer) (n : Int) :
    (b.onWrite n).1.mOffset = b.mOffset := by
  unfold onWrite
  split <;> rfl

@[simp] theorem onRead_mRioBuffID (b : NetworkBuffer) (n : Int) :
    (b.onRead n).1.mRioBuffID = b.mRioBuffID := by
  unfold onRead
  split <;> rfl

@[simp] theorem onRead_mOffset (b : NetworkBuffer) (n : Int) :
    (b.onRead n).1.mOffset = b.mOffset := by
  unfold onRead
  split <;> rfl

/-- Arrived bytes that fit are appended to the data. -/
theorem Valid.receive (h : b.Valid capacity) (bytes : List UInt8)
    (hfit : (bytes.length : Int) ≤ b.freeSize) :
    ∃ b', (b.store bytes).onWrite bytes.length = (b', true) ∧ b'.Valid capacity ∧
      b'.data = b.data ++ bytes ∧ b'.mRioBuffID = b.mRioBuffID ∧ b'.mOffset = b.mOffset := by
  have hok := onWrite_spec _ (show (bytes.length : Int) ≤ (b.store bytes).freeSize from hfit)
  have hvalid := (h.store bytes hfit).onWrite bytes.length (by omega)
  have hdata := h.data_onWrite bytes hfit
  rw [hok] at hvalid hdata
  exact ⟨_, hok, hvalid, hdata, rfl, rfl⟩

/-- `OnRead` of available bytes, then `Clean`. -/
theorem Valid.consume (h : b.Valid capacity) (n : ℕ) (hfit : (n : Int) ≤ b.dataSize) :
    ∃ b', b.onRead n = (b', true) ∧ b'.clean.Valid capacity ∧ b'.clean.data = b.data.drop n ∧
      b'.mRioBuffID = b.mRioBuffID ∧ b'.mOffset = b.mOffset := by
  have hok := onRead_spec _ hfit
  have hvalid := h.onRead n (by omega)
  have hdata := h.data_onRead n hfit
  rw [hok] at hvalid hdata
  exact ⟨_, hok, hvalid.clean, hvalid.data_clean.trans hdata, rfl, rfl⟩

/-- `RIO_BUF`: a part of a registered region. -/
structure RioBuf where
  bufferId : ℕ
  offset : Int
  length : Int
  deriving DecidableEq

/-- The region lies in the buffer's own slice. -/
def Encloses (b : NetworkBuffer) (region : RioBuf) : Prop :=
  region.bufferId = b.mRioBuffID ∧ b.mOffset ≤ region.offset ∧
    region.offset + region.length ≤ b.mOffset + b.mCapacity

/-- The region that `RegisterRecv` offers to the network. -/
def recvRegion (b : NetworkBuffer) : RioBuf := ⟨b.mRioBuffID, b.mOffset + b.mWritePos, b.freeSize⟩

theorem Valid.encloses_recvRegion (h : b.Valid capacity) : b.Encloses b.recvRegion := by
  have h₀ := h.read_nonneg
  have h₁ := h.read_le
  refine ⟨rfl, ?_, ?_⟩
  · simp only [recvRegion]; omega
  · simp only [recvRegion, freeSize]; omega

end NetworkBuffer

end ServerCore.Network
