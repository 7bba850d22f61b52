import ServerCore.Framework.Fifo
import ServerCore.Network.NetworkBuffer

namespace ServerCore.Network

open Framework

namespace NetworkBuffer

/-- One operation. Bytes that fit are written at `WritePos()` before `OnWrite` counts them. -/
def step (b : NetworkBuffer) : FifoOp UInt8 → NetworkBuffer × Bool
  | .push bytes =>
      if (bytes.length : Int) ≤ b.freeSize then (b.store bytes).onWrite bytes.length
      else b.onWrite bytes.length
  | .pop numOfBytes => b.onRead numOfBytes
  | .compact => (b.clean, true)
  | .clear => (b.reset, true)

variable {capacity : Int} {b : NetworkBuffer}

theorem onWrite_fails_iff (n : Int) : b.onWrite n = (b, false) ↔ b.freeSize < n := by
  unfold onWrite
  split
  · next h => simpa using h
  · next h => simpa using h

theorem onRead_fails_iff (n : Int) : b.onRead n = (b, false) ↔ b.dataSize < n := by
  unfold onRead
  split
  · next h => simpa using h
  · next h => simpa using h

theorem data_reset (b : NetworkBuffer) : b.reset.data = [] := rfl

theorem Valid.step (h : b.Valid capacity) (op : FifoOp UInt8) : (b.step op).1.Valid capacity := by
  cases op with
  | push bytes =>
    simp only [NetworkBuffer.step]
    split
    · next hfit => exact (h.store bytes hfit).onWrite _ (Int.natCast_nonneg _)
    · exact h.onWrite _ (Int.natCast_nonneg _)
  | pop n => exact h.onRead n (Int.natCast_nonneg n)
  | compact => exact h.clean
  | clear => exact h.reset

theorem Valid.step_data (h : b.Valid capacity) (op : FifoOp UInt8) :
    (b.step op).1.data = op.apply (b.step op).2 b.data := by
  cases op with
  | push bytes =>
    simp only [NetworkBuffer.step]
    split
    · next hfit =>
      have hok := onWrite_spec _ (show (bytes.length : Int) ≤ (b.store bytes).freeSize from hfit)
      rw [h.data_onWrite bytes hfit, hok]
      rfl
    · next hfit =>
      rw [(onWrite_fails_iff _).mpr (not_le.mp hfit)]
      rfl
  | pop n =>
    simp only [NetworkBuffer.step]
    rcases le_or_gt (n : Int) b.dataSize with hfit | hfit
    · rw [h.data_onRead n hfit, onRead_spec _ hfit]
      rfl
    · rw [(onRead_fails_iff _).mpr hfit]
      rfl
  | compact => exact h.data_clean
  | clear => exact data_reset b

/-- The buffer is a queue of bytes. -/
theorem lawfulFifo (capacity : Int) :
    LawfulFifo NetworkBuffer.step (Valid capacity) NetworkBuffer.data :=
  ⟨fun _ op h => h.step op, fun _ op h => h.step_data op⟩

theorem onWrite_reports (b : NetworkBuffer) (n : Int) :
    ((b.onWrite n).2 = false ↔ b.freeSize < n) ∧
      ((b.onWrite n).2 = false → (b.onWrite n).1 = b) := by
  rcases le_or_gt n b.freeSize with hfit | hfit
  · rw [onWrite_spec n hfit]
    simpa using hfit
  · rw [(onWrite_fails_iff n).mpr hfit]
    simpa using hfit

theorem onRead_reports (b : NetworkBuffer) (n : Int) :
    ((b.onRead n).2 = false ↔ b.dataSize < n) ∧
      ((b.onRead n).2 = false → (b.onRead n).1 = b) := by
  rcases le_or_gt n b.dataSize with hfit | hfit
  · rw [onRead_spec n hfit]
    simpa using hfit
  · rw [(onRead_fails_iff n).mpr hfit]
    simpa using hfit

/-- Any operations on a new buffer keep its positions in order and its data equal to the
abstract queue. The next `OnWrite` or `OnRead` fails, and then changes nothing, exactly when
the count exceeds the room or the queue; the next `Clean` leaves the data at the front or half
of the capacity free. -/
theorem byteFifo (capacity : ℕ) (rioBuffID : ℕ) (offset : Int)
    (slice : List UInt8) (hslice : slice.length = capacity) (ops : List (FifoOp UInt8)) :
    let run := runOps NetworkBuffer.step (construct rioBuffID offset slice capacity) ops
    let b := run.1
    let queue := replay [] (ops.zip run.2)
    (0 ≤ b.mReadPos ∧ b.mReadPos ≤ b.mWritePos ∧ b.mWritePos ≤ capacity) ∧
      b.data = queue ∧
      (∀ n : ℕ, ((b.onWrite n).2 = false ↔ (capacity : Int) - b.mWritePos < n) ∧
        ((b.onWrite n).2 = false → (b.onWrite n).1 = b)) ∧
      (∀ n : ℕ, ((b.onRead n).2 = false ↔ queue.length < n) ∧
        ((b.onRead n).2 = false → (b.onRead n).1 = b)) ∧
      (b.clean.mReadPos = 0 ∨ (capacity : Int) / 2 ≤ b.clean.freeSize) := by
  intro run b queue
  have hnew := construct_valid rioBuffID offset (congrArg Nat.cast hslice)
  obtain ⟨hvalid, hdata⟩ := (lawfulFifo capacity).run _ hnew ops
  have hempty : (construct rioBuffID offset slice capacity).data = [] := rfl
  rw [hempty] at hdata
  have hcap := hvalid.capacity_eq
  refine ⟨⟨hvalid.read_nonneg, hvalid.read_le, hvalid.write_le⟩, hdata, ?_, ?_, ?_⟩
  · intro n
    obtain ⟨hfails, hsame⟩ := onWrite_reports b n
    rw [freeSize, hcap] at hfails
    exact ⟨hfails, hsame⟩
  · intro n
    obtain ⟨hfails, hsame⟩ := onRead_reports b n
    rw [← hvalid.length_data, hdata] at hfails
    exact ⟨hfails.trans Int.ofNat_lt, hsame⟩
  · have hroom := clean_room b
    rw [hvalid.clean.reSizePos_eq] at hroom
    exact hroom

/-- Five slots: a write, a read, a move to the front, and a write that does not fit. -/
theorem byteFifo_five :
    ((runOps NetworkBuffer.step (construct 1 0 [0, 0, 0, 0, 0] 5)
      [.push [1, 2, 3, 4], .pop 3, .compact, .push [5, 6, 7, 8, 9]]).1).data =
    replay [] ([FifoOp.push [1, 2, 3, 4], .pop 3, .compact, .push [5, 6, 7, 8, 9]].zip
      [true, true, true, false]) :=
  (byteFifo 5 1 0 [0, 0, 0, 0, 0] rfl
    [.push [1, 2, 3, 4], .pop 3, .compact, .push [5, 6, 7, 8, 9]]).2.1

end NetworkBuffer

end ServerCore.Network
