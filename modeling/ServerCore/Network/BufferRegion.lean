import ServerCore.Network.RegisteredBufferPool
import Mathlib.Order.Bounds.Basic

namespace ServerCore.Network

section Rounding

/-- `RoundDown` gives the largest multiple that is not above. -/
theorem roundDown_isGreatest (value multiple : ℕ) :
    IsGreatest {m | multiple ∣ m ∧ m ≤ value} (roundDown value multiple) := by
  refine ⟨⟨Nat.dvd_mul_left _ _, Nat.div_mul_le_self _ _⟩, ?_⟩
  intro m hm
  obtain ⟨⟨c, rfl⟩, hle⟩ := hm
  rw [roundDown, Nat.mul_comm multiple c] at *
  rcases Nat.eq_zero_or_pos multiple with rfl | hpos
  · simp
  · have hc := (Nat.le_div_iff_mul_le hpos).mpr hle
    exact Nat.mul_le_mul_right multiple hc

/-- `RoundUp` gives the smallest multiple that is not below. -/
theorem roundUp_isLeast (value multiple : ℕ) (hpos : 0 < multiple) :
    IsLeast {m | multiple ∣ m ∧ value ≤ m} (roundUp value multiple) := by
  have hdiv := Nat.div_add_mod' value multiple
  have hmod := Nat.mod_lt value hpos
  constructor
  · constructor
    · apply Nat.dvd_add (Nat.dvd_mul_left _ _)
      split
      · exact Nat.dvd_refl _
      · exact Nat.dvd_zero _
    · unfold roundUp roundDown
      split <;> omega
  · intro m hm
    obtain ⟨⟨c, rfl⟩, hle⟩ := hm
    unfold roundUp roundDown
    split
    · next hrest =>
      have hc : value / multiple + 1 ≤ c := by
        apply Nat.succ_le_of_lt
        apply Nat.lt_of_mul_lt_mul_right (a := multiple)
        rw [Nat.mul_comm c]
        omega
      have hmul := Nat.mul_le_mul_right multiple hc
      rw [Nat.succ_mul, Nat.mul_comm c] at hmul
      exact hmul
    · omega

theorem roundUp_lt (value multiple : ℕ) (hpos : 0 < multiple) :
    roundUp value multiple < value + multiple := by
  have hdiv := Nat.div_add_mod' value multiple
  unfold roundUp roundDown
  split <;> omega

/-- Two multiples of `g` are at least `g` apart. -/
theorem multiple_gap {g a b : ℕ} (ha : g ∣ a) (hb : g ∣ b) (hlt : a < b) : a + g ≤ b := by
  have hle := Nat.le_of_dvd (by omega) (Nat.dvd_sub hb ha)
  omega

end Rounding

section AllocateBufferSpace

variable (g pend recvs : ℕ)

/-- The size is rounded from the product modulo 2 ^ 32, and clamped. -/
theorem allocateBufferSpace_size (hpos : 0 < g) : (allocateBufferSpace g pend recvs).1 =
    min (roundUp (pend * recvs % 2 ^ 32) g) (roundDown (2 ^ 32 - 1) g) := by
  have htop := roundDown_isGreatest (2 ^ 32 - 1) g
  have hup := roundUp_isLeast (pend * recvs % 2 ^ 32) g hpos
  have hmax : roundDown (2 ^ 32 - 1) g ≤ 2 ^ 32 - 1 := htop.1.2
  simp only [allocateBufferSpace]
  split
  · next hbig =>
    change roundDown (2 ^ 32 - 1) g % 2 ^ 32 = _
    rw [Nat.mod_eq_of_lt (by omega), Nat.min_eq_right (by omega)]
  · next hsmall =>
    have hle : roundUp (pend * recvs % 2 ^ 32) g ≤ roundDown (2 ^ 32 - 1) g :=
      htop.2 ⟨hup.1.1, by omega⟩
    rw [Nat.mod_eq_of_lt (by omega), Nat.min_eq_left hle]

/-- The count is the one that the returned size leaves room for. -/
theorem allocateBufferSpace_count : (allocateBufferSpace g pend recvs).2 =
    min recvs ((allocateBufferSpace g pend recvs).1 / pend) := by
  have htop : (2 ^ 32 - 1) / g * g ≤ 2 ^ 32 - 1 := Nat.div_mul_le_self _ _
  simp only [allocateBufferSpace]
  generalize hsize : (if roundUp (pend * recvs % 2 ^ 32) g > 2 ^ 32 - 1 then
    (2 ^ 32 - 1) / g * g else roundUp (pend * recvs % 2 ^ 32) g) = actualSize
  have hfit : actualSize < 2 ^ 32 := by
    rw [← hsize]
    split <;> omega
  have hdiv := Nat.div_le_self actualSize pend
  rw [Nat.mod_eq_of_lt hfit, Nat.mod_eq_of_lt (by omega)]

/-- What the allocation is for: the exact request, rounded up to the granularity, or the
largest multiple of the granularity that a `DWORD` holds. -/
structure RequestOrClamp (bufferSize receiveBuffersAllocated : ℕ) : Prop where
  size : ∃ request clamp, IsLeast {m | g ∣ m ∧ pend * recvs ≤ m} request ∧
    IsGreatest {m | g ∣ m ∧ m ≤ 2 ^ 32 - 1} clamp ∧ bufferSize = min request clamp
  count : receiveBuffersAllocated = min recvs (bufferSize / pend)

variable {g pend recvs}

/-- Whether the truncated product still leads to the size asked for. -/
theorem min_roundUp_mod_iff (hpos : 0 < g) (hdword : g < 2 ^ 32) (n : ℕ) :
    min (roundUp (n % 2 ^ 32) g) (roundDown (2 ^ 32 - 1) g) =
        min (roundUp n g) (roundDown (2 ^ 32 - 1) g) ↔
      n < 2 ^ 32 ∨ roundDown (2 ^ 32 - 1) g - g < n % 2 ^ 32 := by
  have htop := (roundDown_isGreatest (2 ^ 32 - 1) g).1
  have hup := (roundUp_isLeast (n % 2 ^ 32) g hpos).1
  have hlt := roundUp_lt (n % 2 ^ 32) g hpos
  have hwant : n ≤ roundUp n g := (roundUp_isLeast n g hpos).1.2
  have hmax : roundDown (2 ^ 32 - 1) g ≤ 2 ^ 32 - 1 := htop.2
  have hmod : n % 2 ^ 32 ≤ roundUp (n % 2 ^ 32) g := hup.2
  have hone : g ≤ roundDown (2 ^ 32 - 1) g :=
    (roundDown_isGreatest (2 ^ 32 - 1) g).2 ⟨Nat.dvd_refl g, by omega⟩
  rcases Nat.lt_or_ge n (2 ^ 32) with hn | hn
  · rw [Nat.mod_eq_of_lt hn]
    exact iff_of_true rfl (.inl hn)
  · rw [Nat.min_eq_right (show roundDown (2 ^ 32 - 1) g ≤ roundUp n g by omega),
      min_eq_right_iff]
    constructor
    · intro hle
      omega
    · intro h
      apply Nat.le_of_not_lt
      intro hshort
      have hgap := multiple_gap hup.1 htop.1 hshort
      omega

end AllocateBufferSpace

/-- `AllocateBufferSpace` asks for the exact request or the clamp, unless the product of the two
`DWORD`s wraps and its remainder no longer reaches the clamp. -/
theorem allocateBufferSpace_requestOrClamp_iff (granularity pendigBufferSize pendingRecvs : UInt32)
    (hgranularity : 1 ≤ granularity.toNat) :
    RequestOrClamp granularity.toNat pendigBufferSize.toNat pendingRecvs.toNat
        (allocateBufferSpace granularity.toNat pendigBufferSize.toNat pendingRecvs.toNat).1
        (allocateBufferSpace granularity.toNat pendigBufferSize.toNat pendingRecvs.toNat).2 ↔
      pendigBufferSize.toNat * pendingRecvs.toNat < 2 ^ 32 ∨
        roundDown (2 ^ 32 - 1) granularity.toNat - granularity.toNat <
          pendigBufferSize.toNat * pendingRecvs.toNat % 2 ^ 32 := by
  have hleast := roundUp_isLeast (pendigBufferSize.toNat * pendingRecvs.toNat) _ hgranularity
  have hgreatest := roundDown_isGreatest (2 ^ 32 - 1) granularity.toNat
  rw [← min_roundUp_mod_iff hgranularity granularity.toNat_lt, ← allocateBufferSpace_size _ _ _ hgranularity]
  constructor
  · intro h
    obtain ⟨request, clamp, hrequest, hclamp, hsize⟩ := h.size
    rw [hsize, hrequest.unique hleast, hclamp.unique hgreatest]
  · intro h
    exact ⟨⟨_, _, hleast, hgreatest, h⟩, allocateBufferSpace_count _ _ _⟩

/-- A request for 16384 * 262145 = 2 ^ 32 + 16384 bytes at granularity 65536 gets 65536. -/
theorem allocateBufferSpace_wraps : ¬ RequestOrClamp 65536 16384 262145
    (allocateBufferSpace 65536 16384 262145).1 (allocateBufferSpace 65536 16384 262145).2 := by
  intro h
  have hmin := (allocateBufferSpace_size 65536 16384 262145 (by decide)).symm
  obtain ⟨request, clamp, hrequest, hclamp, hsize⟩ := h.size
  rw [hrequest.unique (roundUp_isLeast _ _ (by decide)),
    hclamp.unique (roundDown_isGreatest _ _)] at hsize
  exact absurd (hmin.trans hsize) (by decide)

theorem allocateBufferSpace_requestOrClamp_max :
    RequestOrClamp 65536 16384 4294967295 (allocateBufferSpace 65536 16384 4294967295).1
        (allocateBufferSpace 65536 16384 4294967295).2 ↔
      16384 * 4294967295 < 2 ^ 32 ∨
        roundDown (2 ^ 32 - 1) 65536 - 65536 < 16384 * 4294967295 % 2 ^ 32 :=
  allocateBufferSpace_requestOrClamp_iff 65536 16384 4294967295 (by decide)

/-- The buffers lie in a region of `bufferSize` bytes, `bs` bytes apart. -/
structure InRegion (bs bufferSize : ℕ) (buffers : List NetworkBuffer) : Prop where
  inside : ∀ b ∈ buffers, 0 ≤ b.mOffset ∧ b.mOffset + bs ≤ bufferSize
  apart : buffers.Pairwise fun b c => (bs : Int) ≤ |b.mOffset - c.mOffset|

section Slices

variable {bs : ℕ}

theorem enqueued_eq {T : Type} (t : T) (bs id size : ℕ) :
    (RegisteredBufferPool.initializePool bs true (some id) t size).mQueue.map Prod.snd =
      RegisteredBufferPool.slices bs id size := by
  simp only [RegisteredBufferPool.initializePool, Bool.true_eq_false, if_false, List.map_map]
  exact List.map_id _

/-- Up to 2 GiB the offsets do not wrap. -/
theorem slice_offset (hbs : 0 < bs) {size i : ℕ} (hi : i < size) (hfit : bs * size ≤ 2 ^ 31) :
    toInt32 (i * bs : ℕ) = (i * bs : ℕ) ∧ i * bs + bs ≤ bs * size := by
  have hle := Nat.mul_le_mul_right bs (Nat.succ_le_of_lt hi)
  rw [Nat.succ_mul, Nat.mul_comm size bs] at hle
  exact ⟨toInt32_of_range _ (by omega) (by omega), hle⟩

/-- A granularity that is a power of two rounds no request of at most 2 GiB down. -/
theorem request_le_bufferSize {g size k : ℕ} (hg : g = 2 ^ k) (hdword : g < 2 ^ 32)
    (hfit : bs * size ≤ 2 ^ 31) : bs * size ≤ (allocateBufferSpace g bs size).1 := by
  have hpos : 0 < g := by
    rw [hg]
    exact Nat.two_pow_pos k
  have hk : k < 32 := by
    rw [hg] at hdword
    exact (Nat.pow_lt_pow_iff_right (by decide)).mp hdword
  have hdvd : g ∣ 2 ^ 31 := by
    rw [hg]
    exact Nat.pow_dvd_pow 2 (by omega)
  have hclamp : 2 ^ 31 ≤ roundDown (2 ^ 32 - 1) g :=
    (roundDown_isGreatest (2 ^ 32 - 1) g).2 ⟨hdvd, by decide⟩
  have hrequest := (roundUp_isLeast (bs * size) g hpos).1.2
  rw [allocateBufferSpace_size g bs size hpos, Nat.mod_eq_of_lt (by omega)]
  exact le_min hrequest (hfit.trans hclamp)

theorem slices_inRegion (hbs : 0 < bs) {g size k : ℕ} (id : ℕ) (hg : g = 2 ^ k)
    (hdword : g < 2 ^ 32) (hfit : bs * size ≤ 2 ^ 31) :
    InRegion bs (allocateBufferSpace g bs size).1 (RegisteredBufferPool.slices bs id size) := by
  have hregion := request_le_bufferSize hg hdword hfit
  constructor
  · intro b hb
    obtain ⟨i, hi, rfl⟩ := List.mem_map.mp hb
    obtain ⟨hoff, hend⟩ := slice_offset hbs (List.mem_range.mp hi) hfit
    change 0 ≤ toInt32 (i * bs : ℕ) ∧ toInt32 (i * bs : ℕ) + bs ≤ _
    rw [hoff]
    constructor <;> omega
  · rw [RegisteredBufferPool.slices, List.pairwise_map]
    refine List.Pairwise.imp_of_mem ?_ (List.pairwise_lt_range (n := size))
    intro i j hi hj hlt
    obtain ⟨hoffi, _⟩ := slice_offset hbs (List.mem_range.mp hi) hfit
    obtain ⟨hoffj, _⟩ := slice_offset hbs (List.mem_range.mp hj) hfit
    have hstep := Nat.mul_le_mul_right bs (Nat.succ_le_of_lt hlt)
    rw [Nat.succ_mul] at hstep
    change (bs : Int) ≤ |toInt32 (i * bs : ℕ) - toInt32 (j * bs : ℕ)|
    rw [hoffi, hoffj, abs_sub_comm]
    have habs := le_abs_self (((j * bs : ℕ) : Int) - (i * bs : ℕ))
    omega

/-- The slice that begins 2 GiB into the region has the offset `-2 ^ 31`. -/
theorem slices_negative {size n : ℕ} (id : ℕ) (hn : n * bs = 2 ^ 31) (hsize : n < size) :
    ∃ b ∈ RegisteredBufferPool.slices bs id size, b.mOffset = -2 ^ 31 := by
  refine ⟨_, List.mem_map.mpr ⟨n, List.mem_range.mpr hsize, rfl⟩, ?_⟩
  change toInt32 (n * bs : ℕ) = -2 ^ 31
  rw [hn]
  decide

end Slices

/-- The buffers of `Initialize` lie in the allocated region, apart from each other, exactly for
pools of at most 2 GiB. -/
theorem initialize_inRegion_iff {T : Type} (t : T) (id bs : ℕ)
    (hbs : (bs : Int) = recvBufferSize ∨ (bs : Int) = sendBufferSize) (granularity size : UInt32)
    (k : ℕ) (hgranularity : granularity.toNat = 2 ^ k) :
    InRegion bs (allocateBufferSpace granularity.toNat bs size.toNat).1
        ((RegisteredBufferPool.initializePool bs true (some id) t size.toNat).mQueue.map
          Prod.snd) ↔
      bs * size.toNat ≤ 2 ^ 31 := by
  have hpos : 0 < bs := by
    simp only [recvBufferSize, sendBufferSize] at hbs
    omega
  rw [enqueued_eq]
  constructor
  · intro h
    apply Nat.le_of_not_lt
    intro hbig
    have hwrap : ∃ n, n * bs = 2 ^ 31 ∧ n < size.toNat := by
      simp only [recvBufferSize, sendBufferSize] at hbs
      rcases hbs with hrecv | hsend
      · obtain rfl : bs = 16384 := by exact_mod_cast hrecv
        exact ⟨131072, by decide, by omega⟩
      · obtain rfl : bs = 32768 := by exact_mod_cast hsend
        exact ⟨65536, by decide, by omega⟩
    obtain ⟨n, hn, hlt⟩ := hwrap
    obtain ⟨b, hb, hoff⟩ := slices_negative id hn hlt
    have hnonneg := (h.inside b hb).1
    omega
  · intro hfit
    exact slices_inRegion hpos id hgranularity granularity.toNat_lt hfit

/-- With 131073 receive buffers the last one starts 2 GiB before the region. -/
theorem initialize_outside : ¬ InRegion 16384 (allocateBufferSpace 65536 16384 131073).1
    ((RegisteredBufferPool.initializePool 16384 true (some 1) () 131073).mQueue.map Prod.snd) := by
  intro h
  rw [enqueued_eq] at h
  have hwrap : 131072 * 16384 = 2 ^ 31 := by decide
  obtain ⟨b, hb, hoff⟩ := slices_negative 1 hwrap (Nat.lt_succ_self 131072)
  have hnonneg := (h.inside b hb).1
  omega

theorem initialize_inRegion_thousand :
    InRegion 16384 (allocateBufferSpace 65536 16384 1000).1
        ((RegisteredBufferPool.initializePool 16384 true (some 1) () 1000).mQueue.map Prod.snd) ↔
      16384 * 1000 ≤ 2 ^ 31 :=
  initialize_inRegion_iff () 1 16384 (.inl rfl) 65536 1000 16 (by decide)

end ServerCore.Network
