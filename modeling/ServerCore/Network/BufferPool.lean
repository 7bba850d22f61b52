import ServerCore.Framework.Machine
import ServerCore.Network.RegisteredBufferPool

namespace ServerCore.Network

open Framework

/-- The pool after `Initialize`. A pointer is the number of its allocation, none is null; `live`
are the pointers that a `shared_ptr` owns. The counters do not wrap: the `int` of the loop in
`Initialize` counts fewer than `2 ^ 31` buffers. -/
structure PoolMem (T : Type) where
  mQueue : ConcurrentQueue T ℕ
  mAllocCount : Int
  mUseCount : Int
  buffer : ℕ → NetworkBuffer
  live : List ℕ

/-- Positions inside `RegisteredBufferPool::Acquire` and `Release`. -/
inductive PoolFrame where
  /-- `GetFreeCount` is next. -/
  | acquire
  /-- `mQueue.try_dequeue` is next. -/
  | dequeue
  /-- `mUseCount.fetch_add` is next. -/
  | fetchAdd (pNetBuff : ℕ)
  /-- The construction of the `shared_ptr` is next. -/
  | makeShared (pNetBuff : ℕ)
  /-- `Release` called by a deleter; `Reset` is next. -/
  | release (obj : ℕ)
  | enqueue (obj : ℕ)
  /-- `mUseCount.fetch_sub` is next. -/
  | fetchSub
  deriving DecidableEq

inductive PoolChoice (T : Type) where
  | go
  | callAcquire
  /-- The last `shared_ptr` to a buffer dies. -/
  | callRelease (obj : ℕ)
  /-- `try_dequeue` finds an element of a producer. -/
  | found (producer : T)
  /-- `try_dequeue` returns `false`. -/
  | missed
  /-- An owner moves the positions and writes the bytes. -/
  | use (ptr : ℕ) (mReadPos mWritePos : Int) (mBuffer : List UInt8)
  deriving DecidableEq

variable {T : Type}

namespace PoolMem

/-- The pool that `Initialize` leaves. -/
def ofPool (p : RegisteredBufferPool T) : PoolMem T where
  mQueue := p.mQueue.zipIdx.map fun e => (e.1.1, e.2)
  mAllocCount := p.mAllocCount
  mUseCount := p.mUseCount
  buffer k := ((p.mQueue[k]?).map Prod.snd).getD (.construct 0 0 [] 0)
  live := []

/-- `size_t` is unsigned. -/
def getFreeCount (s : PoolMem T) : Int := (s.mAllocCount - s.mUseCount) % 2 ^ 64

end PoolMem

variable [DecidableEq T]

def poolStep (s : PoolMem T) (t : T) :
    PoolFrame → PoolChoice T → Option (PoolMem T × List PoolFrame)
  | .acquire, .go => some (s, if s.getFreeCount ≤ 0 then [] else [.dequeue])
  | .dequeue, .found producer => (ConcurrentQueue.takeFrom producer s.mQueue).map fun r =>
      ({ s with mQueue := r.2 }, [.fetchAdd r.1])
  | .dequeue, .missed => some (s, [.dequeue])
  | .fetchAdd b, .go => some ({ s with mUseCount := s.mUseCount + 1 }, [.makeShared b])
  | .makeShared b, .go => some ({ s with live := b :: s.live }, [])
  | .release b, .go =>
      some ({ s with buffer := Function.update s.buffer b (s.buffer b).reset }, [.enqueue b])
  | .enqueue b, .go =>
      some ({ s with mQueue := ConcurrentQueue.enqueue s.mQueue t b }, [.fetchSub])
  | .fetchSub, .go => some ({ s with mUseCount := s.mUseCount - 1 }, [])
  | _, _ => none

def poolEnter (s : PoolMem T) (frames : T → List PoolFrame) (t : T) :
    PoolChoice T → Option (PoolMem T × PoolFrame)
  | .callAcquire => if (frames t).isEmpty then some (s, .acquire) else none
  | .callRelease b =>
      if (frames t).isEmpty ∧ b ∈ s.live then some ({ s with live := s.live.erase b }, .release b)
      else none
  | _ => none

def poolEnv (s : PoolMem T) : PoolChoice T → Option (PoolMem T)
  | .use b mReadPos mWritePos mBuffer =>
      if b ∈ s.live then
        some { s with
          buffer := Function.update s.buffer b
            { s.buffer b with mReadPos := mReadPos, mWritePos := mWritePos, mBuffer := mBuffer } }
      else none
  | _ => none

/-- Any number of threads over one pool. -/
def poolMachine : Machine T (PoolMem T) PoolFrame (PoolChoice T) :=
  ⟨poolEnter, poolStep, poolEnv⟩

abbrev PoolConf (T : Type) : Type := Conf T (PoolMem T) PoolFrame

/-- After `Initialize`, outside `Acquire` and `Release`. -/
def poolStart (p : RegisteredBufferPool T) : PoolConf T := ⟨.ofPool p, fun _ => []⟩

section Cases

/-- All that one step inside `Acquire` or `Release` can do. -/
theorem poolStep_cases {s s' : PoolMem T} {t : T} {f : PoolFrame} {c : PoolChoice T}
    {new : List PoolFrame} (h : poolStep s t f c = some (s', new)) :
    (f = .acquire ∧ c = .go ∧ s' = s ∧ (new = [] ∨ new = [.dequeue] ∧ 0 < s.getFreeCount)) ∨
    (∃ p b q, f = .dequeue ∧ ConcurrentQueue.takeFrom p s.mQueue = some (b, q) ∧
      s' = { s with mQueue := q } ∧ new = [.fetchAdd b]) ∨
    (f = .dequeue ∧ s' = s ∧ new = [.dequeue]) ∨
    (∃ b, f = .fetchAdd b ∧ s' = { s with mUseCount := s.mUseCount + 1 } ∧
      new = [.makeShared b]) ∨
    (∃ b, f = .makeShared b ∧ s' = { s with live := b :: s.live } ∧ new = []) ∨
    (∃ b, f = .release b ∧ new = [.enqueue b] ∧
      s' = { s with buffer := Function.update s.buffer b (s.buffer b).reset }) ∨
    (∃ b, f = .enqueue b ∧ new = [.fetchSub] ∧
      s' = { s with mQueue := ConcurrentQueue.enqueue s.mQueue t b }) ∨
    (f = .fetchSub ∧ s' = { s with mUseCount := s.mUseCount - 1 } ∧ new = []) := by
  unfold poolStep at h
  split at h
  · obtain ⟨rfl, rfl⟩ := Prod.mk.inj (Option.some.inj h)
    refine .inl ⟨rfl, rfl, rfl, ?_⟩
    split
    · exact .inl rfl
    · next hfree => exact .inr ⟨rfl, not_le.mp hfree⟩
  · next p =>
    obtain ⟨⟨b, q⟩, htake, heq⟩ := Option.map_eq_some_iff.mp h
    obtain ⟨rfl, rfl⟩ := Prod.mk.inj heq
    exact .inr (.inl ⟨p, b, q, rfl, htake, rfl, rfl⟩)
  · obtain ⟨rfl, rfl⟩ := Prod.mk.inj (Option.some.inj h)
    exact .inr (.inr (.inl ⟨rfl, rfl, rfl⟩))
  · next b =>
    obtain ⟨rfl, rfl⟩ := Prod.mk.inj (Option.some.inj h)
    exact .inr (.inr (.inr (.inl ⟨b, rfl, rfl, rfl⟩)))
  · next b =>
    obtain ⟨rfl, rfl⟩ := Prod.mk.inj (Option.some.inj h)
    exact .inr (.inr (.inr (.inr (.inl ⟨b, rfl, rfl, rfl⟩))))
  · next b =>
    obtain ⟨rfl, rfl⟩ := Prod.mk.inj (Option.some.inj h)
    exact .inr (.inr (.inr (.inr (.inr (.inl ⟨b, rfl, rfl, rfl⟩)))))
  · next b =>
    obtain ⟨rfl, rfl⟩ := Prod.mk.inj (Option.some.inj h)
    exact .inr (.inr (.inr (.inr (.inr (.inr (.inl ⟨b, rfl, rfl, rfl⟩))))))
  · obtain ⟨rfl, rfl⟩ := Prod.mk.inj (Option.some.inj h)
    exact .inr (.inr (.inr (.inr (.inr (.inr (.inr ⟨rfl, rfl, rfl⟩))))))
  · exact absurd h.symm (Option.some_ne_none _)

omit [DecidableEq T] in
theorem poolEnter_cases {s : PoolMem T} {frames : T → List PoolFrame} {t : T} {c : PoolChoice T}
    {r : PoolMem T × PoolFrame} (h : poolEnter s frames t c = some r) :
    r = (s, .acquire) ∨
      ∃ b ∈ s.live, r = ({ s with live := s.live.erase b }, .release b) := by
  unfold poolEnter at h
  split at h
  · split at h
    · exact .inl (Option.some.inj h).symm
    · exact absurd h.symm (Option.some_ne_none _)
  · next b =>
    split at h
    · next hlive => exact .inr ⟨b, hlive.2, (Option.some.inj h).symm⟩
    · exact absurd h.symm (Option.some_ne_none _)
  · exact absurd h.symm (Option.some_ne_none _)

omit [DecidableEq T] in
theorem poolEnv_cases {s s' : PoolMem T} {c : PoolChoice T} (h : poolEnv s c = some s') :
    ∃ b ∈ s.live, ∃ x, s' = { s with buffer := Function.update s.buffer b x } := by
  unfold poolEnv at h
  split at h
  · next b _ _ _ =>
    split at h
    · next hlive => exact ⟨b, hlive, _, (Option.some.inj h).symm⟩
    · exact absurd h.symm (Option.some_ne_none _)
  · exact absurd h.symm (Option.some_ne_none _)

end Cases

namespace PoolFrame

/-- The weight of the pointer that a thread at this position holds. -/
def held (v : ℕ → ℕ) : PoolFrame → ℕ
  | .fetchAdd b | .makeShared b | .release b | .enqueue b => v b
  | .acquire | .dequeue | .fetchSub => 0

/-- Whether `mUseCount` counts the thread at this position. -/
def counted : PoolFrame → ℕ
  | .makeShared _ | .release _ | .enqueue _ | .fetchSub => 1
  | .acquire | .dequeue | .fetchAdd _ => 0

/-- The thread is about to reset `b`. -/
def releasing (b : ℕ) : PoolFrame → ℕ
  | .release obj => if obj = b then 1 else 0
  | _ => 0

end PoolFrame

section Conservation

variable [Fintype T]

/-- All pointers of the pool, each counted with its weight wherever it is. -/
def poolSum (v : ℕ → ℕ) (s : PoolConf T) : ℕ :=
  (s.mem.mQueue.map fun e => v e.2).sum + weight (PoolFrame.held v) s.frames +
    (s.mem.live.map v).sum

variable {s s' : PoolConf T} {a : Action T (PoolChoice T)}

/-- No step makes or loses a pointer. -/
theorem poolSum_next (v : ℕ → ℕ) (h : poolMachine.next s a = some s') :
    poolSum v s' = poolSum v s := by
  rcases Machine.next_cases h with ⟨t, c, mem, f, _, he, rfl⟩ |
    ⟨t, c, f, fs, mem, new, _, hs, he, rfl⟩ | ⟨c, mem, _, he, rfl⟩
  · have hw := weight_enter (PoolFrame.held v) s.frames t f
    rcases poolEnter_cases he with heq | ⟨b, hb, heq⟩
    · obtain ⟨rfl, rfl⟩ := Prod.mk.inj heq
      simp only [PoolFrame.held] at hw
      simp only [poolSum]
      omega
    · obtain ⟨rfl, rfl⟩ := Prod.mk.inj heq
      have herase := List.sum_map_erase v hb
      simp only [PoolFrame.held] at hw
      simp only [poolSum]
      omega
  · have hw := weight_step (PoolFrame.held v) hs new
    rcases poolStep_cases he with ⟨rfl, _, rfl, rfl | ⟨rfl, _⟩⟩ | ⟨p, b, q, rfl, htake, rfl, rfl⟩ |
      ⟨rfl, rfl, rfl⟩ | ⟨b, rfl, rfl, rfl⟩ | ⟨b, rfl, rfl, rfl⟩ | ⟨b, rfl, rfl, rfl⟩ |
      ⟨b, rfl, rfl, rfl⟩ | ⟨rfl, rfl, rfl⟩
    all_goals simp only [PoolFrame.held, stackWeight_cons, stackWeight_nil] at hw
    all_goals simp only [poolSum]
    · omega
    · omega
    · have hperm := ((ConcurrentQueue.takeFrom_spec htake).1.map fun e => v e.2).sum_eq
      simp only [List.map_cons, List.sum_cons] at hperm
      omega
    · omega
    · omega
    · rw [List.map_cons, List.sum_cons]
      omega
    · omega
    · simp only [ConcurrentQueue.enqueue, List.map_append, List.sum_append, List.map_singleton,
        List.sum_singleton]
      omega
    · omega
  · obtain ⟨b, _, x, rfl⟩ := poolEnv_cases he
    rfl

/-- `mUseCount` counts the live buffers and those that threads are about to hand out or have not
yet counted as returned. -/
def Used (s : PoolConf T) : Prop :=
  s.mem.mUseCount = s.mem.live.length + (weight PoolFrame.counted s.frames : ℕ)

theorem Used.next (hu : Used s) (h : poolMachine.next s a = some s') : Used s' := by
  rw [Used] at hu ⊢
  rcases Machine.next_cases h with ⟨t, c, mem, f, _, he, rfl⟩ |
    ⟨t, c, f, fs, mem, new, _, hs, he, rfl⟩ | ⟨c, mem, _, he, rfl⟩
  · have hw := weight_enter PoolFrame.counted s.frames t f
    rcases poolEnter_cases he with heq | ⟨b, hb, heq⟩
    · obtain ⟨rfl, rfl⟩ := Prod.mk.inj heq
      simp only [PoolFrame.counted] at hw ⊢
      omega
    · obtain ⟨rfl, rfl⟩ := Prod.mk.inj heq
      have herase := List.length_erase_add_one hb
      simp only [PoolFrame.counted] at hw ⊢
      omega
  · have hw := weight_step PoolFrame.counted hs new
    rcases poolStep_cases he with ⟨rfl, _, rfl, rfl | ⟨rfl, _⟩⟩ | ⟨p, b, q, rfl, htake, rfl, rfl⟩ |
      ⟨rfl, rfl, rfl⟩ | ⟨b, rfl, rfl, rfl⟩ | ⟨b, rfl, rfl, rfl⟩ | ⟨b, rfl, rfl, rfl⟩ |
      ⟨b, rfl, rfl, rfl⟩ | ⟨rfl, rfl, rfl⟩
    all_goals simp only [PoolFrame.counted, stackWeight_cons, stackWeight_nil] at hw
    all_goals simp only [List.length_cons]
    all_goals omega
  · obtain ⟨b, _, x, rfl⟩ := poolEnv_cases he
    exact hu

omit [Fintype T] in
/-- `mAllocCount` stays as `Initialize` left it. -/
theorem mAllocCount_next (h : poolMachine.next s a = some s') :
    s'.mem.mAllocCount = s.mem.mAllocCount := by
  rcases Machine.next_cases h with ⟨t, c, mem, f, _, he, rfl⟩ |
    ⟨t, c, f, fs, mem, new, _, hs, he, rfl⟩ | ⟨c, mem, _, he, rfl⟩
  · rcases poolEnter_cases he with heq | ⟨b, hb, heq⟩
    · obtain ⟨rfl, rfl⟩ := Prod.mk.inj heq
      rfl
    · obtain ⟨rfl, rfl⟩ := Prod.mk.inj heq
      rfl
  · rcases poolStep_cases he with ⟨_, _, rfl, _⟩ | ⟨_, _, _, _, _, rfl, _⟩ | ⟨_, rfl, _⟩ |
      ⟨_, _, rfl, _⟩ | ⟨_, _, rfl, _⟩ | ⟨_, _, _, rfl⟩ | ⟨_, _, _, rfl⟩ | ⟨_, rfl, _⟩ <;> rfl
  · obtain ⟨b, _, x, rfl⟩ := poolEnv_cases he
    rfl

/-- A buffer that is neither live nor on its way back has its positions at 0. -/
def Clean (s : PoolConf T) : Prop := ∀ b, b ∈ s.mem.live ∨
  0 < weight (PoolFrame.releasing b) s.frames ∨
  (s.mem.buffer b).mReadPos = 0 ∧ (s.mem.buffer b).mWritePos = 0

theorem Clean.next (hc : Clean s) (h : poolMachine.next s a = some s') : Clean s' := by
  intro k
  rcases Machine.next_cases h with ⟨t, c, mem, f, _, he, rfl⟩ |
    ⟨t, c, f, fs, mem, new, _, hs, he, rfl⟩ | ⟨c, mem, _, he, rfl⟩
  · have hw := weight_enter (PoolFrame.releasing k) s.frames t f
    rcases poolEnter_cases he with heq | ⟨b, hb, heq⟩
    · obtain ⟨rfl, rfl⟩ := Prod.mk.inj heq
      simp only [PoolFrame.releasing] at hw
      rw [hw]
      exact hc k
    · obtain ⟨rfl, rfl⟩ := Prod.mk.inj heq
      simp only [PoolFrame.releasing] at hw
      rw [hw]
      by_cases hk : b = k
      · rw [if_pos hk]
        exact .inr (.inl (by omega))
      · rw [if_neg hk, Nat.add_zero]
        exact (hc k).imp_left (List.mem_erase_of_ne (Ne.symm hk)).mpr
  · have hw := weight_step (PoolFrame.releasing k) hs new
    rcases poolStep_cases he with ⟨rfl, _, rfl, rfl | ⟨rfl, _⟩⟩ | ⟨p, b, q, rfl, htake, rfl, rfl⟩ |
      ⟨rfl, rfl, rfl⟩ | ⟨b, rfl, rfl, rfl⟩ | ⟨b, rfl, rfl, rfl⟩ | ⟨b, rfl, rfl, rfl⟩ |
      ⟨b, rfl, rfl, rfl⟩ | ⟨rfl, rfl, rfl⟩
    all_goals simp only [PoolFrame.releasing, stackWeight_cons, stackWeight_nil, Nat.add_zero] at hw
    · rw [hw]
      exact hc k
    · rw [hw]
      exact hc k
    · rw [hw]
      exact hc k
    · rw [hw]
      exact hc k
    · rw [hw]
      exact hc k
    · rw [hw]
      exact (hc k).imp_left (List.mem_cons_of_mem b)
    · -- `Reset` runs while the thread still holds the buffer
      by_cases hk : b = k
      · subst hk
        refine .inr (.inr ?_)
        simp only [Function.update_self]
        exact ⟨rfl, rfl⟩
      · rw [if_neg hk, Nat.add_zero] at hw
        rw [hw]
        simp only [Function.update_of_ne (Ne.symm hk)]
        exact hc k
    · rw [hw]
      exact hc k
    · rw [hw]
      exact hc k
  · obtain ⟨b, hb, x, rfl⟩ := poolEnv_cases he
    by_cases hk : k = b
    · subst hk
      exact .inl hb
    · simp only [Function.update_of_ne hk]
      exact hc k

end Conservation

section PoolConserved

variable [Fintype T] {p : RegisteredBufferPool T} {s : PoolConf T}

/-- In how many places the pointer `b` is. -/
def places (b : ℕ) (s : PoolConf T) : ℕ :=
  (s.mem.mQueue.map Prod.snd).count b + weight (PoolFrame.held fun x => if x = b then 1 else 0)
    s.frames + s.mem.live.count b

theorem sum_indicator (b : ℕ) (l : List ℕ) :
    (l.map fun x => if x = b then 1 else 0).sum = l.count b := by
  induction l with
  | nil => rfl
  | cons x l ih =>
    rw [List.map_cons, List.sum_cons, ih, List.count_cons]
    by_cases hx : x = b <;> simp [hx, Nat.add_comm]

omit [DecidableEq T] in
theorem places_eq (b : ℕ) (s : PoolConf T) :
    poolSum (fun x => if x = b then 1 else 0) s = places b s := by
  have hqueue := sum_indicator b (s.mem.mQueue.map Prod.snd)
  rw [List.map_map] at hqueue
  rw [places, ← hqueue, ← sum_indicator b s.mem.live]
  rfl

omit [DecidableEq T] in
/-- At the start all pointers are in the queue. -/
theorem poolSum_start (v : ℕ → ℕ) :
    poolSum v (poolStart p) = ((List.range p.mQueue.length).map v).sum := by
  have hqueue : (p.mQueue.zipIdx.map fun e => v e.2) = (List.range p.mQueue.length).map v := by
    rw [List.range_eq_range', ← List.zipIdx_map_snd 0 p.mQueue, List.map_map]
    rfl
  simp only [poolSum, poolStart, PoolMem.ofPool, List.map_map, Function.comp_def, weight_idle,
    List.map_nil, List.sum_nil, Nat.add_zero]
  exact congrArg List.sum hqueue

variable {ok : PoolConf T → Action T (PoolChoice T) → Prop}

theorem poolSum_reach (v : ℕ → ℕ) (h : poolMachine.Reach ok (poolStart p) s) :
    poolSum v s = ((List.range p.mQueue.length).map v).sum := by
  refine h.invariant (fun s => poolSum v s = _) (poolSum_start v) ?_
  intro s a s' _ ih _ hstep
  rw [poolSum_next v hstep, ih]

theorem used_reach (hp : p.mUseCount = 0) (h : poolMachine.Reach ok (poolStart p) s) : Used s := by
  refine h.invariant Used ?_ fun s a s' _ ih _ hstep => ih.next hstep
  simpa [Used, poolStart, PoolMem.ofPool] using hp

theorem clean_reach (hp : ∀ e ∈ p.mQueue, e.2.mReadPos = 0 ∧ e.2.mWritePos = 0)
    (h : poolMachine.Reach ok (poolStart p) s) : Clean s := by
  refine h.invariant Clean ?_ fun s a s' _ ih _ hstep => ih.next hstep
  intro b
  refine .inr (.inr ?_)
  simp only [poolStart, PoolMem.ofPool]
  cases hb : p.mQueue[b]? with
  | none => exact ⟨rfl, rfl⟩
  | some e => exact hp e (List.mem_of_getElem? hb)

omit [DecidableEq T] in
/-- What a thread is about to hand out is not live and not on its way back. -/
theorem makeShared_alone {t : T} {b : ℕ} (hb : .makeShared b ∈ s.frames t)
    (hone : places b s ≤ 1) : b ∉ s.mem.live ∧ weight (PoolFrame.releasing b) s.frames = 0 := by
  have hframes (f : PoolFrame) : (if f = .makeShared b then 1 else 0) + f.releasing b ≤
      f.held fun x => if x = b then 1 else 0 := by
    cases f <;> simp [PoolFrame.releasing, PoolFrame.held]
  have hmono := weight_mono hframes s.frames
  rw [weight_add] at hmono
  have hframe := le_stackWeight (fun f => if f = PoolFrame.makeShared b then 1 else 0) hb
  have hstack := le_weight (fun f => if f = PoolFrame.makeShared b then 1 else 0) s.frames t
  rw [places] at hone
  rw [if_pos rfl] at hframe
  refine ⟨?_, by omega⟩
  intro hlive
  have hcount := List.count_pos_iff.mpr hlive
  omega

/-- Each of `n` slices is in one place. What leaves `Acquire` is reset, and when no thread is
inside, `mUseCount` is the number of live buffers. -/
structure PoolConserved (n : ℕ) (s : PoolConf T) : Prop where
  slices : ∀ b, places b s = if b < n then 1 else 0
  reset : ∀ t b, .makeShared b ∈ s.frames t →
    (s.mem.buffer b).mReadPos = 0 ∧ (s.mem.buffer b).mWritePos = 0
  idle : (∀ t, s.frames t = []) → s.mem.mUseCount = s.mem.live.length

omit [DecidableEq T] [Fintype T] in
/-- `Initialize` has counted nothing as used, and its buffers are fresh. -/
theorem initializePool_fresh (bs : ℕ) (allocated : Bool) (registered : Option ℕ) (t : T)
    (size : ℕ) :
    (RegisteredBufferPool.initializePool bs allocated registered t size).mUseCount = 0 ∧
      ∀ e ∈ (RegisteredBufferPool.initializePool bs allocated registered t size).mQueue,
        e.2.mReadPos = 0 ∧ e.2.mWritePos = 0 := by
  unfold RegisteredBufferPool.initializePool
  split
  · exact ⟨rfl, fun e he => absurd he List.not_mem_nil⟩
  · split
    · exact ⟨rfl, fun e he => absurd he List.not_mem_nil⟩
    · next id =>
      refine ⟨rfl, ?_⟩
      intro e he
      obtain ⟨b, hb, rfl⟩ := List.mem_map.mp he
      exact (RegisteredBufferPool.slices_valid bs id size b hb).2

/-- The pool is conserved by any number of threads in any interleaving. -/
theorem acquire_release_conserved (bs : ℕ) (allocated : Bool) (registered : Option ℕ) (t : T)
    (size : UInt32) (s : PoolConf T)
    (h : poolMachine.Reach (fun _ _ => True)
      (poolStart (.initializePool bs allocated registered t size.toNat)) s) :
    PoolConserved (RegisteredBufferPool.initializePool bs allocated registered t
      size.toNat).mQueue.length s := by
  obtain ⟨huse, hfresh⟩ := initializePool_fresh bs allocated registered t size.toNat
  generalize RegisteredBufferPool.initializePool bs allocated registered t size.toNat = p at *
  have hslices : ∀ b, places b s = if b < p.mQueue.length then 1 else 0 := by
    intro b
    rw [← places_eq, poolSum_reach _ h, sum_indicator, List.count_range]
  refine ⟨hslices, ?_, ?_⟩
  · intro u b hb
    obtain ⟨hlive, hreleasing⟩ := makeShared_alone hb (by rw [hslices b]; split <;> omega)
    rcases clean_reach hfresh h b with hmem | hpos | hzero
    · exact absurd hmem hlive
    · omega
    · exact hzero
  · intro hidle
    have hused := used_reach huse h
    have hnone : weight PoolFrame.counted s.frames = 0 := by
      rw [weight_eq_zero]
      intro u f hf
      rw [hidle u] at hf
      exact absurd hf List.not_mem_nil
    rw [Used, hnone] at hused
    simpa using hused

/-- One thread takes the only buffer. -/
theorem acquire_release_conserved_one : PoolConserved 1
    (poolMachine.final (poolStart (.initializePool 16384 true (some 1) false 1))
      [.enter false .callAcquire, .step false .go, .step false (.found false), .step false .go,
        .step false .go] (by decide)) :=
  acquire_release_conserved 16384 true (some 1) false 1 _ (Machine.reach_final _ _ _ _)

end PoolConserved

namespace PoolFrame

/-- The thread has passed the check and has not dequeued. -/
def spinning : PoolFrame → ℕ
  | .dequeue => 1
  | _ => 0

/-- The thread has passed the check and is not counted in `mUseCount`. -/
def passed : PoolFrame → ℕ
  | .dequeue | .fetchAdd _ => 1
  | _ => 0

/-- The thread has enqueued its buffer, which `mUseCount` still counts. -/
def returned : PoolFrame → ℕ
  | .fetchSub => 1
  | _ => 0

end PoolFrame

section Backed

variable [Fintype T] {p : RegisteredBufferPool T} {s s' : PoolConf T}

/-- A thread passes the check only while the buffers in use and the threads that have passed it
before are fewer than all buffers. -/
def InTime (s : PoolConf T) (a : Action T (PoolChoice T)) : Prop :=
  ∀ t, a = .step t .go → (s.frames t).head? = some .acquire → 0 < s.mem.getFreeCount →
    s.mem.mUseCount + (weight PoolFrame.passed s.frames : ℕ) < s.mem.mAllocCount

instance (s : PoolConf T) (a : Action T (PoolChoice T)) : Decidable (InTime s a) :=
  inferInstanceAs (Decidable (∀ _, _ → _ → _ → _))

/-- For every thread that spins, and every buffer returned but still counted, the queue has one. -/
def Backed (s : PoolConf T) : Prop :=
  weight PoolFrame.spinning s.frames + weight PoolFrame.returned s.frames ≤ s.mem.mQueue.length

omit [DecidableEq T] [Fintype T] in
theorem initializePool_mAllocCount (bs : ℕ) (allocated : Bool) (registered : Option ℕ) (t : T)
    (size : ℕ) :
    (RegisteredBufferPool.initializePool bs allocated registered t size).mAllocCount =
        (RegisteredBufferPool.initializePool bs allocated registered t size).mQueue.length ∧
      (RegisteredBufferPool.initializePool bs allocated registered t size).mQueue.length ≤
        size := by
  unfold RegisteredBufferPool.initializePool
  split
  · exact ⟨rfl, Nat.zero_le _⟩
  · split
    · exact ⟨rfl, Nat.zero_le _⟩
    · simp [RegisteredBufferPool.slices]

omit [DecidableEq T] in
/-- What is in use, on its way out or waited for, against what is not in the queue. -/
theorem passed_counted (frames : T → List PoolFrame) :
    weight PoolFrame.passed frames + weight PoolFrame.counted frames =
      weight PoolFrame.spinning frames + weight (PoolFrame.held fun _ => 1) frames +
        weight PoolFrame.returned frames := by
  rw [← weight_add, ← weight_add, ← weight_add]
  congr 1
  funext f
  cases f <;> rfl

/-- The number of buffers, wherever they are. -/
theorem buffers_eq {ok : PoolConf T → Action T (PoolChoice T) → Prop}
    (h : poolMachine.Reach ok (poolStart p) s) :
    s.mem.mQueue.length + weight (PoolFrame.held fun _ => 1) s.frames + s.mem.live.length =
      p.mQueue.length := by
  have hsum := poolSum_reach (fun _ => 1) h
  simpa [poolSum] using hsum

omit [Fintype T] in
theorem mAllocCount_reach {ok : PoolConf T → Action T (PoolChoice T) → Prop}
    (h : poolMachine.Reach ok (poolStart p) s) : s.mem.mAllocCount = p.mAllocCount := by
  refine h.invariant (fun s => s.mem.mAllocCount = p.mAllocCount) rfl ?_
  intro s a s' _ ih _ hstep
  rw [mAllocCount_next hstep, ih]

/-- A check in time finds a buffer that no other thread is after. -/
theorem backed_check {ok : PoolConf T → Action T (PoolChoice T) → Prop} (huse : p.mUseCount = 0)
    (halloc : p.mAllocCount = p.mQueue.length) (h : poolMachine.Reach ok (poolStart p) s)
    (hcheck : s.mem.mUseCount + (weight PoolFrame.passed s.frames : ℕ) < s.mem.mAllocCount) :
    weight PoolFrame.spinning s.frames + weight PoolFrame.returned s.frames <
      s.mem.mQueue.length := by
  have hsum := buffers_eq h
  have hused := used_reach huse h
  have hall := mAllocCount_reach h
  have hparts := passed_counted s.frames
  rw [Used] at hused
  omega

theorem Backed.next {a : Action T (PoolChoice T)} (hb : Backed s)
    (hcheck : ∀ t, a = .step t .go → (s.frames t).head? = some .acquire →
      0 < s.mem.getFreeCount → weight PoolFrame.spinning s.frames +
        weight PoolFrame.returned s.frames < s.mem.mQueue.length)
    (h : poolMachine.next s a = some s') : Backed s' := by
  rw [Backed] at hb ⊢
  rcases Machine.next_cases h with ⟨t, c, mem, f, _, he, rfl⟩ |
    ⟨t, c, f, fs, mem, new, rfl, hs, he, rfl⟩ | ⟨c, mem, _, he, rfl⟩
  · have hw := weight_enter PoolFrame.spinning s.frames t f
    have hr := weight_enter PoolFrame.returned s.frames t f
    rcases poolEnter_cases he with heq | ⟨b, _, heq⟩
    · obtain ⟨rfl, rfl⟩ := Prod.mk.inj heq
      simp only [PoolFrame.spinning, PoolFrame.returned] at hw hr ⊢
      omega
    · obtain ⟨rfl, rfl⟩ := Prod.mk.inj heq
      simp only [PoolFrame.spinning, PoolFrame.returned] at hw hr ⊢
      omega
  · have hw := weight_step PoolFrame.spinning hs new
    have hr := weight_step PoolFrame.returned hs new
    rcases poolStep_cases he with ⟨rfl, rfl, rfl, rfl | ⟨rfl, hfree⟩⟩ |
      ⟨p, b, q, rfl, htake, rfl, rfl⟩ | ⟨rfl, rfl, rfl⟩ | ⟨b, rfl, rfl, rfl⟩ | ⟨b, rfl, rfl, rfl⟩ |
      ⟨b, rfl, rfl, rfl⟩ | ⟨b, rfl, rfl, rfl⟩ | ⟨rfl, rfl, rfl⟩
    all_goals simp only [PoolFrame.spinning, PoolFrame.returned, stackWeight_cons,
      stackWeight_nil] at hw hr
    · simp only
      omega
    · have hlt := hcheck t rfl (by rw [hs]; rfl) hfree
      simp only
      omega
    · have hperm := (ConcurrentQueue.takeFrom_spec htake).1.length_eq
      rw [List.length_cons] at hperm
      simp only
      omega
    · simp only
      omega
    · simp only
      omega
    · simp only
      omega
    · simp only
      omega
    · simp only [ConcurrentQueue.enqueue, List.length_append, List.length_singleton]
      omega
    · simp only
      omega
  · obtain ⟨b, _, x, rfl⟩ := poolEnv_cases he
    exact hb

theorem backed_reach (huse : p.mUseCount = 0) (halloc : p.mAllocCount = p.mQueue.length)
    (h : poolMachine.Reach InTime (poolStart p) s) : Backed s := by
  refine h.invariant Backed ?_ ?_
  · simp [Backed, poolStart]
  · intro s a s' hreach hb hok hstep
    refine hb.next ?_ hstep
    intro t ha hacquire hfree
    exact backed_check huse halloc hreach (hok t ha hacquire hfree)

/-- In a run whose checks are all in time, every spinning thread has a buffer in the queue for it,
and `GetFreeCount` does not wrap. -/
theorem acquire_backed (bs : ℕ) (allocated : Bool) (registered : Option ℕ) (t : T)
    (size : UInt32) (s : PoolConf T)
    (h : poolMachine.Reach InTime
      (poolStart (.initializePool bs allocated registered t size.toNat)) s) :
    weight PoolFrame.spinning s.frames ≤ s.mem.mQueue.length ∧
      s.mem.mUseCount ≤ s.mem.mAllocCount ∧
      s.mem.getFreeCount = s.mem.mAllocCount - s.mem.mUseCount := by
  obtain ⟨huse, _⟩ := initializePool_fresh bs allocated registered t size.toNat
  obtain ⟨halloc, hsize⟩ := initializePool_mAllocCount bs allocated registered t size.toNat
  have hdword := size.toNat_lt
  generalize RegisteredBufferPool.initializePool bs allocated registered t size.toNat = p at *
  have hbacked := backed_reach huse halloc h
  have hsum := buffers_eq h
  have hused := used_reach huse h
  have hall := mAllocCount_reach h
  have hparts := passed_counted s.frames
  rw [Backed] at hbacked
  rw [Used] at hused
  have hle : s.mem.mUseCount ≤ s.mem.mAllocCount := by omega
  refine ⟨by omega, hle, ?_⟩
  rw [PoolMem.getFreeCount, Int.emod_eq_of_lt (by omega) (by omega)]

/-- One thread checks, dequeues and returns the only buffer. -/
theorem acquire_backed_one :
    let s := poolMachine.finalChecked (fun s a => decide (InTime s a))
      (poolStart (.initializePool 16384 true (some 1) false 1))
      [.enter false .callAcquire, .step false .go, .step false (.found false), .step false .go,
        .step false .go, .enter true (.callRelease 0), .step true .go, .step true .go] (by decide)
    weight PoolFrame.spinning s.frames ≤ s.mem.mQueue.length ∧
      s.mem.mUseCount ≤ s.mem.mAllocCount ∧
      s.mem.getFreeCount = s.mem.mAllocCount - s.mem.mUseCount :=
  acquire_backed 16384 true (some 1) false 1 _
    ((Machine.reach_finalChecked _ _ _ _ _).mono fun _ _ => of_decide_eq_true)

/-- Two threads pass the check for the only buffer. One takes it, and the other spins on an empty
queue. When the buffer comes back, the other counts it before the first has uncounted it. -/
theorem acquire_overtaken :
    (∃ s : PoolConf Bool, poolMachine.Reach (fun _ _ => True)
        (poolStart (.initializePool 16384 true (some 1) false 1)) s ∧
      ¬ weight PoolFrame.spinning s.frames ≤ s.mem.mQueue.length) ∧
    ∃ s : PoolConf Bool, poolMachine.Reach (fun _ _ => True)
        (poolStart (.initializePool 16384 true (some 1) false 1)) s ∧
      ¬ s.mem.mUseCount ≤ s.mem.mAllocCount ∧ s.mem.getFreeCount = 2 ^ 64 - 1 := by
  constructor
  · refine ⟨_, poolMachine.reach_final _ [.enter false .callAcquire, .enter true .callAcquire,
      .step false .go, .step true .go, .step false (.found false)] (by decide), ?_⟩
    decide
  · refine ⟨_, poolMachine.reach_final _ [.enter false .callAcquire, .enter true .callAcquire,
      .step false .go, .step true .go, .step false (.found false), .step false .go,
      .step false .go, .enter false (.callRelease 0), .step false .go, .step false .go,
      .step true (.found false), .step true .go] (by decide), ?_⟩
    decide

end Backed

end ServerCore.Network
