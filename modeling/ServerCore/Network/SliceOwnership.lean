import ServerCore.Network.SessionInvariant

namespace ServerCore.Network

open Framework

variable {T S : Type} [DecidableEq T] [DecidableEq S]

/-- A property that no operation on a buffer brings about. -/
structure Stable (Q : NetworkBuffer → Prop) : Prop where
  reset : ∀ b, Q b.reset → Q b
  append : ∀ b (packet : Packet), packet.writeSize ≤ b.freeSize → Q (b.append packet.buffer) → Q b
  arrive : ∀ b (n : ℕ), Q (b.onWrite n).1 → Q b
  consume : ∀ b n, 0 ≤ n → Q (b.onRead n).1.clean → Q b

/-- The buffer of a pool that a frame hands over. -/
def Frame.carried (pool : Pool) : Frame T → Option NetworkBuffer
  | .connect (.useCount p b) | .destroy (.reset p b) | .destroy (.enqueue p b) =>
      if p = pool then some b else none
  | .connect (.assign p b) => if p = pool then b else none
  | _ => none

omit [DecidableEq T] in
@[simp] theorem carried_afterAssign (pool p : Pool) (b : Option NetworkBuffer) :
    (Frame.connect (afterAssign p b) : Frame T).carried pool = none := by
  cases p <;> cases b <;> rfl

section Holding

variable (Q : NetworkBuffer → Prop) [DecidablePred Q] (pool : Pool)

def tally : Option NetworkBuffer → ℕ
  | none => 0
  | some b => if Q b then 1 else 0

/-- The buffers with property `Q` that a session and its frames own. -/
def holding : Potential T S := ⟨fun s => tally Q (s.buffer pool), fun f => tally Q (f.carried pool)⟩

/-- The buffers with property `Q` in the free queue. -/
def free (σ : System T S) : ℕ := (σ.pool pool).mQueue.countP fun e => Q e.2

@[simp] theorem tally_none : tally Q none = 0 := rfl

@[simp] theorem tally_some (b : NetworkBuffer) : tally Q (some b) = if Q b then 1 else 0 := rfl

variable {Q pool}

theorem tally_mono {b b' : NetworkBuffer} (h : Q b' → Q b) :
    tally Q (some b') ≤ tally Q (some b) := by
  by_cases hb : Q b'
  · simp [hb, h hb]
  · simp [hb]

omit [DecidableEq T] in
theorem stackWeight_release (p : Pool) (b : Option NetworkBuffer) :
    stackWeight (fun f : Frame T => tally Q (f.carried pool)) (releaseFrames p b) =
      if p = pool then tally Q b else 0 := by
  cases b <;> by_cases hp : p = pool <;> simp [releaseFrames, Frame.carried, hp]

omit [DecidableEq T] in
@[simp] theorem free_set (σ : System T S) (this : S) (s : Session T S) :
    free Q pool (σ.set this s) = free Q pool σ := by
  simp [free]

omit [DecidableEq T] [DecidableEq S] in
theorem free_setPool (σ : System T S) (p : Pool) (q : RegisteredBufferPool T) :
    free Q pool (σ.setPool p q) =
      if p = pool then q.mQueue.countP (fun e => Q e.2) else free Q pool σ := by
  by_cases hp : p = pool
  · subst hp
    simp [free]
  · simp [free, hp, Ne.symm hp]

variable (pool)

/-- No step multiplies a buffer: it moves between the queue, the frames and the session. -/
theorem FrameStep.holding_le (hQ : Stable Q) {this : S} {t : T} {σ σ' : System T S} {f : Frame T}
    {c : Choice T S} {new : List (Frame T)} (h : FrameStep this t σ f c σ' new) :
    tally Q ((σ'.session this).buffer pool) +
        stackWeight (fun f : Frame T => tally Q (f.carried pool)) new + free Q pool σ' ≤
      tally Q ((σ.session this).buffer pool) + tally Q (f.carried pool) + free Q pool σ := by
  cases h with
  | send f c s' new h =>
    have hnew : stackWeight (fun f : Frame T => tally Q (f.carried pool)) new = 0 := by
      cases h <;> simp [Frame.carried]
    have hbuf : tally Q s'.mSendBuffer ≤ tally Q (σ.session this).send.mSendBuffer := by
      cases h with
      | copyPacket start copied p packet left b hb hfit =>
        rw [hb]
        exact tally_mono (hQ.append b packet hfit)
      | zeroBytes b hb =>
        rw [hb]
        exact tally_mono (hQ.consume b _ (by simp))
      | processSend n b hb _ =>
        rw [hb]
        exact tally_mono (hQ.consume b _ (by simp))
      | _ => exact le_refl _
    rw [hnew, System.set_session_self, free_set]
    cases pool with
    | recv => simp [Session.buffer, Frame.carried]
    | send => simpa [Session.buffer, Frame.carried] using hbuf
  | recv f c s' new h =>
    have hnew : stackWeight (fun f : Frame T => tally Q (f.carried pool)) new = 0 := by
      cases h <;> simp [Frame.carried]
    have hbuf : tally Q s'.mRecvBuffer ≤ tally Q (σ.session this).recv.mRecvBuffer := by
      cases h with
      | processRecv n b b' hb hw =>
        rw [hb]
        have harr := hQ.arrive b n
        rw [hw] at harr
        exact tally_mono harr
      | afterRecv dataSize processLen b b' hlen hb hr =>
        rw [hb]
        have hcons := hQ.consume b processLen hlen
        rw [hr] at hcons
        exact tally_mono hcons
      | _ => exact le_refl _
    rw [hnew, System.set_session_self, free_set]
    cases pool with
    | recv => simpa [Session.buffer, Frame.carried] using hbuf
    | send => simp [Session.buffer, Frame.carried]
  | connect f c σ' new h =>
    cases h with
    | refuse f hf => rcases hf with rfl | rfl | rfl <;> simp [Frame.carried]
    | tryDequeue p q b rest hperm =>
      rw [free_setPool, System.setPool_session]
      by_cases hp : p = pool
      · subst hp
        have hcount := hperm.countP_eq fun e => decide (Q e.2)
        simp only [List.countP_cons, decide_eq_true_eq] at hcount
        simp only [free, Frame.carried, stackWeight_cons, stackWeight_nil, if_true, tally_some,
          tally_none]
        omega
      · simp [Frame.carried, hp]
    | useCount p b =>
      rw [free_setPool, System.setPool_session]
      by_cases hp : p = pool
      · subst hp
        simp [Frame.carried, free]
      · simp [Frame.carried, hp]
    | assign p b =>
      rw [System.set_session_self, free_set, stackWeight_append, stackWeight_release]
      by_cases hp : p = pool
      · subst hp
        cases p <;> simp [Session.buffer] <;> simp [Frame.carried] <;> omega
      · cases p <;> cases pool <;> simp [Session.buffer] at hp ⊢
    | _ =>
      cases pool <;> simp [Frame.carried, Session.buffer, Session.record, free, System.pool, System.set]
  | disconnect f c σ' new h =>
    cases h <;> cases pool <;> simp [Frame.carried, Session.buffer, Session.record, free, System.pool, System.set]
  | destroy f c σ' new h =>
    cases h with
    | reset p b =>
      by_cases hp : p = pool
      · have hle := tally_mono (hQ.reset b)
        simp only [Frame.carried, hp, if_true, stackWeight_cons, stackWeight_nil, Nat.add_zero]
        omega
      · simp [Frame.carried, hp]
    | enqueue p b =>
      rw [free_setPool, System.setPool_session]
      by_cases hp : p = pool
      · subst hp
        simp [Frame.carried, ConcurrentQueue.enqueue, List.countP_append, free]
        omega
      · simp [Frame.carried, hp]
    | useCount p =>
      rw [free_setPool, System.setPool_session]
      by_cases hp : p = pool
      · subst hp
        simp [Frame.carried, free]
      · simp [Frame.carried, hp]
    | recvBuffer =>
      rw [System.set_session_self, free_set, stackWeight_append, stackWeight_release]
      cases pool <;> simp [Frame.carried, Session.buffer]
    | sendBuffer =>
      rw [System.set_session_self, free_set, stackWeight_append, stackWeight_release]
      cases pool <;> simp [Frame.carried, Session.buffer]
    | packetCount => cases pool <;> simp [Frame.carried, Session.buffer]

omit [DecidableEq T] in
theorem EnterStep.holding {this : S} {σ σ' : System T S}
    {frames : T → List (SessionFrame T S)} {c : Choice T S} {f : Frame T} (h : EnterStep σ frames c σ' this f) :
    (σ'.session this).buffer pool = (σ.session this).buffer pool ∧ f.carried pool = none ∧
      free Q pool σ' = free Q pool σ := by
  cases h <;> cases pool <;> simp [Session.buffer, Frame.carried]

omit [DecidableEq T] in
theorem EnvStep.free {σ σ' : System T S} (h : EnvStep σ σ') : free Q pool σ' = free Q pool σ := by
  cases h <;> simp

variable [Fintype T]

/-- One action takes place in one session, where it multiplies no buffer. -/
theorem holding_next (hQ : Stable Q) {s s' : SystemConf T S} {a : Action T (Choice T S)}
    (h : machine.next s a = some s') :
    ∃ this, (∀ x, x ≠ this → (holding Q pool).total x s' = (holding Q pool).total x s) ∧
      (holding Q pool).total this s' + free Q pool s'.mem ≤
        (holding Q pool).total this s + free Q pool s.mem := by
  obtain ⟨this, hmove, hother⟩ := next_move h
  refine ⟨this, ?_, ?_⟩
  · intro x hx
    simp only [Potential.total, (hother x hx).session, (hother x hx).count]
  · cases hmove with
    | step t c f fs new mem hf hstep =>
      have hw := count_step this hf mem new fun f => tally Q (f.carried pool)
      have hle := hstep.holding_le pool hQ
      simp only [if_true] at hw
      simp only [Potential.total, holding]
      omega
    | enter t c f mem hstep =>
      have hw := count_enter this this s t f mem fun f => tally Q (f.carried pool)
      obtain ⟨hbuf, hnone, hfree⟩ := hstep.holding (Q := Q) pool
      simp only [if_true, hnone, tally_none] at hw
      simp only [Potential.total, holding, hbuf, hfree]
      omega
    | env c mem hstep =>
      obtain ⟨_, _, he, _⟩ := hstep.session this
      have hbuf : (mem.session this).buffer pool = (s.mem.session this).buffer pool := by
        rw [he]
        cases pool <;> rfl
      simp only [Potential.total, holding, count, hbuf, hstep.free, le_refl]

/-- Over any sessions, the owned and the free buffers with property `Q` are no more than the
free ones at the start. -/
theorem holding_le (hQ : Stable Q) {recvPool sendPool : RegisteredBufferPool T}
    {ok : SystemConf T S → Action T (Choice T S) → Prop} {s : SystemConf T S}
    (h : machine.Reach ok (start recvPool sendPool) s) (F : Finset S) :
    ∑ x ∈ F, (holding Q pool).total x s + free Q pool s.mem ≤
      free Q pool (System.start (S := S) recvPool sendPool) := by
  revert F
  refine h.invariant (fun s => ∀ F : Finset S, ∑ x ∈ F, (holding Q pool).total x s +
    free Q pool s.mem ≤ free Q pool (System.start recvPool sendPool)) ?_ ?_
  · intro F
    have hzero (x : S) : (holding Q pool).total x (start (T := T) recvPool sendPool) = 0 := by
      cases pool <;>
        simp [Potential.total, holding, start, System.start, Session.construct, Session.buffer,
          count]
    rw [Finset.sum_eq_zero fun x _ => hzero x, Nat.zero_add]
    exact le_refl _
  · intro s a s' _ hs _ hnext F
    obtain ⟨this, hother, hthis⟩ := holding_next pool hQ hnext
    have hnot : this ∉ F.erase this := Finset.notMem_erase this F
    have hbefore := hs (insert this (F.erase this))
    have hsub : F ⊆ insert this (F.erase this) := by
      intro x hx
      by_cases he : x = this <;> simp [he, hx]
    have hmore := Finset.sum_le_sum_of_subset (f := fun x => (holding Q pool).total x s') hsub
    have hsame : ∑ x ∈ F.erase this, (holding Q pool).total x s' =
        ∑ x ∈ F.erase this, (holding Q pool).total x s :=
      Finset.sum_congr rfl fun x hx => hother x (Finset.ne_of_mem_erase hx)
    rw [Finset.sum_insert hnot] at hbefore hmore
    omega

omit [DecidableEq T] in
theorem tally_le_total (x : S) (s : SystemConf T S) :
    tally Q ((s.mem.session x).buffer pool) ≤ (holding Q pool).total x s := by
  simp only [Potential.total, holding]
  omega

end Holding

section Consequences

variable [Fintype T] {recvPool sendPool : RegisteredBufferPool T}
  {ok : SystemConf T S → Action T (Choice T S) → Prop} {s : SystemConf T S}

/-- What holds of all free buffers at the start, and is kept by the operations on a buffer, holds
of the buffers of all sessions and of all free buffers. -/
theorem buffers_reach {P : NetworkBuffer → Prop} (hP : Stable fun b => ¬P b) (pool : Pool)
    (hfree : ∀ e ∈ ((System.start (S := S) recvPool sendPool).pool pool).mQueue, P e.2)
    (h : machine.Reach ok (start recvPool sendPool) s) :
    (∀ x b, (s.mem.session x).buffer pool = some b → P b) ∧
      ∀ e ∈ (s.mem.pool pool).mQueue, P e.2 := by
  classical
  have hzero : free (fun b => ¬P b) pool (System.start (S := S) recvPool sendPool) = 0 := by
    rw [free, List.countP_eq_zero]
    intro e he
    simpa using hfree e he
  constructor
  · intro x b hb
    have hle := holding_le pool hP h {x}
    have hmine := tally_le_total (Q := fun b => ¬P b) pool x s
    rw [Finset.sum_singleton, hzero] at hle
    rw [hb, tally_some] at hmine
    by_contra hnot
    rw [if_pos hnot] at hmine
    omega
  · intro e he
    have hle := holding_le pool hP h ∅
    rw [Finset.sum_empty, hzero, Nat.zero_add, Nat.le_zero, free, List.countP_eq_zero] at hle
    simpa using hle e he

theorem stable_offset (o : Int) : Stable fun b => b.mOffset = o := by
  refine ⟨fun b hb => hb, ?_, ?_, ?_⟩
  · intro b packet _ hb
    simpa [NetworkBuffer.append, NetworkBuffer.store] using hb
  · intro b n hb
    simpa using hb
  · intro b n _ hb
    simpa using hb

/-- Slices that are free once at the start have at most one owner. -/
theorem offsets_reach (pool : Pool)
    (hfree : (((System.start (S := S) recvPool sendPool).pool pool).mQueue.map
      fun e => e.2.mOffset).Nodup)
    (h : machine.Reach ok (start recvPool sendPool) s) {x : S} {b : NetworkBuffer}
    (hb : (s.mem.session x).buffer pool = some b) :
    (∀ y c, y ≠ x → (s.mem.session y).buffer pool = some c → c.mOffset ≠ b.mOffset) ∧
      ∀ e ∈ (s.mem.pool pool).mQueue, e.2.mOffset ≠ b.mOffset := by
  have hone : free (fun c => c.mOffset = b.mOffset) pool
      (System.start (S := S) recvPool sendPool) ≤ 1 := by
    have hcount := List.nodup_iff_count_le_one.mp hfree b.mOffset
    rw [List.count, List.countP_map] at hcount
    exact hcount
  have hmine := tally_le_total (Q := fun c => c.mOffset = b.mOffset) pool x s
  rw [hb, tally_some, if_pos rfl] at hmine
  constructor
  · intro y c hne hc heq
    have hle := holding_le pool (stable_offset b.mOffset) h {x, y}
    have htheirs := tally_le_total (Q := fun c => c.mOffset = b.mOffset) pool y s
    rw [Finset.sum_pair (Ne.symm hne)] at hle
    rw [hc, tally_some, if_pos heq] at htheirs
    omega
  · intro e he heq
    have hle := holding_le pool (stable_offset b.mOffset) h {x}
    have hpos : 0 < free (fun c => c.mOffset = b.mOffset) pool s.mem :=
      List.countP_pos_iff.mpr ⟨e, he, by simpa using heq⟩
    rw [Finset.sum_singleton] at hle
    omega

end Consequences

end ServerCore.Network
