import ServerCore.Jobs.TimedJobs
import Mathlib.Data.List.Infix

namespace ServerCore.Jobs

open Framework

/-- A `TimerItem`, whose `jobData` is the address of its record. -/
structure RawItem where
  executeTick : ℕ
  jobData : ℕ
  deriving DecidableEq

def RawItem.Lt (x y : RawItem) : Prop := x.executeTick < y.executeTick

/-- `JobTimer` with `ObjectPool<JobData>`. -/
structure PooledTimer (O J : Type) where
  mTimerQueue : List RawItem
  mIsDistributing : Bool
  pool : ObjectPool (JobData O J)

/-- A call of `Reserve`, for which `GetTick64()` returned `now`. -/
structure Reservation (O J : Type) where
  now : ℕ
  tickAfter : ℕ
  owner : O
  job : J

inductive TimerCall (O J : Type) where
  | reserve (r : Reservation O J)
  /-- `Distribute(now)`. For the record of each item, with the number of items after it, `push`
  tells whether `owner.lock()` succeeds, and which `Reserve` calls the jobs make that
  `owner->Push` executes. -/
  | distribute (now : ℕ) (push : ℕ → JobData O J → Option (List (Reservation O J)))
  | clear

/-- `ObjectPool::GetUsingCount`. -/
def ObjectPool.GetUsingCount {α : Type} (p : ObjectPool α) : ℕ := p.mAllocCount - p.mPool.length

namespace PooledTimer

variable {O J : Type}

def start : PooledTimer O J := ⟨[], false, ⟨[], 0, fun _ => none⟩⟩

def Reserve (s : PooledTimer O J) (r : Reservation O J) : PooledTimer O J :=
  let jobData := s.pool.New ⟨r.owner, r.job⟩
  { s with
    mTimerQueue := ⟨(r.now + r.tickAfter) % 2 ^ 64, jobData.1⟩ :: s.mTimerQueue
    pool := jobData.2 }

/-- The loop over `items`. -/
def deliver (push : ℕ → JobData O J → Option (List (Reservation O J))) :
    PooledTimer O J → List RawItem → Option (PooledTimer O J)
  | s, [] => some s
  | s, item :: items =>
      (s.pool.heap item.jobData).bind fun data =>
        let pushed := match push items.length data with
          | none => s
          | some calls => calls.foldl Reserve s
        deliver push { pushed with pool := pushed.pool.Delete item.jobData } items

def Distribute (tryPop : List RawItem → Option (RawItem × List RawItem)) (now : ℕ)
    (push : ℕ → JobData O J → Option (List (Reservation O J))) (s : PooledTimer O J) :
    Option (PooledTimer O J) :=
  if s.mIsDistributing then some s
  else
    (popUntil tryPop (fun item => now < item.executeTick) (s.mTimerQueue.length + 1)
        s.mTimerQueue).bind fun r =>
      (deliver push { s with mTimerQueue := r.2, mIsDistributing := true } r.1).map fun s =>
        { s with mIsDistributing := false }

/-- `Clear` drops what it pops. -/
def Clear (tryPop : List RawItem → Option (RawItem × List RawItem)) (s : PooledTimer O J) :
    Option (PooledTimer O J) :=
  (popUntil tryPop (fun _ => false) (s.mTimerQueue.length + 1) s.mTimerQueue).map fun r =>
    { s with mTimerQueue := r.2 }

def call (tryPop : List RawItem → Option (RawItem × List RawItem)) (s : PooledTimer O J) :
    TimerCall O J → Option (PooledTimer O J)
  | .reserve r => some (s.Reserve r)
  | .distribute now push => s.Distribute tryPop now push
  | .clear => s.Clear tryPop

/-- The calls one after another. -/
def run (tryPop : List RawItem → Option (RawItem × List RawItem)) :
    PooledTimer O J → List (TimerCall O J) → Option (PooledTimer O J)
  | s, [] => some s
  | s, c :: calls => (s.call tryPop c).bind fun s' => run tryPop s' calls

/-- The records of the queue are those taken from the pool and not given back. -/
structure Accounted (s : PooledTimer O J) : Prop where
  using_eq : s.pool.GetUsingCount = s.mTimerQueue.length
  living : ∀ a, (s.pool.heap a).isSome ↔ a ∈ s.mTimerQueue.map RawItem.jobData

/-- `Clear` is only called on the empty queue. -/
def ClearsNothing (tryPop : List RawItem → Option (RawItem × List RawItem)) (s : PooledTimer O J)
    (calls : List (TimerCall O J)) : Prop :=
  ∀ before after s', calls = before ++ .clear :: after → s.run tryPop before = some s' →
    s'.mTimerQueue = []

/-- Every allocated record is in the pool, in the queue or one of `held`, and those that are not in
the pool are living. -/
structure Recorded (s : PooledTimer O J) (held : List ℕ) : Prop where
  places : (List.range s.pool.mAllocCount).Perm
    (s.pool.mPool ++ (s.mTimerQueue.map RawItem.jobData ++ held))
  living : ∀ a, (s.pool.heap a).isSome ↔ a ∈ s.mTimerQueue.map RawItem.jobData ++ held

theorem Recorded.perm {s : PooledTimer O J} {held : List ℕ} (h : Recorded s held)
    {s' : PooledTimer O J} {held' : List ℕ} (hpool : s'.pool = s.pool)
    (hperm : (s.mTimerQueue.map RawItem.jobData ++ held).Perm
      (s'.mTimerQueue.map RawItem.jobData ++ held')) : Recorded s' held' := by
  constructor
  · rw [hpool]
    exact h.places.trans (hperm.append_left _)
  · intro a
    rw [hpool, h.living, hperm.mem_iff]

/-- `Reserve` takes a record that nothing else refers to. -/
theorem Recorded.reserve {s : PooledTimer O J} {held : List ℕ} (h : Recorded s held)
    (r : Reservation O J) : Recorded (s.Reserve r) held := by
  have hplaces := h.places
  have hnodup := hplaces.nodup_iff.mp List.nodup_range
  have hheap (a : ℕ) (ha : a ∉ s.mTimerQueue.map RawItem.jobData ++ held) :
      ∀ b, (Function.update s.pool.heap a (some ⟨r.owner, r.job⟩) b).isSome ↔
        b ∈ a :: (s.mTimerQueue.map RawItem.jobData ++ held) := by
    intro b
    by_cases hb : b = a
    · subst hb
      simp
    · rw [Function.update_of_ne hb, h.living]
      simp [hb]
  cases hpool : s.pool.mPool with
  | nil =>
    rw [hpool, List.nil_append] at hplaces
    have hfresh : s.pool.mAllocCount ∉ s.mTimerQueue.map RawItem.jobData ++ held := by
      rw [← hplaces.mem_iff]
      simp
    constructor
    · simp only [Reserve, ObjectPool.New, hpool, List.map_cons, List.nil_append, List.cons_append]
      rw [List.range_succ]
      exact (List.perm_append_singleton _ _).trans (hplaces.cons _)
    · simpa only [Reserve, ObjectPool.New, hpool, List.map_cons, List.cons_append] using
        hheap _ hfresh
  | cons ptr rest =>
    rw [hpool] at hplaces hnodup
    have hfresh : ptr ∉ s.mTimerQueue.map RawItem.jobData ++ held := by
      have hnot := (List.nodup_cons.mp hnodup).1
      exact fun hmem => hnot (List.mem_append_right _ hmem)
    constructor
    · simp only [Reserve, ObjectPool.New, hpool, List.map_cons, List.cons_append]
      exact hplaces.trans List.perm_middle.symm
    · simpa only [Reserve, ObjectPool.New, hpool, List.map_cons, List.cons_append] using
        hheap _ hfresh

theorem Recorded.reserveAll {s : PooledTimer O J} {held : List ℕ} (h : Recorded s held)
    (calls : List (Reservation O J)) : Recorded (calls.foldl Reserve s) held := by
  induction calls generalizing s with
  | nil => exact h
  | cons r calls ih => exact ih (h.reserve r)

/-- `Delete` gives a held record back. -/
theorem Recorded.delete {s : PooledTimer O J} {a : ℕ} {held : List ℕ} (h : Recorded s (a :: held)) :
    Recorded { s with pool := s.pool.Delete a } held := by
  have hplaces := h.places.trans (List.perm_middle.append_left _)
  have hnodup := (hplaces.trans List.perm_middle).nodup_iff.mp List.nodup_range
  have hnot : a ∉ s.mTimerQueue.map RawItem.jobData ++ held := by
    have hout := (List.nodup_cons.mp hnodup).1
    exact fun hmem => hout (List.mem_append_right _ hmem)
  constructor
  · exact hplaces.trans List.perm_middle
  · intro b
    simp only [ObjectPool.Delete]
    by_cases hb : b = a
    · subst hb
      simpa using hnot
    · rw [Function.update_of_ne hb, h.living]
      simp [hb]

/-- The loop over `items` gives all their records back. -/
theorem Recorded.deliver (push : ℕ → JobData O J → Option (List (Reservation O J)))
    {s : PooledTimer O J} {items : List RawItem} {held : List ℕ}
    (h : Recorded s (items.map RawItem.jobData ++ held)) :
    ∃ s', PooledTimer.deliver push s items = some s' ∧ Recorded s' held := by
  induction items generalizing s with
  | nil => exact ⟨s, rfl, h⟩
  | cons item items ih =>
    have hlives : (s.pool.heap item.jobData).isSome := by
      rw [h.living]
      simp
    obtain ⟨data, hdata⟩ := Option.isSome_iff_exists.mp hlives
    simp only [PooledTimer.deliver, hdata, Option.bind_some]
    cases push items.length data with
    | none => exact ih h.delete
    | some calls => exact ih (h.reserveAll calls).delete

variable {tryPop : List RawItem → Option (RawItem × List RawItem)}

theorem Recorded.distribute (law : LawfulTryPop RawItem.Lt tryPop) (now : ℕ)
    (push : ℕ → JobData O J → Option (List (Reservation O J))) {s : PooledTimer O J}
    {held : List ℕ} (h : Recorded s held) :
    ∃ s', s.Distribute tryPop now push = some s' ∧ Recorded s' held := by
  unfold Distribute
  cases s.mIsDistributing with
  | true => exact ⟨s, rfl, h⟩
  | false =>
    obtain ⟨items, rest, hpop, hperm⟩ := popUntil_perm law
      (fun item => now < item.executeTick) (s.mTimerQueue.length + 1) s.mTimerQueue (by omega)
    have hheld : Recorded { s with mTimerQueue := rest, mIsDistributing := true }
        (items.map RawItem.jobData ++ held) := by
      apply h.perm
      · rfl
      · have hmap := (hperm.map RawItem.jobData).append_right held
        rw [List.map_append, List.append_assoc] at hmap
        apply hmap.trans
        simp only [← List.append_assoc]
        exact List.perm_append_comm.append_right held
    obtain ⟨s', hdeliver, hrecorded⟩ := hheld.deliver push
    refine ⟨{ s' with mIsDistributing := false }, ?_, hrecorded.perm rfl (.refl _)⟩
    simp [hpop, hdeliver]

/-- `Clear` loses the records of the queue. -/
theorem Recorded.clear (law : LawfulTryPop RawItem.Lt tryPop) {s : PooledTimer O J}
    {held : List ℕ} (h : Recorded s held) :
    ∃ s', s.Clear tryPop = some s' ∧ Recorded s' (s.mTimerQueue.map RawItem.jobData ++ held) := by
  obtain ⟨items, hpop, _⟩ :=
    popUntil_all law (s.mTimerQueue.length + 1) s.mTimerQueue (by omega)
  refine ⟨{ s with mTimerQueue := [] }, by simp [Clear, hpop], ?_⟩
  apply h.perm
  · rfl
  · exact .refl _

/-- One call loses a record exactly when it is a `Clear` of a queue that is not empty. -/
theorem Recorded.call (law : LawfulTryPop RawItem.Lt tryPop) (c : TimerCall O J)
    {s : PooledTimer O J} {held : List ℕ} (h : Recorded s held) :
    ∃ s' held', s.call tryPop c = some s' ∧ Recorded s' held' ∧
      (held' = [] ↔ (c = .clear → s.mTimerQueue = []) ∧ held = []) := by
  cases c with
  | reserve r => exact ⟨_, held, rfl, h.reserve r, by simp⟩
  | distribute now push =>
    obtain ⟨s', hrun, hrecorded⟩ := h.distribute law now push
    exact ⟨s', held, hrun, hrecorded, by simp⟩
  | clear =>
    obtain ⟨s', hrun, hrecorded⟩ := h.clear law
    exact ⟨s', _, hrun, hrecorded, by simp⟩

theorem clearsNothing_cons {s s' : PooledTimer O J} {c : TimerCall O J}
    (h : s.call tryPop c = some s') (calls : List (TimerCall O J)) :
    ClearsNothing tryPop s (c :: calls) ↔
      (c = .clear → s.mTimerQueue = []) ∧ ClearsNothing tryPop s' calls := by
  constructor
  · intro hall
    constructor
    · intro hc
      exact hall [] calls s (by rw [hc]; rfl) rfl
    · intro before after s₁ hsplit hrun
      apply hall (c :: before) after s₁
      · rw [hsplit, List.cons_append]
      · simpa [run, h] using hrun
  · intro hall before after s₁ hsplit hrun
    cases before with
    | nil =>
      obtain ⟨hc, _⟩ := List.cons.inj hsplit
      have hsame : s = s₁ := by simpa [run] using hrun
      rw [← hsame]
      exact hall.1 hc
    | cons d before =>
      obtain ⟨rfl, hcalls⟩ := List.cons.inj hsplit
      apply hall.2 before after s₁ hcalls
      simpa [run, h] using hrun

/-- A run loses records exactly when it clears a queue that is not empty. -/
theorem Recorded.run (law : LawfulTryPop RawItem.Lt tryPop) (calls : List (TimerCall O J))
    {s : PooledTimer O J} {held : List ℕ} (h : Recorded s held) :
    ∃ s' held', s.run tryPop calls = some s' ∧ Recorded s' held' ∧
      (held' = [] ↔ ClearsNothing tryPop s calls ∧ held = []) := by
  induction calls generalizing s held with
  | nil =>
    refine ⟨s, held, rfl, h, ?_⟩
    have hnone : ClearsNothing tryPop s [] := by
      intro before after s' hsplit
      simp at hsplit
    simp [hnone]
  | cons c calls ih =>
    obtain ⟨s₁, held₁, hcall, hrecorded, hheld⟩ := h.call law c
    obtain ⟨s', held', hrun, hrecorded', hheld'⟩ := ih hrecorded
    refine ⟨s', held', by simp [PooledTimer.run, hcall, hrun], hrecorded', ?_⟩
    rw [hheld', hheld, clearsNothing_cons hcall, and_left_comm, and_assoc]

theorem Recorded.accounted_iff {s : PooledTimer O J} {held : List ℕ} (h : Recorded s held) :
    Accounted s ↔ held = [] := by
  have hlen := h.places.length_eq
  simp only [List.length_range, List.length_append, List.length_map] at hlen
  constructor
  · intro haccounted
    have heq := haccounted.using_eq
    rw [ObjectPool.GetUsingCount] at heq
    exact List.eq_nil_of_length_eq_zero (by omega)
  · rintro rfl
    constructor
    · rw [ObjectPool.GetUsingCount]
      simp only [List.length_nil] at hlen
      omega
    · simpa using h.living

theorem recorded_start : Recorded (start : PooledTimer O J) [] :=
  ⟨.refl _, by simp [start]⟩

/-- After each call the records in use are those of the queue, exactly when `Clear` is only called
on the empty queue. -/
theorem runs_accounted_iff (law : LawfulTryPop RawItem.Lt tryPop) (calls : List (TimerCall O J)) :
    (∀ before, before <+: calls → ∃ s, start.run tryPop before = some s ∧ Accounted s) ↔
      ClearsNothing tryPop start calls := by
  constructor
  · intro h
    obtain ⟨s, hrun, haccounted⟩ := h calls (List.prefix_refl calls)
    obtain ⟨s', held, hrun', hrecorded, hheld⟩ := recorded_start.run law calls
    rw [hrun] at hrun'
    obtain rfl := Option.some.inj hrun'
    exact (hheld.mp (hrecorded.accounted_iff.mp haccounted)).1
  · intro h before hprefix
    obtain ⟨rest, rfl⟩ := hprefix
    obtain ⟨s, held, hrun, hrecorded, hheld⟩ := recorded_start.run law before
    refine ⟨s, hrun, hrecorded.accounted_iff.mpr (hheld.mpr ⟨?_, rfl⟩)⟩
    intro first after s' hsplit
    apply h first (after ++ rest) s'
    rw [hsplit, List.append_assoc, List.cons_append]

/-- A timer that fires, and `Clear` of the queue after it. -/
def firedThenCleared : List (TimerCall Unit Unit) :=
  [.reserve ⟨0, 5, (), ()⟩, .distribute 5 fun _ _ => some [], .clear]

theorem accounted_firedThenCleared :
    ∃ s, start.run (popGreatest RawItem.executeTick) firedThenCleared = some s ∧ Accounted s := by
  refine (runs_accounted_iff (popGreatest_lawful _) firedThenCleared).mpr ?_ firedThenCleared
    (List.prefix_refl _)
  apply (clearsNothing_cons rfl _).mpr
  refine ⟨by simp, (clearsNothing_cons rfl _).mpr ⟨by simp, (clearsNothing_cons rfl _).mpr ?_⟩⟩
  refine ⟨fun _ => rfl, ?_⟩
  intro before after s hsplit
  simp at hsplit

/-- A timer that is dropped by `Clear`. -/
def reservedThenCleared : List (TimerCall Unit Unit) := [.reserve ⟨0, 5, (), ()⟩, .clear]

theorem clear_leaks : ¬∀ (calls : List (TimerCall Unit Unit)) before, before <+: calls →
    ∃ s, start.run (popGreatest RawItem.executeTick) before = some s ∧ Accounted s := by
  intro claim
  obtain ⟨s, hrun, haccounted⟩ := claim reservedThenCleared reservedThenCleared (List.prefix_refl _)
  have hcounts : (start.run (popGreatest RawItem.executeTick) reservedThenCleared).map
      (fun s => (s.pool.GetUsingCount, s.mTimerQueue.length)) = some (1, 0) := rfl
  rw [hrun] at hcounts
  simp only [Option.map_some, Option.some.injEq, Prod.mk.injEq] at hcounts
  have heq := haccounted.using_eq
  omega

end PooledTimer

end ServerCore.Jobs
