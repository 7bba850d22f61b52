import ServerCore.Jobs.JobQueueInvariant
import ServerCore.Jobs.JobTimer

namespace ServerCore.Jobs

open Framework

/-- A `TimerItem` whose `JobData` is at the address `jobData`. The last two fields are
history: which `Reserve` made the item, and what it was called with. -/
structure Item (Q J : Type) where
  executeTick : ℕ
  jobData : ℕ
  number : ℕ
  data : JobData Q J
  deriving DecidableEq

/-- A call of `owner->Push(job)` by a `Distribute` that was called with `now`. -/
structure Firing (Q J : Type) where
  item : Item Q J
  owner : Q
  job : J
  now : ℕ
  deriving DecidableEq

/-- `ObjectPool<JobData>`; an address is the number of its allocation. -/
structure ObjectPool (α : Type) where
  mPool : List ℕ
  mAllocCount : ℕ
  heap : ℕ → Option α

/-- Memory of the job system with the timer. `expired` tells which queues have no owner left;
the last three fields are history: the items that were reserved, fired and finished. -/
structure TimedMem (T Q J : Type) where
  jobs : Mem T Q J
  mTimerQueue : List (Item Q J)
  mIsDistributing : Bool
  pool : ObjectPool (JobData Q J)
  expired : Q → Bool
  reserved : List (Item Q J)
  fired : List (Firing Q J)
  finished : List (Item Q J)

/-- Positions inside `JobTimer::Reserve` and `JobTimer::Distribute`. -/
inductive TimerFrame (Q J : Type) where
  /-- `GetTick64()` is next. -/
  | reserve (tickAfter : ℕ) (owner : Q) (job : J)
  /-- `ObjectPool<JobData>::New` is next. -/
  | new (executeTick : ℕ) (owner : Q) (job : J)
  /-- `mTimerQueue.push` is next. -/
  | insert (executeTick : ℕ) (jobData : ℕ) (data : JobData Q J)
  /-- `mIsDistributing.exchange(true)` is next. -/
  | distribute (now : ℕ)
  /-- Head of the loop over `try_pop`, with the `items` so far. -/
  | collect (now : ℕ) (items : List (Item Q J))
  /-- `now < timerItem.executeTick` is next. -/
  | compare (now : ℕ) (items : List (Item Q J)) (timerItem : Item Q J)
  /-- Head of the loop over `items`; after the last, `mIsDistributing.store(false)`. -/
  | deliver (now : ℕ) (items : List (Item Q J))
  /-- `ObjectPool<JobData>::Delete(item.jobData)` is next. -/
  | delete (now : ℕ) (item : Item Q J) (items : List (Item Q J))
  deriving DecidableEq

inductive TimedFrame (T Q J : Type) where
  | job (f : Frame T Q J)
  | timer (f : TimerFrame Q J)
  deriving DecidableEq

inductive TimedChoice (T Q J : Type) where
  | go
  | job (c : Choice T Q J)
  | callReserve (tickAfter : ℕ) (owner : Q) (job : J)
  | callDistribute (now : ℕ)
  | clock (now : ℕ)
  | pop (timerItem : Option (Item Q J))
  | expire (q : Q)
  deriving DecidableEq

namespace ObjectPool

variable {α : Type}

/-- `New`: the address on top of `mPool`, or a fresh one. -/
def New (p : ObjectPool α) (x : α) : ℕ × ObjectPool α :=
  match p.mPool with
  | [] => (p.mAllocCount,
      ⟨[], p.mAllocCount + 1, Function.update p.heap p.mAllocCount (some x)⟩)
  | ptr :: rest => (ptr, ⟨rest, p.mAllocCount, Function.update p.heap ptr (some x)⟩)

/-- `Delete`, that is `Release`. -/
def Delete (p : ObjectPool α) (obj : ℕ) : ObjectPool α :=
  ⟨obj :: p.mPool, p.mAllocCount, Function.update p.heap obj none⟩

end ObjectPool

section Steps

variable {T Q J : Type} [DecidableEq T] [DecidableEq Q] [DecidableEq J]

def TimedMem.init : TimedMem T Q J :=
  ⟨.init, [], false, ⟨[], 0, fun _ => none⟩, fun _ => false, [], [], []⟩

/-- One step of `JobTimer::Reserve` or `JobTimer::Distribute`. `try_pop` fails on the empty
queue only, and yields an item that no other exceeds. -/
def timerStep (s : TimedMem T Q J) :
    TimerFrame Q J → TimedChoice T Q J → Option (TimedMem T Q J × List (TimedFrame T Q J))
  | .reserve tickAfter owner job, .clock now =>
      some (s, [.timer (.new ((now + tickAfter) % 2 ^ 64) owner job)])
  | .new executeTick owner job, .go =>
      let r := s.pool.New ⟨owner, job⟩
      some ({ s with pool := r.2 }, [.timer (.insert executeTick r.1 ⟨owner, job⟩)])
  | .insert executeTick jobData data, .go =>
      let item : Item Q J := ⟨executeTick, jobData, s.reserved.length, data⟩
      some ({ s with
        mTimerQueue := item :: s.mTimerQueue
        reserved := s.reserved ++ [item] }, [])
  | .distribute now, .go =>
      if s.mIsDistributing then some (s, [])
      else some ({ s with mIsDistributing := true }, [.timer (.collect now [])])
  | .collect now items, .pop none =>
      if s.mTimerQueue = [] then some (s, [.timer (.deliver now items)]) else none
  | .collect now items, .pop (some timerItem) =>
      if timerItem ∈ s.mTimerQueue ∧
          ∀ x ∈ s.mTimerQueue, ¬timerItem.executeTick < x.executeTick then
        some ({ s with mTimerQueue := s.mTimerQueue.erase timerItem },
          [.timer (.compare now items timerItem)])
      else none
  | .compare now items timerItem, .go =>
      if now < timerItem.executeTick then
        some ({ s with mTimerQueue := timerItem :: s.mTimerQueue }, [.timer (.deliver now items)])
      else some (s, [.timer (.collect now (items ++ [timerItem]))])
  | .deliver _ [], .go => some ({ s with mIsDistributing := false }, [])
  | .deliver now (item :: items), .go =>
      match s.pool.heap item.jobData with
      | none => none
      | some data =>
          if s.expired data.owner then some (s, [.timer (.delete now item items)])
          else some ({ s with fired := s.fired ++ [⟨item, data.owner, data.job, now⟩] },
            [.job (.push data.owner data.job false), .timer (.delete now item items)])
  | .delete now item items, .go =>
      some ({ s with
        pool := s.pool.Delete item.jobData
        finished := s.finished ++ [item] }, [.timer (.deliver now items)])
  | _, _ => none

/-- One step of a thread; a job body may also call `DoTimer`. -/
def timedStep (s : TimedMem T Q J) (t : T) :
    TimedFrame T Q J → TimedChoice T Q J → Option (TimedMem T Q J × List (TimedFrame T Q J))
  | .job f, .job c => (step s.jobs t f c).map fun r =>
      ({ s with jobs := r.1 }, r.2.map .job)
  | .job (.running q jobCount jobs), .callReserve tickAfter owner job =>
      some (s, [.timer (.reserve tickAfter owner job), .job (.running q jobCount jobs)])
  | .timer f, c => timerStep s f c
  | _, _ => none

/-- A thread that is inside no function calls `Push`, `DoGlobalJobs`, `DoTimer` or
`DistributeJobs`. -/
def timedEnter (s : TimedMem T Q J) (frames : T → List (TimedFrame T Q J)) (t : T) :
    TimedChoice T Q J → Option (TimedMem T Q J × TimedFrame T Q J)
  | .job c =>
      if (frames t).isEmpty then
        (enter s.jobs (fun _ => []) t c).map fun r => ({ s with jobs := r.1 }, .job r.2)
      else none
  | .callReserve tickAfter owner job =>
      if (frames t).isEmpty then some (s, .timer (.reserve tickAfter owner job)) else none
  | .callDistribute now =>
      if (frames t).isEmpty then some (s, .timer (.distribute now)) else none
  | _ => none

/-- `LEndTickCount` is assigned, or the last owner of a queue lets go of it. -/
def timedEnv (s : TimedMem T Q J) : TimedChoice T Q J → Option (TimedMem T Q J)
  | .job c => (env s.jobs c).map fun r => { s with jobs := r }
  | .expire q => some { s with expired := Function.update s.expired q true }
  | _ => none

/-- Any number of threads in the job queues and in the timer. -/
def timedMachine : Machine T (TimedMem T Q J) (TimedFrame T Q J) (TimedChoice T Q J) :=
  ⟨timedEnter, timedStep, timedEnv⟩

def timedStart : Conf T (TimedMem T Q J) (TimedFrame T Q J) := ⟨.init, fun _ => []⟩

/-- States that some interleaving reaches. -/
def TimedReachable (s : Conf T (TimedMem T Q J) (TimedFrame T Q J)) : Prop :=
  timedMachine.Reach (fun _ _ => True) timedStart s

end Steps

section Spec

variable {T Q J : Type} [DecidableEq T] [DecidableEq Q] [DecidableEq J]

/-- What one step of `Reserve` or `Distribute` does. -/
inductive TimerStep (s : TimedMem T Q J) :
    TimerFrame Q J → TimedMem T Q J → List (TimedFrame T Q J) → Prop
  | reserve (tickAfter owner job executeTick) : TimerStep s (.reserve tickAfter owner job) s
      [.timer (.new executeTick owner job)]
  | new (executeTick owner job) : TimerStep s (.new executeTick owner job)
      { s with pool := (s.pool.New ⟨owner, job⟩).2 }
      [.timer (.insert executeTick (s.pool.New ⟨owner, job⟩).1 ⟨owner, job⟩)]
  | insert (executeTick jobData data) : TimerStep s (.insert executeTick jobData data)
      { s with
        mTimerQueue := ⟨executeTick, jobData, s.reserved.length, data⟩ :: s.mTimerQueue
        reserved := s.reserved ++ [⟨executeTick, jobData, s.reserved.length, data⟩] } []
  | busy (now) : s.mIsDistributing = true → TimerStep s (.distribute now) s []
  | distribute (now) : s.mIsDistributing = false → TimerStep s (.distribute now)
      { s with mIsDistributing := true } [.timer (.collect now [])]
  | empty (now items) : TimerStep s (.collect now items) s [.timer (.deliver now items)]
  | pop (now items timerItem) : timerItem ∈ s.mTimerQueue → TimerStep s (.collect now items)
      { s with mTimerQueue := s.mTimerQueue.erase timerItem }
      [.timer (.compare now items timerItem)]
  | putBack (now items timerItem) : TimerStep s (.compare now items timerItem)
      { s with mTimerQueue := timerItem :: s.mTimerQueue } [.timer (.deliver now items)]
  | collect (now items timerItem) : timerItem.executeTick ≤ now →
      TimerStep s (.compare now items timerItem) s [.timer (.collect now (items ++ [timerItem]))]
  | done (now) : TimerStep s (.deliver now []) { s with mIsDistributing := false } []
  | lost (now item items data) : s.pool.heap item.jobData = some data →
      s.expired data.owner = true →
      TimerStep s (.deliver now (item :: items)) s [.timer (.delete now item items)]
  | fire (now item items data) : s.pool.heap item.jobData = some data →
      TimerStep s (.deliver now (item :: items))
        { s with fired := s.fired ++ [⟨item, data.owner, data.job, now⟩] }
        [.job (.push data.owner data.job false), .timer (.delete now item items)]
  | delete (now item items) : TimerStep s (.delete now item items)
      { s with
        pool := s.pool.Delete item.jobData
        finished := s.finished ++ [item] } [.timer (.deliver now items)]

/-- What one step of a thread does. -/
inductive TimedStep (s : TimedMem T Q J) (t : T) :
    TimedFrame T Q J → TimedMem T Q J → List (TimedFrame T Q J) → Prop
  | job (f jobs new) : Step s.jobs t f jobs new →
      TimedStep s t (.job f) { s with jobs := jobs } (new.map .job)
  | callReserve (q jobCount jobs tickAfter owner job) :
      TimedStep s t (.job (.running q jobCount jobs)) s
        [.timer (.reserve tickAfter owner job), .job (.running q jobCount jobs)]
  | timer (f s' new) : TimerStep s f s' new → TimedStep s t (.timer f) s' new

omit [DecidableEq T] in
theorem timerStep_spec {s s' : TimedMem T Q J} {f : TimerFrame Q J} {c : TimedChoice T Q J}
    {new : List (TimedFrame T Q J)} (h : timerStep s f c = some (s', new)) :
    TimerStep s f s' new := by
  cases f with
  | reserve tickAfter owner job =>
    cases c <;> simp only [timerStep, reduceCtorEq, Option.some.injEq, Prod.mk.injEq] at h
    obtain ⟨rfl, rfl⟩ := h
    exact .reserve ..
  | new executeTick owner job =>
    cases c <;> simp only [timerStep, reduceCtorEq, Option.some.injEq, Prod.mk.injEq] at h
    obtain ⟨rfl, rfl⟩ := h
    exact .new ..
  | insert executeTick jobData data =>
    cases c <;> simp only [timerStep, reduceCtorEq, Option.some.injEq, Prod.mk.injEq] at h
    obtain ⟨rfl, rfl⟩ := h
    exact .insert ..
  | distribute now =>
    cases c <;> simp only [timerStep, reduceCtorEq] at h
    split at h
    · next hbusy =>
      simp only [Option.some.injEq, Prod.mk.injEq] at h
      obtain ⟨rfl, rfl⟩ := h
      exact .busy now hbusy
    · next hfree =>
      simp only [Option.some.injEq, Prod.mk.injEq] at h
      obtain ⟨rfl, rfl⟩ := h
      exact .distribute now (by simpa using hfree)
  | collect now items =>
    cases c <;> simp only [timerStep, reduceCtorEq] at h
    case pop timerItem =>
    cases timerItem with
    | none =>
      simp only at h
      split at h <;> simp only [Option.some.injEq, Prod.mk.injEq, reduceCtorEq] at h
      obtain ⟨rfl, rfl⟩ := h
      exact .empty ..
    | some timerItem =>
      simp only at h
      split at h <;> simp only [Option.some.injEq, Prod.mk.injEq, reduceCtorEq] at h
      next hc =>
      obtain ⟨rfl, rfl⟩ := h
      exact .pop _ _ _ hc.1
  | compare now items timerItem =>
    cases c <;> simp only [timerStep, reduceCtorEq] at h
    split at h
    · simp only [Option.some.injEq, Prod.mk.injEq] at h
      obtain ⟨rfl, rfl⟩ := h
      exact .putBack ..
    · next hdue =>
      simp only [Option.some.injEq, Prod.mk.injEq] at h
      obtain ⟨rfl, rfl⟩ := h
      exact .collect _ _ _ (not_lt.mp hdue)
  | deliver now items =>
    cases items with
    | nil =>
      cases c <;> simp only [timerStep, reduceCtorEq, Option.some.injEq, Prod.mk.injEq] at h
      obtain ⟨rfl, rfl⟩ := h
      exact .done now
    | cons item items =>
      cases c <;> simp only [timerStep, reduceCtorEq] at h
      cases hdata : s.pool.heap item.jobData with
      | none => simp [hdata] at h
      | some data =>
        simp only [hdata] at h
        split at h
        · next hexpired =>
          simp only [Option.some.injEq, Prod.mk.injEq] at h
          obtain ⟨rfl, rfl⟩ := h
          exact .lost _ _ _ _ hdata hexpired
        · simp only [Option.some.injEq, Prod.mk.injEq] at h
          obtain ⟨rfl, rfl⟩ := h
          exact .fire _ _ _ _ hdata
  | delete now item items =>
    cases c <;> simp only [timerStep, reduceCtorEq, Option.some.injEq, Prod.mk.injEq] at h
    obtain ⟨rfl, rfl⟩ := h
    exact .delete ..

theorem timedStep_spec {s s' : TimedMem T Q J} {t : T} {f : TimedFrame T Q J}
    {c : TimedChoice T Q J} {new : List (TimedFrame T Q J)}
    (h : timedStep s t f c = some (s', new)) : TimedStep s t f s' new := by
  cases f with
  | job f =>
    cases c with
    | job c =>
      simp only [timedStep, Option.map_eq_some_iff, Prod.mk.injEq] at h
      obtain ⟨r, hr, rfl, rfl⟩ := h
      exact .job _ _ _ (step_spec hr)
    | callReserve tickAfter owner job =>
      cases f <;> simp only [timedStep, reduceCtorEq, Option.some.injEq, Prod.mk.injEq] at h
      obtain ⟨rfl, rfl⟩ := h
      exact .callReserve ..
    | _ => cases f <;> simp [timedStep] at h
  | timer f =>
    have h' : timerStep s f c = some (s', new) := by
      cases c <;> exact h
    exact .timer _ _ _ (timerStep_spec h')

end Spec

end ServerCore.Jobs
