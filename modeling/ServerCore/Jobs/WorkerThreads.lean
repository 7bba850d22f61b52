import ServerCore.Database.DBLoadBalancer
import ServerCore.Jobs.TimedJobs

namespace ServerCore.Jobs

open Framework
open Database (dbReconnectTime)

inductive ThreadKind where
  /-- The thread of `ServerApp::Update`. -/
  | main
  /-- A thread that `ServerApp::InitWorkerThread` starts. -/
  | worker
  /-- A thread that `DBLoadBalancer::Launch` starts. -/
  | database
  deriving DecidableEq

/-- Positions inside the endless loops of the threads, over those inside the job system. -/
inductive LoopFrame (T Q J : Type) where
  | timed (f : TimedFrame T Q J)
  /-- Inside `ProcessDispatch`, `DBService::Execute` or what the main thread does before its loop:
  jobs are pushed and timers are set. -/
  | work
  /-- `LEndTickCount = GetTick64() + 64` is next. -/
  | setEndTick
  /-- `GetTick64()` of `DistributeJobs` is next. -/
  | distributeJobs
  /-- `DoGlobalJobs()` is next. -/
  | doGlobalJobs
  | sleep
  /-- `isConnected()` is next. -/
  | isConnected
  /-- `LEndTickCount < GetTick64()` is next. -/
  | backOff
  /-- `Connect` and `LEndTickCount = GetTick64() + DBRECONNECTTIME` are next. -/
  | connect
  deriving DecidableEq

inductive LoopChoice (T Q J : Type) where
  | go
  | timed (c : TimedChoice T Q J)
  | clock (now : ℤ)
  | connected (answer : Bool)
  | launch
  deriving DecidableEq

namespace ThreadKind

variable {T Q J : Type}

/-- Where the thread function starts. -/
def first : ThreadKind → LoopFrame T Q J
  | main | worker => .work
  | database => .isConnected

/-- The head of the endless loop. -/
def loopHead : ThreadKind → LoopFrame T Q J
  | main => .setEndTick
  | worker => .work
  | database => .isConnected

def afterWork : ThreadKind → LoopFrame T Q J
  | main => .setEndTick
  | worker => .distributeJobs
  | database => .sleep

end ThreadKind

section Steps

variable {T Q J : Type} [DecidableEq T] [DecidableEq Q] [DecidableEq J]

/-- The assignment to the thread's own `LEndTickCount`. -/
def TimedMem.setEndTick (s : TimedMem T Q J) (t : T) (tick : ℤ) : TimedMem T Q J :=
  { s with jobs := { s.jobs with LEndTickCount := Function.update s.jobs.LEndTickCount t tick } }

/-- One step of a thread. -/
def loopStep (kind : T → ThreadKind) (s : TimedMem T Q J) (t : T) :
    LoopFrame T Q J → LoopChoice T Q J → Option (TimedMem T Q J × List (LoopFrame T Q J))
  | .timed f, .timed c => (timedStep s t f c).map fun r => (r.1, r.2.map .timed)
  | .work, .timed (.job (.callPush q job pushOnly)) =>
      some (s, [.timed (.job (.push q job pushOnly)), .work])
  | .work, .timed (.callReserve tickAfter owner job) =>
      some (s, [.timed (.timer (.reserve tickAfter owner job)), .work])
  | .work, .go => some (s, [(kind t).afterWork])
  | .setEndTick, .clock now => some (s.setEndTick t (now + 64), [.distributeJobs])
  | .distributeJobs, .clock now =>
      some (s, [.timed (.timer (.distribute (now % 2 ^ 64).toNat)), .doGlobalJobs])
  | .doGlobalJobs, .go => some (s, [.timed (.job .globalJobs), .sleep])
  | .sleep, .go => some (s, [(kind t).loopHead])
  | .isConnected, .connected answer => some (s, [if answer then .work else .backOff])
  | .backOff, .clock now =>
      if s.jobs.LEndTickCount t < now then some (s, [.connect]) else some (s, [.work])
  | .connect, .clock now => some (s.setEndTick t (now + dbReconnectTime), [.isConnected])
  | _, _ => none

/-- A thread starts its function, once. -/
def loopEnter (kind : T → ThreadKind) (s : TimedMem T Q J) (frames : T → List (LoopFrame T Q J))
    (t : T) : LoopChoice T Q J → Option (TimedMem T Q J × LoopFrame T Q J)
  | .launch => if (frames t).isEmpty then some (s, (kind t).first) else none
  | _ => none

/-- The last owner of a queue lets go of it. -/
def loopEnv (s : TimedMem T Q J) : LoopChoice T Q J → Option (TimedMem T Q J)
  | .timed (.expire q) => timedEnv s (.expire q)
  | _ => none

/-- The threads of the server, each of its kind. -/
def loopMachine (kind : T → ThreadKind) :
    Machine T (TimedMem T Q J) (LoopFrame T Q J) (LoopChoice T Q J) :=
  ⟨loopEnter kind, loopStep kind, loopEnv⟩

abbrev LoopConf (T Q J : Type) : Type := Conf T (TimedMem T Q J) (LoopFrame T Q J)

def loopStart : LoopConf T Q J := ⟨.init, fun _ => []⟩

/-- The clock shows a positive time. -/
def positiveClock (_ : LoopConf T Q J) : Action T (LoopChoice T Q J) → Bool
  | .step _ (.clock now) | .step _ (.timed (.job (.clock now))) => decide (0 < now)
  | _ => true

/-- `DoGlobalJobs` of thread `t` executes queue `q`. -/
def executions (s : LoopConf T Q J) : Action T (LoopChoice T Q J) → List (T × Q)
  | .step t _ =>
      match s.frames t with
      | .timed (.job (.globalFound q)) :: _ => [(t, q)]
      | _ => []
  | _ => []

/-- The call of `DoGlobalJobs` that thread `t` has just entered executes a queue before it
returns, however the threads go on. -/
def ExecutesOne (kind : T → ThreadKind) (s : LoopConf T Q J) (t : T) : Prop :=
  ∀ s' es, (loopMachine kind).Logged (fun s a => positiveClock s a = true) executions s s' es →
    s'.frames t = (s.frames t).tail → ∃ q, (t, q) ∈ es

/-- Inside `DoGlobalJobs`, after the test of the time. -/
def TimedFrame.inTime : TimedFrame T Q J → Bool
  | .job .globalPop | .job (.globalFound _) => true
  | _ => false

/-- A position that a worker thread can get to. -/
def LoopFrame.ofWorker : LoopFrame T Q J → Bool
  | .timed f => !f.inTime
  | .setEndTick | .isConnected | .backOff | .connect => false
  | _ => true

omit [DecidableEq J] in
theorem Step.LEndTickCount {s s' : Mem T Q J} {t : T} {f : Frame T Q J} {new : List (Frame T Q J)}
    (h : Step s t f s' new) : s'.LEndTickCount = s.LEndTickCount := by
  cases h <;> rfl

/-- The job system and the timer do not assign `LEndTickCount`. -/
theorem TimedStep.LEndTickCount {s s' : TimedMem T Q J} {t : T} {f : TimedFrame T Q J}
    {new : List (TimedFrame T Q J)} (h : TimedStep s t f s' new) :
    s'.jobs.LEndTickCount = s.jobs.LEndTickCount := by
  cases h with
  | job f jobs new h => exact h.LEndTickCount
  | callReserve q jobCount jobs tickAfter owner job => rfl
  | timer f s' new h => cases h <;> rfl

/-- Only `DoGlobalJobs` gets past its test of the time. -/
theorem TimedStep.inTime {s s' : TimedMem T Q J} {t : T} {f : TimedFrame T Q J}
    {new : List (TimedFrame T Q J)} (h : TimedStep s t f s' new) (hout : f.inTime = false)
    (hf : f ≠ .job .globalJobs) : ∀ g ∈ new, g.inTime = false := by
  cases h with
  | job f jobs new h =>
    cases h <;> simp_all [TimedFrame.inTime]
  | callReserve q jobCount jobs tickAfter owner job => simp [TimedFrame.inTime]
  | timer f s' new h =>
    cases h <;> simp [TimedFrame.inTime]

/-- What a worker thread does never leads past the test of the time. -/
theorem loopStep_ofWorker {kind : T → ThreadKind} {s s' : TimedMem T Q J} {t : T}
    {f : LoopFrame T Q J} {c : LoopChoice T Q J} {new : List (LoopFrame T Q J)}
    (hkind : kind t = .worker) (hend : s.jobs.LEndTickCount t = 0) (hf : f.ofWorker = true)
    (hclock : ∀ now, c = .timed (.job (.clock now)) → 0 < now)
    (h : loopStep kind s t f c = some (s', new)) :
    s'.jobs.LEndTickCount = s.jobs.LEndTickCount ∧ ∀ g ∈ new, g.ofWorker = true := by
  cases f with
  | timed f =>
    cases c with
    | timed c =>
      simp only [loopStep, Option.map_eq_some_iff, Prod.mk.injEq] at h
      obtain ⟨⟨mem, fs⟩, hstep, rfl, rfl⟩ := h
      have hspec := timedStep_spec hstep
      refine ⟨hspec.LEndTickCount, ?_⟩
      by_cases hglobal : f = .job .globalJobs
      · subst hglobal
        cases c with
        | job c =>
          cases c with
          | clock now =>
            have hnow := hclock now rfl
            simp only [timedStep, step, globalJobsStep, hend, hnow, if_true, Option.map_some,
              Option.some.injEq, Prod.mk.injEq] at hstep
            obtain ⟨_, rfl⟩ := hstep
            simp
          | _ => simp [timedStep, step, globalJobsStep] at hstep
        | _ => simp [timedStep] at hstep
      · have hout : f.inTime = false := by simpa [LoopFrame.ofWorker] using hf
        have hnew := hspec.inTime hout hglobal
        intro g hg
        obtain ⟨g', hg', rfl⟩ := List.mem_map.mp hg
        simp [LoopFrame.ofWorker, hnew g' hg']
    | _ => simp [loopStep] at h
  | work =>
    rcases c with _ | c | _ | _ | _
    · simp only [loopStep, hkind, ThreadKind.afterWork, Option.some.injEq, Prod.mk.injEq] at h
      obtain ⟨rfl, rfl⟩ := h
      simp [LoopFrame.ofWorker]
    · cases c with
      | job c =>
        cases c <;> simp only [loopStep, reduceCtorEq, Option.some.injEq, Prod.mk.injEq] at h
        obtain ⟨rfl, rfl⟩ := h
        simp [LoopFrame.ofWorker, TimedFrame.inTime]
      | callReserve tickAfter owner job =>
        simp only [loopStep, Option.some.injEq, Prod.mk.injEq] at h
        obtain ⟨rfl, rfl⟩ := h
        simp [LoopFrame.ofWorker, TimedFrame.inTime]
      | _ => simp [loopStep] at h
    · simp [loopStep] at h
    · simp [loopStep] at h
    · simp [loopStep] at h
  | distributeJobs =>
    cases c <;> simp only [loopStep, reduceCtorEq, Option.some.injEq, Prod.mk.injEq] at h
    obtain ⟨rfl, rfl⟩ := h
    simp [LoopFrame.ofWorker, TimedFrame.inTime]
  | doGlobalJobs =>
    cases c <;> simp only [loopStep, reduceCtorEq, Option.some.injEq, Prod.mk.injEq] at h
    obtain ⟨rfl, rfl⟩ := h
    simp [LoopFrame.ofWorker, TimedFrame.inTime]
  | sleep =>
    cases c <;> simp only [loopStep, hkind, ThreadKind.loopHead, reduceCtorEq, Option.some.injEq,
      Prod.mk.injEq] at h
    obtain ⟨rfl, rfl⟩ := h
    simp [LoopFrame.ofWorker]
  | _ => simp [LoopFrame.ofWorker] at hf

/-- A step of another thread leaves `LEndTickCount` of this one as it is. -/
theorem loopStep_other {kind : T → ThreadKind} {s s' : TimedMem T Q J} {t u : T}
    {f : LoopFrame T Q J} {c : LoopChoice T Q J} {new : List (LoopFrame T Q J)} (hu : u ≠ t)
    (h : loopStep kind s t f c = some (s', new)) :
    s'.jobs.LEndTickCount u = s.jobs.LEndTickCount u := by
  unfold loopStep at h
  split at h
  · simp only [Option.map_eq_some_iff, Prod.mk.injEq] at h
    obtain ⟨⟨mem, fs⟩, hstep, rfl, _⟩ := h
    rw [(timedStep_spec hstep).LEndTickCount]
  all_goals try split at h
  all_goals simp only [reduceCtorEq, Option.some.injEq, Prod.mk.injEq] at h
  all_goals obtain ⟨rfl, _⟩ := h
  all_goals simp [TimedMem.setEndTick, hu]

/-- A worker thread has never assigned its `LEndTickCount`, and has never got past the test of the
time in `DoGlobalJobs`. -/
def WorkerWaits (kind : T → ThreadKind) (s : LoopConf T Q J) : Prop :=
  ∀ t, kind t = .worker → s.mem.jobs.LEndTickCount t = 0 ∧ ∀ f ∈ s.frames t, f.ofWorker = true

theorem workerWaits_next {kind : T → ThreadKind} {s s' : LoopConf T Q J}
    {a : Action T (LoopChoice T Q J)} (hs : WorkerWaits kind s) (hclock : positiveClock s a = true)
    (h : (loopMachine kind).next s a = some s') : WorkerWaits kind s' := by
  intro u hu
  obtain ⟨hend, hframes⟩ := hs u hu
  rcases Machine.next_cases h with ⟨t, c, mem, f, rfl, he, rfl⟩ |
    ⟨t, c, f, fs, mem, new, rfl, hf, he, rfl⟩ | ⟨c, mem, rfl, he, rfl⟩
  · simp only [loopMachine, loopEnter] at he
    split at he
    · split at he <;> simp only [reduceCtorEq, Option.some.injEq, Prod.mk.injEq] at he
      obtain ⟨rfl, rfl⟩ := he
      refine ⟨hend, ?_⟩
      by_cases ht : u = t
      · subst ht
        intro g hg
        simp only [Function.update_self] at hg
        rcases List.mem_cons.mp hg with rfl | hg
        · simp [hu, ThreadKind.first, LoopFrame.ofWorker]
        · exact hframes g hg
      · simp only [Function.update_of_ne ht]
        exact hframes
    · simp at he
  · by_cases ht : u = t
    · subst ht
      have hpositive : ∀ now, c = .timed (.job (.clock now)) → 0 < now := by
        rintro now rfl
        simpa [positiveClock] using hclock
      have htop : f.ofWorker = true := hframes f (hf ▸ List.mem_cons_self)
      obtain ⟨hkept, hnew⟩ := loopStep_ofWorker hu hend htop hpositive he
      refine ⟨by rw [hkept, hend], ?_⟩
      intro g hg
      simp only [Function.update_self] at hg
      rcases List.mem_append.mp hg with hg | hg
      · exact hnew g hg
      · exact hframes g (hf ▸ List.mem_cons_of_mem f hg)
    · refine ⟨by rw [loopStep_other ht he, hend], ?_⟩
      simp only [Function.update_of_ne ht]
      exact hframes
  · simp only [loopMachine, loopEnv] at he
    split at he
    · simp only [timedEnv, Option.some.injEq] at he
      subst he
      exact ⟨hend, hframes⟩
    · simp at he

theorem workerWaits_reach {kind : T → ThreadKind} {s : LoopConf T Q J}
    (h : (loopMachine kind).Reach (fun s a => positiveClock s a = true) loopStart s) :
    WorkerWaits kind s := by
  refine h.invariant (WorkerWaits kind) ?_ fun _ _ _ _ ih hclock hnext =>
    workerWaits_next ih hclock hnext
  intro t _
  simp [loopStart, TimedMem.init, Mem.init]

/-- From a state in which the worker threads wait on, they execute no queue. -/
theorem executes_none {kind : T → ThreadKind} {s s' : LoopConf T Q J} {es : List (T × Q)} {t : T}
    (hs : WorkerWaits kind s) (hkind : kind t = .worker)
    (h : (loopMachine kind).Logged (fun s a => positiveClock s a = true) executions s s' es) :
    ∀ q, (t, q) ∉ es := by
  have hboth : WorkerWaits kind s' ∧ ∀ q, (t, q) ∉ es := by
    refine h.invariant (fun s es => WorkerWaits kind s ∧ ∀ q, (t, q) ∉ es) ⟨hs, by simp⟩ ?_
    intro s a s' es _ ih hclock hnext
    refine ⟨workerWaits_next ih.1 hclock hnext, ?_⟩
    intro q hq
    rcases List.mem_append.mp hq with hq | hq
    · exact ih.2 q hq
    · unfold executions at hq
      split at hq
      · next u c =>
        split at hq
        · next p fs hf =>
          obtain ⟨rfl, rfl⟩ := Prod.mk.inj (List.mem_singleton.mp hq)
          have hnot := (ih.1 t hkind).2 _ (hf ▸ List.mem_cons_self)
          simp [LoopFrame.ofWorker, TimedFrame.inTime] at hnot
        · simp at hq
      · simp at hq
  exact hboth.2

/-- The first test of the time in `DoGlobalJobs` finds the `LEndTickCount` that a worker thread never
assigned. -/
theorem returns_at_once {kind : T → ThreadKind} {s : LoopConf T Q J} {t : T}
    {fs : List (LoopFrame T Q J)} (hs : WorkerWaits kind s) (hkind : kind t = .worker)
    (hf : s.frames t = .timed (.job .globalJobs) :: fs) {now : ℤ} (hnow : 0 < now) :
    (loopMachine kind).next s (.step t (.timed (.job (.clock now)))) =
      some ⟨s.mem, Function.update s.frames t fs⟩ := by
  have hend := (hs t hkind).1
  simp [Machine.next, hf, loopMachine, loopStep, timedStep, step, globalJobsStep, hend, hnow]

theorem not_executesOne {kind : T → ThreadKind} {s : LoopConf T Q J} {t : T}
    {fs : List (LoopFrame T Q J)} (hs : WorkerWaits kind s) (hkind : kind t = .worker)
    (hf : s.frames t = .timed (.job .globalJobs) :: fs) : ¬ExecutesOne kind s t := by
  intro hone
  have hlog : (loopMachine kind).Logged (fun s a => positiveClock s a = true) executions s
      ⟨s.mem, Function.update s.frames t fs⟩
      ([] ++ executions s (.step t (.timed (.job (.clock 1))))) :=
    .next .start rfl (returns_at_once hs hkind hf Int.one_pos)
  obtain ⟨q, hq⟩ := hone _ _ hlog (by simp [hf])
  exact executes_none hs hkind hlog q hq

/-- A worker thread executes no queue in any call of `DoGlobalJobs`: each returns at once. -/
theorem worker_executes_none {kind : T → ThreadKind} {s : LoopConf T Q J} {t : T}
    {fs : List (LoopFrame T Q J)}
    (h : (loopMachine kind).Reach (fun s a => positiveClock s a = true) loopStart s)
    (hkind : kind t = .worker) (hf : s.frames t = .timed (.job .globalJobs) :: fs) :
    ¬ExecutesOne kind s t ∧
    (∀ s' es, (loopMachine kind).Logged (fun s a => positiveClock s a = true) executions s s' es →
      ∀ q, (t, q) ∉ es) ∧
    ∀ now, 0 < now → (loopMachine kind).next s (.step t (.timed (.job (.clock now)))) =
      some ⟨s.mem, Function.update s.frames t fs⟩ := by
  have hwaits := workerWaits_reach h
  refine ⟨not_executesOne hwaits hkind hf, ?_, ?_⟩
  · intro s' es hlog
    exact executes_none hwaits hkind hlog
  · intro now hnow
    exact returns_at_once hwaits hkind hf hnow

end Steps

/-- A packet handler pushes a job onto the only queue, which is handed over to `GlobalQueue`, and
the worker thread goes on to `DoGlobalJobs`. -/
def handedOver : List (Action Unit (LoopChoice Unit Unit Unit)) :=
  [.enter () .launch, .step () (.timed (.job (.callPush () () true))),
    .step () (.timed (.job .go)), .step () (.timed (.job .go)), .step () (.timed (.job .go)),
    .step () (.timed (.job .go)), .step () .go, .step () (.clock 1000), .step () (.timed .go),
    .step () (.timed (.pop none)), .step () (.timed .go), .step () .go]

/-- The only thread is a worker that has entered `DoGlobalJobs`. -/
def oneWorker : LoopConf Unit Unit Unit :=
  (loopMachine fun _ => .worker).finalChecked positiveClock loopStart handedOver (by decide)

theorem oneWorker_executes_none : oneWorker.mem.jobs.mJobQueues ≠ [] ∧
    ¬ExecutesOne (fun _ => .worker) oneWorker () :=
  ⟨by decide, (worker_executes_none (Machine.reach_finalChecked _ _ _ handedOver (by decide)) rfl
    rfl).1⟩

theorem workers_do_not_share : ¬∀ (s : LoopConf Unit Unit Unit)
    (fs : List (LoopFrame Unit Unit Unit)),
    (loopMachine fun _ => .worker).Reach (fun s a => positiveClock s a = true) loopStart s →
    s.frames () = .timed (.job .globalJobs) :: fs → s.mem.jobs.mJobQueues ≠ [] →
    ExecutesOne (fun _ => .worker) s () := by
  intro claim
  have hreach : (loopMachine fun _ => .worker).Reach (fun s a => positiveClock s a = true) loopStart
      oneWorker := Machine.reach_finalChecked _ _ _ handedOver (by decide)
  exact not_executesOne (workerWaits_reach hreach) rfl rfl
    (claim oneWorker [.sleep] hreach rfl (by decide))

end ServerCore.Jobs
