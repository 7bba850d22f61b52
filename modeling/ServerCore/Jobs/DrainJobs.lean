import ServerCore.Jobs.JobQueueInvariant

namespace ServerCore.Jobs

open Framework ConcurrentQueue

variable {T Q J : Type}

namespace Frame

/-- Positions inside `DoGlobalJobs` itself. -/
def global : Frame T Q J → Prop
  | .globalJobs | .globalPop | .globalFound _ => True
  | _ => False

/-- The frame is a `Push` that has not counted its job. -/
def calls : Frame T Q J → ℕ
  | .push .. => 1
  | _ => 0

/-- What a frame has left to do, where a job in a queue takes five and a queue handed over six. -/
def effort : Frame T Q J → ℕ
  | .push .. => 15
  | .enqueue .. => 14
  | .decide .. => 8
  | .handOver _ => 7
  | .execute _ => 3
  | .drain _ => 2
  | .batch _ _ jobs => 2 * jobs.length + 4
  | .running _ _ jobs => 2 * jobs.length + 5
  | .timeCheck _ => 3
  | .globalJobs => 2
  | .globalPop => 1
  | .globalFound _ => 6

end Frame

section Effort

variable [Fintype Q]

/-- Jobs that were pushed so far, to any queue. -/
def Mem.pushes (s : Mem T Q J) : ℕ := ∑ q, (s.pushed q).length

/-- Jobs that are in a queue. -/
def Mem.waiting (s : Mem T Q J) : ℕ := ∑ q, (s.mJobQueue q).length

/-- What a thread with stack `fs` has left to do when no more than `N` jobs are ever pushed. -/
def Mem.effort (N : ℕ) (s : Mem T Q J) (fs : List (Frame T Q J)) : ℕ :=
  16 * (N - (s.pushes + stackWeight Frame.calls fs)) + 5 * s.waiting + 6 * s.mJobQueues.length +
    stackWeight Frame.effort fs

variable [DecidableEq T] [DecidableEq Q]

/-- The clock of thread `t` has not reached its `LEndTickCount`, queues hand out what they hold, and
job bodies push until `N` jobs were pushed. -/
structure Undisturbed (N : ℕ) (t : T) (s : Conf T (Mem T Q J) (Frame T Q J))
    (a : Action T (Choice T Q J)) : Prop where
  time : ∀ now, a = .step t (.clock now) → now < s.mem.LEndTickCount t
  pop : a = .step t (.pop none) → s.mem.mJobQueues = []
  take : ∀ q fs, s.frames t = .drain q :: fs → a = .step t (.take []) → s.mem.mJobQueue q = []
  pushes : ∀ q job pushOnly, a = .step t (.callPush q job pushOnly) → s.mem.pushes < N

variable {s s' : Mem T Q J} {t : T} {f : Frame T Q J} {new fs : List (Frame T Q J)} {N : ℕ}

omit [DecidableEq T] in
theorem pushes_fetchAdd (s : Mem T Q J) (t : T) (q : Q) (job : J) :
    (s.fetchAdd t q job).pushes = s.pushes + 1 := by
  have hsum := sum_update List.length s.pushed q ((s.pushed q).enqueue t job)
  simp only [ConcurrentQueue.enqueue, List.length_append, List.length_singleton] at hsum
  simp only [Mem.pushes, Mem.fetchAdd, ConcurrentQueue.enqueue]
  omega

omit [DecidableEq T] in
theorem waiting_enqueueJob (s : Mem T Q J) (t : T) (q : Q) (job : J) :
    (s.enqueueJob t q job).waiting = s.waiting + 1 := by
  have hsum := sum_update List.length s.mJobQueue q ((s.mJobQueue q).enqueue t job)
  simp only [ConcurrentQueue.enqueue, List.length_append, List.length_singleton] at hsum
  simp only [Mem.waiting, Mem.enqueueJob, ConcurrentQueue.enqueue]
  omega

omit [DecidableEq T] in
theorem waiting_dequeued {q : Q} {jobs rest : ConcurrentQueue T J}
    (h : (s.mJobQueue q).Perm (jobs ++ rest)) :
    (s.dequeued q jobs rest).waiting + jobs.length = s.waiting := by
  have hsum := sum_update List.length s.mJobQueue q rest
  have hlen := h.length_eq
  rw [List.length_append] at hlen
  simp only [Mem.waiting, Mem.dequeued]
  omega

omit [DecidableEq T] [DecidableEq Q] in
/-- A step that leaves all queues as they are makes progress in its frame. -/
theorem Mem.effort_lt (fs : List (Frame T Q J)) (hpushes : s'.pushes = s.pushes)
    (hwaiting : s'.waiting = s.waiting) (hqueues : s'.mJobQueues = s.mJobQueues)
    (hcalls : stackWeight Frame.calls new = f.calls)
    (heffort : stackWeight Frame.effort new < f.effort) :
    s'.effort N (new ++ fs) < s.effort N (f :: fs) := by
  simp only [Mem.effort, stackWeight_append, stackWeight_cons, hpushes, hwaiting, hqueues, hcalls]
  omega

/-- Every step leaves less to do, unless it gives up a queue for lack of time, finds a queue of jobs
empty or pushes more than `N` jobs. -/
theorem Step.effort (h : Step s t f s' new) (htime : ∀ q, f = .timeCheck q → new = [.drain q])
    (htake : ∀ q n jobs, f = .drain q → new = [.batch q n jobs] → jobs ≠ [])
    (hpush : ∀ q job pushOnly, new = [.push q job pushOnly, f] →
      s.pushes + stackWeight Frame.calls (f :: fs) < N) :
    s'.effort N (new ++ fs) < s.effort N (f :: fs) := by
  cases h with
  | push q job pushOnly =>
    have hpushes := pushes_fetchAdd s t q job
    have hwaiting : (s.fetchAdd t q job).waiting = s.waiting := rfl
    have hqueues : (s.fetchAdd t q job).mJobQueues = s.mJobQueues := rfl
    simp only [Mem.effort, stackWeight_append, stackWeight_cons, stackWeight_nil, Frame.calls,
      Frame.effort, hpushes, hwaiting, hqueues]
    omega
  | enqueue q job pushOnly prevCount =>
    have hpushes : (s.enqueueJob t q job).pushes = s.pushes := rfl
    have hwaiting := waiting_enqueueJob s t q job
    have hqueues : (s.enqueueJob t q job).mJobQueues = s.mJobQueues := rfl
    simp only [Mem.effort, stackWeight_append, stackWeight_cons, stackWeight_nil, Frame.calls,
      Frame.effort, hpushes, hwaiting, hqueues]
    omega
  | handOver q =>
    have hpushes : (s.globalPush t q).pushes = s.pushes := rfl
    have hwaiting : (s.globalPush t q).waiting = s.waiting := rfl
    have hqueues : (s.globalPush t q).mJobQueues.length = s.mJobQueues.length + 1 := by
      simp [Mem.globalPush, ConcurrentQueue.enqueue]
    simp only [Mem.effort, stackWeight_append, stackWeight_cons, stackWeight_nil, Frame.calls,
      Frame.effort, hpushes, hwaiting, hqueues]
    omega
  | drain q jobs rest hperm horder =>
    have hpos := List.length_pos_of_ne_nil (htake q jobs.length jobs rfl rfl)
    have hpushes : (s.dequeued q jobs rest).pushes = s.pushes := rfl
    have hwaiting := waiting_dequeued hperm
    have hqueues : (s.dequeued q jobs rest).mJobQueues = s.mJobQueues := rfl
    simp only [Mem.effort, stackWeight_append, stackWeight_cons, stackWeight_nil, Frame.calls,
      Frame.effort, hpushes, hqueues]
    omega
  | globalPop q p rest hperm =>
    have hpushes : Mem.pushes { s with mJobQueues := rest } = s.pushes := rfl
    have hwaiting : Mem.waiting { s with mJobQueues := rest } = s.waiting := rfl
    have hqueues : s.mJobQueues.length = rest.length + 1 := hperm.length_eq
    simp only [Mem.effort, stackWeight_append, stackWeight_cons, stackWeight_nil, Frame.calls,
      Frame.effort, hpushes, hwaiting, hqueues]
    omega
  | callPush q jobCount jobs q' job pushOnly =>
    have hlt := hpush q' job pushOnly rfl
    simp only [Mem.effort, List.cons_append, List.nil_append, stackWeight_cons, Frame.calls,
      Frame.effort] at hlt ⊢
    omega
  | timeOver q => exact absurd (htime q rfl) (by simp)
  | globalLeave f hf =>
    rcases hf with rfl | rfl <;> exact Mem.effort_lt fs rfl rfl rfl rfl (by simp [Frame.effort])
  | startJob q jobCount job jobs =>
    refine Mem.effort_lt fs rfl rfl rfl rfl ?_
    simp only [stackWeight_cons, stackWeight_nil, Frame.effort, List.length_cons]
    omega
  | _ => exact Mem.effort_lt fs rfl rfl rfl rfl (by simp [Frame.effort])

end Effort

section Steps

variable [DecidableEq T] [DecidableEq Q] {s s' : Mem T Q J} {t : T} {f : Frame T Q J}
  {c : Choice T Q J} {new : List (Frame T Q J)}

/-- `DoGlobalJobs` returns for lack of time or of queues. -/
theorem global_return (h : step s t f c = some (s', [])) (hf : f.global) :
    s' = s ∧ (c = .pop none ∨ ∃ now, c = .clock now ∧ s.LEndTickCount t < now) := by
  cases f with
  | globalJobs =>
    cases c <;> simp only [step, globalJobsStep, reduceCtorEq] at h
    split at h
    · next now hover => simp_all
    · simp at h
  | globalPop =>
    cases c with
    | pop p =>
      cases p with
      | none => simp_all [step, globalJobsStep]
      | some p => simp [step, globalJobsStep] at h
    | _ => simp [step, globalJobsStep] at h
  | globalFound q => cases c <;> simp [step, globalJobsStep] at h
  | _ => exact hf.elim

/-- `DoGlobalJobs` stays below what it calls. -/
theorem Step.global (h : Step s t f s' new) (hf : f.global) :
    ∀ g, new.getLast? = some g → g.global := by
  cases h <;> first | exact hf.elim | simp [Frame.global]

theorem timeCheck_choice {q : Q} (h : step s t (.timeCheck q) c = some (s', new)) :
    new = [.drain q] ∨ ∃ now, c = .clock now ∧ s.LEndTickCount t ≤ now := by
  cases c <;> simp only [step, executeStep, reduceCtorEq] at h
  split at h
  · next now hover => exact .inr ⟨now, rfl, hover⟩
  · exact .inl (Prod.mk.inj (Option.some.inj h)).2.symm

theorem drain_choice {q : Q} (h : step s t (.drain q) c = some (s', new)) :
    ∃ producers, c = .take producers ∧
      ∀ q' n jobs, new = [.batch q' n jobs] → jobs.length = producers.length := by
  cases c <;> simp only [step, executeStep, reduceCtorEq] at h
  split at h
  · simp only [Option.map_eq_some_iff, Prod.mk.injEq] at h
    obtain ⟨⟨jobs, rest⟩, htake, _, rfl⟩ := h
    refine ⟨_, rfl, ?_⟩
    intro q' n jobs' heq
    obtain ⟨_, _, rfl⟩ := Frame.batch.inj (List.singleton_inj.mp heq)
    exact takeBulk_length htake
  · simp at h

theorem push_choice {g : Frame T Q J} {q : Q} {job : J} {pushOnly : Bool}
    (h : step s t f c = some (s', [.push q job pushOnly, g])) :
    c = .callPush q job pushOnly ∧ f.Suspended := by
  cases f with
  | running q' n jobs => cases c <;> simp_all [step, executeStep, Frame.Suspended]
  | _ => cases step_spec h

end Steps

section Drain

variable [Fintype T] [Fintype Q] [DecidableEq T] [DecidableEq Q]
  {s s' : Conf T (Mem T Q J) (Frame T Q J)} {t : T} {f : Frame T Q J} {fs : List (Frame T Q J)}
  {N : ℕ}

/-- Thread `t` is alone, in `DoGlobalJobs` or back from it with no queue left. -/
structure Draining (t : T) (s : Conf T (Mem T Q J) (Frame T Q J)) : Prop where
  reachable : Reachable s
  alone : ∀ u, u ≠ t → s.frames u = []
  inside : ∀ f, (s.frames t).getLast? = some f → f.global
  empty : s.frames t = [] → s.mem.mJobQueues = []

omit [DecidableEq T] [Fintype Q] [DecidableEq Q] in
theorem weight_alone {F : Type} (w : F → ℕ) {frames : T → List F} (h : ∀ u, u ≠ t → frames u = []) :
    weight w frames = stackWeight w (frames t) := by
  refine Finset.sum_eq_single t ?_ fun ht => absurd (Finset.mem_univ t) ht
  intro u _ hu
  rw [h u hu, stackWeight_nil]

omit [Fintype Q] in
/-- A thread that is alone when it comes to a queue finds jobs in it. -/
theorem Draining.nonempty (h : Draining t s) {q : Q} (hs : s.frames t = .drain q :: fs) :
    s.mem.mJobQueue q ≠ [] := by
  have hi := h.reachable.inv
  have htoken := hi.tokens_le q
  have hweight := weight_alone (Frame.token q) h.alone
  have hload := weight_alone (Frame.load q) h.alone
  rw [hs, stackWeight_cons] at hweight hload
  simp only [Frame.token, if_true] at hweight
  have hnone : stackWeight (Frame.load q) fs = 0 := by
    apply stackWeight_eq_zero
    intro g hg
    have hsuspended : g.Suspended := by
      have htail := hi.suspended t
      rw [hs, List.tail_cons] at htail
      exact htail g hg
    have hle := le_stackWeight (Frame.token q) hg
    cases g with
    | running q' n jobs =>
      simp only [Frame.token] at hle
      by_cases hq : q' = q
      · rw [if_pos hq] at hle
        omega
      · exact if_neg hq
    | globalJobs => rfl
    | _ => exact hsuspended.elim
  have htokens := hi.token q
  have hcount := hi.count q
  have hpresent : s.mem.mJobCount q ≠ 0 := by
    intro hzero
    rw [hzero, present_zero, tokens] at htokens
    omega
  intro hempty
  rw [hempty, List.length_nil, hload, hnone] at hcount
  exact hpresent (by simpa [Frame.load] using hcount)

omit [Fintype T] in
/-- Thread `t` is never blocked. -/
theorem undisturbed_step (hs : s.frames t = f :: fs) :
    ∃ c, Undisturbed N t s (.step t c) ∧ (Jobs.step s.mem t f c).isSome := by
  have hgo : Undisturbed N t s (.step t .go) := by constructor <;> simp
  cases f with
  | decide q pushOnly prevCount =>
    refine ⟨.go, hgo, ?_⟩
    simp only [Jobs.step, pushStep]
    split_ifs <;> rfl
  | drain q =>
    have htake := takeBulk_oldest 1 (s.mem.mJobQueue q)
    have hlen : (((s.mem.mJobQueue q).take 1).map Prod.fst).length ≤ bulkDequeueJobCount := by
      rw [List.length_map, List.length_take, bulkDequeueJobCount]
      omega
    refine ⟨.take (((s.mem.mJobQueue q).take 1).map Prod.fst), ?_, ?_⟩
    · constructor <;> simp [hs]
    · simp only [Jobs.step, executeStep, if_pos hlen, htake, Option.map_some, Option.isSome_some]
  | batch q n jobs =>
    refine ⟨.go, hgo, ?_⟩
    cases jobs with
    | nil =>
      simp only [Jobs.step, executeStep]
      split_ifs <;> rfl
    | cons job jobs => rfl
  | timeCheck q =>
    refine ⟨.clock (s.mem.LEndTickCount t - 1), ?_, ?_⟩
    · constructor <;> simp
    · simp only [Jobs.step, executeStep]
      split_ifs <;> rfl
  | globalJobs =>
    refine ⟨.clock (s.mem.LEndTickCount t - 1), ?_, ?_⟩
    · constructor <;> simp
    · simp only [Jobs.step, globalJobsStep]
      split_ifs <;> rfl
  | globalPop =>
    cases hqueues : s.mem.mJobQueues with
    | nil =>
      refine ⟨.pop none, ?_, rfl⟩
      constructor <;> simp [hqueues]
    | cons e rest =>
      refine ⟨.pop (some e.1), ?_, ?_⟩
      · constructor <;> simp
      · simp [Jobs.step, globalJobsStep, hqueues, takeFrom]
  | _ => exact ⟨.go, hgo, rfl⟩

omit [Fintype T] [Fintype Q] in
/-- A step takes thread `t` out of `DoGlobalJobs` only when no queue is left. -/
theorem Draining.next (h : Draining t s) {c : Choice T Q J} {mem : Mem T Q J}
    {new : List (Frame T Q J)} (hs : s.frames t = f :: fs)
    (hstep : Jobs.step s.mem t f c = some (mem, new))
    (hnext : Reachable ⟨mem, Function.update s.frames t (new ++ fs)⟩)
    (htime : ∀ now, c = .clock now → now < s.mem.LEndTickCount t)
    (hpop : c = .pop none → s.mem.mJobQueues = []) :
    Draining t ⟨mem, Function.update s.frames t (new ++ fs)⟩ := by
  refine ⟨hnext, ?_, ?_, ?_⟩
  · intro u hu
    dsimp only
    rw [Function.update_of_ne hu]
    exact h.alone u hu
  · intro g hg
    dsimp only at hg
    rw [Function.update_self] at hg
    cases fs with
    | nil =>
      rw [List.append_nil] at hg
      exact (step_spec hstep).global (h.inside f (by rw [hs]; rfl)) g hg
    | cons f' fs =>
      apply h.inside g
      rw [hs, List.getLast?_cons_cons]
      rwa [List.getLast?_append_cons] at hg
  · intro hempty
    dsimp only at hempty ⊢
    rw [Function.update_self] at hempty
    obtain ⟨rfl, rfl⟩ := List.append_eq_nil_iff.mp hempty
    obtain ⟨rfl, rfl | ⟨now, rfl, hover⟩⟩ := global_return hstep (h.inside f (by rw [hs]; rfl))
    · exact hpop rfl
    · have hleft := htime now rfl
      omega

omit [Fintype Q] in
/-- Back from `DoGlobalJobs` the thread has left nothing to do. -/
theorem Draining.done (h : Draining t s) (hs : s.frames t = []) (q : Q) :
    s.mem.mJobCount q = 0 ∧ s.mem.mJobQueue q = [] ∧
      ∀ p, ofProducer p (s.mem.ran q) = ofProducer p (s.mem.pushed q) := by
  have hi := h.reachable.inv
  have hweight (w : Frame T Q J → ℕ) : weight w s.frames = 0 := by
    rw [weight_alone w h.alone, hs, stackWeight_nil]
  have htoken := hi.token q
  rw [tokens, hweight, h.empty hs] at htoken
  have hzero : s.mem.mJobCount q = 0 := by
    by_contra hne
    rw [present_ne hne] at htoken
    exact absurd htoken (by simp [entries])
  have hcount := hi.count q
  rw [hzero, hweight] at hcount
  refine ⟨hzero, ?_, hi.drained q hzero⟩
  apply List.eq_nil_of_length_eq_zero
  omega

/-- From every reached state in which no other thread is at work, a thread in `DoGlobalJobs` that
has time runs every job that was pushed to any queue, those included that the jobs push. -/
theorem global_jobs_drain (h : Reachable s) (t : T) (halone : ∀ u, u ≠ t → s.frames u = [])
    {f : Frame T Q J} (hinside : (s.frames t).getLast? = some f) (hf : f.global) (N : ℕ) :
    machine.Leads (Undisturbed N t) t (fun s' => s'.frames t = [] ∧ s'.mem.mJobQueues = [] ∧
      ∀ q, s'.mem.mJobCount q = 0 ∧ s'.mem.mJobQueue q = [] ∧
        ∀ p, ofProducer p (s'.mem.ran q) = ofProducer p (s'.mem.pushed q)) s := by
  have hstart : Draining t s := by
    refine ⟨h, halone, ?_, ?_⟩
    · intro g hg
      obtain rfl := Option.some.inj (hinside.symm.trans hg)
      exact hf
    · intro hempty
      rw [hempty] at hinside
      exact absurd hinside (by simp)
  refine Machine.leads_of_effort (Draining t) (fun s => s.mem.effort N (s.frames t))
    ?progress ?keep hstart
  case progress =>
    intro s h
    cases hs : s.frames t with
    | nil => exact .inl ⟨rfl, h.empty hs, h.done hs⟩
    | cons f fs =>
      obtain ⟨c, hc, hstep⟩ := undisturbed_step (N := N) hs
      obtain ⟨s', hs'⟩ := Machine.next_of_isSome (m := machine) hs hstep
      exact .inr ⟨c, s', hc, hs'⟩
  case keep =>
    intro s c s' h hc hs'
    have hreach : Reachable s' := Machine.Reach.next h.reachable trivial hs'
    obtain ⟨f, fs, mem, new, hs, hstep, rfl⟩ := Machine.next_step_cases hs'
    have htime (now : ℤ) (hclock : c = .clock now) : now < s.mem.LEndTickCount t :=
      hc.time now (by rw [hclock])
    refine ⟨h.next hs hstep hreach htime fun hpop => hc.pop (by rw [hpop]), ?_⟩
    dsimp only
    rw [Function.update_self, hs]
    apply (step_spec hstep).effort
    · rintro q rfl
      rcases timeCheck_choice hstep with hdrain | ⟨now, hclock, hover⟩
      · exact hdrain
      · have hleft := htime now hclock
        omega
    · rintro q n jobs rfl rfl hnone
      obtain ⟨producers, rfl, hlen⟩ := drain_choice hstep
      have hnil : producers = [] := by
        apply List.eq_nil_of_length_eq_zero
        rw [← hlen q n jobs rfl, hnone, List.length_nil]
      exact h.nonempty hs (hc.take q fs hs (by rw [hnil]))
    · rintro q job pushOnly rfl
      obtain ⟨rfl, hsuspended⟩ := push_choice hstep
      have hlt := hc.pushes q job pushOnly rfl
      have hnone : stackWeight Frame.calls (f :: fs) = 0 := by
        apply stackWeight_eq_zero
        intro g hg
        have hsusp : g.Suspended := by
          rcases List.mem_cons.mp hg with rfl | hg
          · exact hsuspended
          · have htail := h.reachable.inv.suspended t
            rw [hs, List.tail_cons] at htail
            exact htail g hg
        cases g <;> first | rfl | exact hsusp.elim
      omega

end Drain

/-- One thread hands over a queue with a job, and another enters `DoGlobalJobs`. -/
def queueHanded : List (Action Bool (Choice Bool Unit ℕ)) :=
  [.enter false (.callPush () 1 true), .step false .go, .step false .go, .step false .go,
    .step false .go, .enter true .callGlobalJobs]

theorem global_jobs_drain_queueHanded :
    machine.Leads (Undisturbed 3 true) true (fun s' => s'.frames true = [] ∧
      s'.mem.mJobQueues = [] ∧ ∀ q, s'.mem.mJobCount q = 0 ∧ s'.mem.mJobQueue q = [] ∧
        ∀ p, ofProducer p (s'.mem.ran q) = ofProducer p (s'.mem.pushed q))
      (machine.final start queueHanded (by decide)) := by
  have hr : Reachable (machine.final start queueHanded (by decide)) :=
    Machine.reach_final machine start queueHanded _
  refine global_jobs_drain hr true ?_ (f := .globalJobs) (by decide) trivial 3
  intro u hu
  obtain rfl := Bool.eq_false_of_not_eq_true hu
  decide

end ServerCore.Jobs
