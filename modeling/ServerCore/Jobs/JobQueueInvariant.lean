import ServerCore.Jobs.JobQueue

namespace ServerCore.Jobs

open Framework ConcurrentQueue

variable {T Q J : Type} [DecidableEq T] [DecidableEq Q]

/-- What one step of a thread does to the memory and to its top frame. -/
inductive Step (s : Mem T Q J) (t : T) : Frame T Q J → Mem T Q J → List (Frame T Q J) → Prop
  | push (q job pushOnly) : Step s t (.push q job pushOnly) (s.fetchAdd t q job)
      [.enqueue q job pushOnly (s.mJobCount q)]
  | enqueue (q job pushOnly prevCount) : Step s t (.enqueue q job pushOnly prevCount)
      (s.enqueueJob t q job) [.decide q pushOnly prevCount]
  | decideRun (q pushOnly) : s.LCurrentJobQueue t = none →
      Step s t (.decide q pushOnly 0) s [.execute q]
  | decideHand (q pushOnly) : Step s t (.decide q pushOnly 0) s [.handOver q]
  | decideLeave (q pushOnly prevCount) : prevCount ≠ 0 →
      Step s t (.decide q pushOnly prevCount) s []
  | handOver (q) : Step s t (.handOver q) (s.globalPush t q) []
  | execute (q) : Step s t (.execute q) (s.setCurrent t (some q)) [.drain q]
  | drain (q jobs rest) :
      (s.mJobQueue q).Perm (jobs ++ rest) →
      (∀ p, ofProducer p (s.mJobQueue q) = ofProducer p jobs ++ ofProducer p rest) →
      Step s t (.drain q) (s.dequeued q jobs rest) [.batch q jobs.length jobs]
  | startJob (q jobCount job jobs) : Step s t (.batch q jobCount (job :: jobs))
      (s.startJob q job) [.running q jobCount jobs]
  | callPush (q jobCount jobs q' job pushOnly) : Step s t (.running q jobCount jobs) s
      [.push q' job pushOnly, .running q jobCount jobs]
  | endJob (q jobCount jobs) : Step s t (.running q jobCount jobs) s [.batch q jobCount jobs]
  | subLast (q) (jobCount : ℕ) : s.mJobCount q = jobCount → Step s t (.batch q jobCount [])
      ((s.fetchSub q jobCount).setCurrent t none) []
  | subMore (q) (jobCount : ℕ) : s.mJobCount q ≠ jobCount → Step s t (.batch q jobCount [])
      (s.fetchSub q jobCount) [.timeCheck q]
  | timeOver (q) : Step s t (.timeCheck q) (s.setCurrent t none) [.handOver q]
  | timeLeft (q) : Step s t (.timeCheck q) s [.drain q]
  | globalLeave (f) : f = .globalJobs ∨ f = .globalPop → Step s t f s []
  | globalTest : Step s t .globalJobs s [.globalPop]
  | globalPop (q p rest) : s.mJobQueues.Perm ((p, q) :: rest) →
      Step s t .globalPop { s with mJobQueues := rest } [.globalFound q]
  | globalRun (q) : Step s t (.globalFound q) s [.execute q, .globalJobs]

theorem step_spec {s s' : Mem T Q J} {t : T} {f : Frame T Q J} {c : Choice T Q J}
    {new : List (Frame T Q J)} (h : step s t f c = some (s', new)) : Step s t f s' new := by
  cases f with
  | push q job pushOnly =>
    cases c <;> simp [step, pushStep] at h
    obtain ⟨rfl, rfl⟩ := h
    exact .push ..
  | enqueue q job pushOnly prevCount =>
    cases c <;> simp [step, pushStep] at h
    obtain ⟨rfl, rfl⟩ := h
    exact .enqueue ..
  | decide q pushOnly prevCount =>
    cases c <;> simp only [step, pushStep, reduceCtorEq] at h
    split at h
    · subst prevCount
      split at h
      · next hc =>
        simp only [Option.some.injEq, Prod.mk.injEq] at h
        obtain ⟨rfl, rfl⟩ := h
        exact .decideRun _ _ hc.1
      · simp only [Option.some.injEq, Prod.mk.injEq] at h
        obtain ⟨rfl, rfl⟩ := h
        exact .decideHand ..
    · next hc =>
      simp only [Option.some.injEq, Prod.mk.injEq] at h
      obtain ⟨rfl, rfl⟩ := h
      exact .decideLeave _ _ _ hc
  | handOver q =>
    cases c <;> simp [step, pushStep] at h
    obtain ⟨rfl, rfl⟩ := h
    exact .handOver _
  | execute q =>
    cases c <;> simp [step, executeStep] at h
    obtain ⟨rfl, rfl⟩ := h
    exact .execute _
  | drain q =>
    cases c <;> simp only [step, executeStep, reduceCtorEq] at h
    split at h
    · simp only [Option.map_eq_some_iff, Prod.mk.injEq] at h
      obtain ⟨⟨jobs, rest⟩, hr, rfl, rfl⟩ := h
      obtain ⟨hperm, horder⟩ := takeBulk_spec hr
      rw [← takeBulk_length hr]
      exact .drain _ _ _ hperm horder
    · simp at h
  | batch q jobCount jobs =>
    cases jobs with
    | nil =>
      cases c <;> simp only [step, executeStep, reduceCtorEq] at h
      split at h
      · next hc =>
        simp only [Option.some.injEq, Prod.mk.injEq] at h
        obtain ⟨rfl, rfl⟩ := h
        exact .subLast _ _ hc
      · next hc =>
        simp only [Option.some.injEq, Prod.mk.injEq] at h
        obtain ⟨rfl, rfl⟩ := h
        exact .subMore _ _ hc
    | cons job jobs =>
      cases c <;> simp [step, executeStep] at h
      obtain ⟨rfl, rfl⟩ := h
      exact .startJob ..
  | running q jobCount jobs =>
    cases c <;> simp [step, executeStep] at h
    · obtain ⟨rfl, rfl⟩ := h
      exact .endJob ..
    · obtain ⟨rfl, rfl⟩ := h
      exact .callPush ..
  | timeCheck q =>
    cases c <;> simp only [step, executeStep, reduceCtorEq] at h
    split at h <;> simp only [Option.some.injEq, Prod.mk.injEq] at h <;> obtain ⟨rfl, rfl⟩ := h
    · exact .timeOver _
    · exact .timeLeft _
  | globalJobs =>
    cases c <;> simp only [step, globalJobsStep, reduceCtorEq] at h
    split at h <;> simp only [Option.some.injEq, Prod.mk.injEq] at h <;> obtain ⟨rfl, rfl⟩ := h
    · exact .globalLeave _ (.inl rfl)
    · exact .globalTest
  | globalPop =>
    cases c with
    | pop p =>
      cases p with
      | none =>
        simp only [step, globalJobsStep, Option.some.injEq, Prod.mk.injEq] at h
        obtain ⟨rfl, rfl⟩ := h
        exact .globalLeave _ (.inr rfl)
      | some p =>
        simp only [step, globalJobsStep, Option.map_eq_some_iff, Prod.mk.injEq] at h
        obtain ⟨⟨q, rest⟩, hr, rfl, rfl⟩ := h
        exact .globalPop _ p _ (takeFrom_spec hr).1
    | _ => simp [step, globalJobsStep] at h
  | globalFound q =>
    cases c <;> simp [step, globalJobsStep] at h
    obtain ⟨rfl, rfl⟩ := h
    exact .globalRun _

namespace Frame

/-- Jobs of `q` that `mJobCount` counts and `mJobQueue` does not hold. -/
def load (q : Q) : Frame T Q J → ℕ
  | .enqueue q' _ _ _ => if q' = q then 1 else 0
  | .batch q' jobCount _ | .running q' jobCount _ => if q' = q then jobCount else 0
  | _ => 0

/-- The right to execute `q`. -/
def token (q : Q) : Frame T Q J → ℕ
  | .enqueue q' _ _ prevCount | .decide q' _ prevCount =>
      if q' = q ∧ prevCount = 0 then 1 else 0
  | .handOver q' | .execute q' | .drain q' | .batch q' _ _ | .running q' _ _ | .timeCheck q'
  | .globalFound q' => if q' = q then 1 else 0
  | _ => 0

/-- The part of a batch of `q` that still waits. -/
def jobsLeft : Frame T Q J → List (T × J)
  | .batch _ _ jobs | .running _ _ jobs => jobs
  | _ => []

/-- The job of a `Push` that has counted it and not yet enqueued it. -/
def pending (q : Q) : Frame T Q J → List J
  | .enqueue q' job _ _ => if q' = q then [job] else []
  | _ => []

/-- Frames that wait for a callee to return. -/
def Suspended : Frame T Q J → Prop
  | .running _ _ _ | .globalJobs => True
  | _ => False

omit [DecidableEq T] in
theorem Suspended.pending {f : Frame T Q J} (h : f.Suspended) (q : Q) : f.pending q = [] := by
  cases f <;> first | rfl | exact h.elim

end Frame

/-- Entries of `q` in `GlobalQueue`. -/
def entries (q : Q) (g : ConcurrentQueue T Q) : ℕ := g.countP (·.2 = q)

omit [DecidableEq T] in
theorem entries_enqueue (q q' : Q) (t : T) (g : ConcurrentQueue T Q) :
    entries q (g.enqueue t q') = entries q g + if q' = q then 1 else 0 := by
  by_cases hq : q' = q <;> simp [entries, ConcurrentQueue.enqueue, hq]

omit [DecidableEq T] in
theorem entries_perm {q q' : Q} {p : T} {g rest : ConcurrentQueue T Q}
    (h : g.Perm ((p, q') :: rest)) : entries q g = entries q rest + if q' = q then 1 else 0 := by
  simp [entries, h.countP_eq, List.countP_cons]

/-- Tokens of `q` among the threads and in `GlobalQueue`. -/
def tokens [Fintype T] (q : Q) (s : Conf T (Mem T Q J) (Frame T Q J)) : ℕ :=
  weight (Frame.token q) s.frames + entries q s.mem.mJobQueues

/-- One while the count stands above zero. -/
def present (count : Int) : ℕ := if count = 0 then 0 else 1

@[simp] theorem present_zero : present 0 = 0 := rfl

theorem present_ne {count : Int} (h : count ≠ 0) : present count = 1 := if_neg h

theorem present_le (count : Int) : present count ≤ 1 := by
  unfold present
  split <;> simp

theorem step_load {s s' : Mem T Q J} {t : T} {f : Frame T Q J} {new : List (Frame T Q J)}
    (h : Step s t f s' new) (q : Q) :
    s'.mJobCount q + (s.mJobQueue q).length + f.load q =
      s.mJobCount q + (s'.mJobQueue q).length + stackWeight (Frame.load q) new := by
  cases h with
  | push q' job pushOnly =>
    by_cases hq : q' = q
    · subst hq; simp [Mem.fetchAdd, Frame.load]; ring
    · simp [Mem.fetchAdd, Frame.load, hq, Ne.symm hq]
  | enqueue q' job pushOnly prevCount =>
    by_cases hq : q' = q
    · subst hq; simp [Mem.enqueueJob, ConcurrentQueue.enqueue, Frame.load, add_assoc]
    · simp [Mem.enqueueJob, Frame.load, hq, Ne.symm hq]
  | drain q' jobs rest hperm _ =>
    by_cases hq : q' = q
    · subst hq
      have hl := hperm.length_eq
      simp only [List.length_append] at hl
      simp only [Mem.dequeued, Frame.load, Function.update_self, if_true, stackWeight_cons,
        stackWeight_nil]
      omega
    · simp [Mem.dequeued, Frame.load, hq, Ne.symm hq]
  | subLast q' jobCount _ =>
    by_cases hq : q' = q
    · subst hq; simp [Mem.fetchSub, Mem.setCurrent, Frame.load]; ring
    · simp [Mem.fetchSub, Mem.setCurrent, Frame.load, hq, Ne.symm hq]
  | subMore q' jobCount _ =>
    by_cases hq : q' = q
    · subst hq; simp [Mem.fetchSub, Frame.load]; ring
    · simp [Mem.fetchSub, Frame.load, hq, Ne.symm hq]
  | globalLeave f hf =>
    rcases hf with rfl | rfl <;> simp [Frame.load]
  | _ => simp [Frame.load, Mem.setCurrent, Mem.globalPush, Mem.startJob]

/-- A step hands the token on, or gives it back exactly when it takes the count to zero. -/
theorem step_token {s s' : Mem T Q J} {t : T} {f : Frame T Q J} {new : List (Frame T Q J)}
    (h : Step s t f s' new) (q : Q) (hcount : 0 ≤ s.mJobCount q)
    (hheld : f.token q ≤ present (s.mJobCount q)) :
    stackWeight (Frame.token q) new + entries q s'.mJobQueues +
        present (s.mJobCount q) =
      f.token q + entries q s.mJobQueues + present (s'.mJobCount q) := by
  cases h with
  | push q' job pushOnly =>
    by_cases hq : q' = q
    · subst hq
      have hne : s.mJobCount q' + 1 ≠ 0 := by omega
      by_cases hz : s.mJobCount q' = 0
      · simp [Mem.fetchAdd, Frame.token, hz, present_ne one_ne_zero, Nat.add_comm]
      · simp [Mem.fetchAdd, Frame.token, hz, present_ne hne, present_ne hz]
    · simp [Mem.fetchAdd, Frame.token, hq, Ne.symm hq]
  | handOver q' =>
    by_cases hq : q' = q
    · subst hq; simp [Mem.globalPush, entries_enqueue, Frame.token, Nat.add_comm]
    · simp [Mem.globalPush, entries_enqueue, Frame.token, hq]
  | subLast q' jobCount hc =>
    by_cases hq : q' = q
    · subst hq
      have hp := present_le (s.mJobCount q')
      simp only [Frame.token, if_true] at hheld
      have hz : (s.fetchSub q' jobCount).mJobCount q' = 0 := by simp [Mem.fetchSub, hc]
      have hg : (s.fetchSub q' jobCount).mJobQueues = s.mJobQueues := rfl
      simp only [Mem.setCurrent, Frame.token, hz, hg, if_true, present_zero, stackWeight_nil]
      omega
    · simp [Mem.fetchSub, Mem.setCurrent, Frame.token, hq, Ne.symm hq]
  | subMore q' jobCount hc =>
    by_cases hq : q' = q
    · subst hq
      have hp := present_le (s.mJobCount q')
      simp only [Frame.token, if_true] at hheld
      have hz : present ((s.fetchSub q' jobCount).mJobCount q') = 1 := by
        simpa [Mem.fetchSub] using present_ne (sub_ne_zero.mpr hc)
      have hg : (s.fetchSub q' jobCount).mJobQueues = s.mJobQueues := rfl
      simp only [Frame.token, hz, hg, if_true, stackWeight_cons, stackWeight_nil]
      omega
    · simp [Mem.fetchSub, Frame.token, hq, Ne.symm hq]
  | globalLeave f hf =>
    rcases hf with rfl | rfl <;> simp [Frame.token]
  | globalPop q' p rest hperm =>
    rw [entries_perm hperm]
    by_cases hq : q' = q
    · simp [Frame.token, hq, Nat.add_comm]
    · simp [Frame.token, hq]
  | decideLeave q' pushOnly prevCount hne => simp [Frame.token, hne]
  | _ => simp [Frame.token, Mem.setCurrent, Mem.startJob, Mem.enqueueJob, Mem.dequeued]

def pendingTop (q : Q) (fs : List (Frame T Q J)) : List J :=
  (fs.head?.map (Frame.pending q)).getD []

/-- Each producer's pushes are, in order, the jobs handed out, those still queued and the
one that its running `Push` has counted. -/
theorem step_order {s s' : Mem T Q J} {t : T} {f : Frame T Q J} {new : List (Frame T Q J)}
    (h : Step s t f s' new) (q : Q) (p : T) (X : List J)
    (before : ofProducer p (s.pushed q) = ofProducer p (s.taken q) ++
      ofProducer p (s.mJobQueue q) ++ (if p = t then f.pending q else X)) :
    ofProducer p (s'.pushed q) = ofProducer p (s'.taken q) ++
      ofProducer p (s'.mJobQueue q) ++ (if p = t then pendingTop q new else X) := by
  cases h with
  | push q' job pushOnly =>
    by_cases hq : q' = q
    · subst hq
      by_cases hp : p = t
      · subst hp
        have e : ofProducer p (s.pushed q') =
            ofProducer p (s.taken q') ++ ofProducer p (s.mJobQueue q') := by
          simpa [Frame.pending] using before
        simp [Mem.fetchAdd, ConcurrentQueue.enqueue, pendingTop, Frame.pending,
          ofProducer_cons, e]
      · simpa [Mem.fetchAdd, ConcurrentQueue.enqueue, hp, Ne.symm hp, ofProducer_cons]
          using before
    · simpa [Mem.fetchAdd, pendingTop, Frame.pending, hq, Ne.symm hq] using before
  | enqueue q' job pushOnly prevCount =>
    by_cases hq : q' = q
    · subst hq
      by_cases hp : p = t
      · subst hp
        simpa [Mem.enqueueJob, ConcurrentQueue.enqueue, pendingTop, Frame.pending,
          ofProducer_cons] using before
      · simpa [Mem.enqueueJob, ConcurrentQueue.enqueue, hp, Ne.symm hp, ofProducer_cons]
          using before
    · simpa [Mem.enqueueJob, pendingTop, Frame.pending, hq, Ne.symm hq] using before
  | drain q' jobs rest _ horder =>
    by_cases hq : q' = q
    · subst hq
      rw [horder p] at before
      simpa [Mem.dequeued, pendingTop, Frame.pending] using before
    · simpa [Mem.dequeued, pendingTop, Frame.pending, Ne.symm hq] using before
  | globalLeave f hf =>
    rcases hf with rfl | rfl <;> simpa [pendingTop, Frame.pending] using before
  | _ => simpa [pendingTop, Frame.pending, Mem.setCurrent, Mem.globalPush, Mem.startJob,
      Mem.fetchSub] using before

/-- A thread without the token hands out and starts no job of `q`. -/
theorem step_idle {s s' : Mem T Q J} {t : T} {f : Frame T Q J} {new : List (Frame T Q J)}
    (h : Step s t f s' new) (q : Q) (hf : f.token q = 0) :
    s'.taken q = s.taken q ∧ s'.ran q = s.ran q := by
  cases h with
  | drain q' jobs rest _ _ =>
    have hq : q ≠ q' := by rintro rfl; simp [Frame.token] at hf
    simp [Mem.dequeued, hq]
  | startJob q' jobCount job jobs =>
    have hq : q ≠ q' := by rintro rfl; simp [Frame.token] at hf
    simp [Mem.startJob, hq]
  | _ => exact ⟨rfl, rfl⟩

/-- The holder of the token knows which handed-out jobs have not been started. -/
theorem step_batch {s s' : Mem T Q J} {t : T} {f : Frame T Q J} {new : List (Frame T Q J)}
    (h : Step s t f s' new) (q : Q)
    (hcount : 0 ≤ s.mJobCount q)
    (held : f.token q = 1 → s.taken q = s.ran q ++ f.jobsLeft)
    (free : entries q s.mJobQueues ≠ 0 ∨ s.mJobCount q = 0 → s.taken q = s.ran q)
    (alone : f.token q = 1 → entries q s.mJobQueues = 0 ∧ s.mJobCount q ≠ 0) :
    (∀ g ∈ new, g.token q = 1 → s'.taken q = s'.ran q ++ g.jobsLeft) ∧
    (entries q s'.mJobQueues ≠ 0 ∨ s'.mJobCount q = 0 → s'.taken q = s'.ran q) := by
  cases h with
  | push q' job pushOnly =>
    by_cases hq : q' = q
    · subst hq
      have hne : s.mJobCount q' + 1 ≠ 0 := by omega
      constructor
      · intro g hg ht
        obtain rfl : g = .enqueue q' job pushOnly (s.mJobCount q') := by simpa using hg
        have hz : s.mJobCount q' = 0 := by
          by_contra hz
          simp [Frame.token, hz] at ht
        simpa [Mem.fetchAdd, Frame.jobsLeft] using free (.inr hz)
      · intro hz
        have hg : entries q' s.mJobQueues ≠ 0 := by simpa [Mem.fetchAdd, hne] using hz
        exact free (.inl hg)
    · have hg : (s.fetchAdd t q' job).mJobCount q = s.mJobCount q := by
        simp [Mem.fetchAdd, Ne.symm hq]
      refine ⟨?_, fun hz => free (by rwa [hg] at hz)⟩
      intro g hg ht
      obtain rfl : g = .enqueue q' job pushOnly (s.mJobCount q') := by simpa using hg
      simp [Frame.token, hq] at ht
  | handOver q' =>
    refine ⟨by simp, ?_⟩
    intro hz
    by_cases hq : q' = q
    · have e := held (by simp [Frame.token, hq])
      simpa [Mem.globalPush, Frame.jobsLeft] using e
    · apply free
      simpa [Mem.globalPush, entries_enqueue, hq] using hz
  | drain q' jobs rest _ _ =>
    by_cases hq : q' = q
    · subst hq
      have e := held (by simp [Frame.token])
      have ha := alone (by simp [Frame.token])
      constructor
      · intro g hg _
        obtain rfl : g = .batch q' jobs.length jobs := by simpa using hg
        simpa [Mem.dequeued, Frame.jobsLeft] using e
      · intro hz
        exact absurd hz (by simpa [Mem.dequeued] using ⟨ha.1, ha.2⟩)
    · constructor
      · intro g hg ht
        obtain rfl : g = .batch q' jobs.length jobs := by simpa using hg
        simp [Frame.token, hq] at ht
      · intro hz
        simpa [Mem.dequeued, Ne.symm hq] using free hz
  | startJob q' jobCount job jobs =>
    by_cases hq : q' = q
    · subst hq
      have e := held (by simp [Frame.token])
      have ha := alone (by simp [Frame.token])
      constructor
      · intro g hg _
        obtain rfl : g = .running q' jobCount jobs := by simpa using hg
        simpa [Mem.startJob, Frame.jobsLeft] using e
      · intro hz
        exact absurd hz (by simpa [Mem.startJob] using ⟨ha.1, ha.2⟩)
    · constructor
      · intro g hg ht
        obtain rfl : g = .running q' jobCount jobs := by simpa using hg
        simp [Frame.token, hq] at ht
      · intro hz
        simpa [Mem.startJob, Ne.symm hq] using free hz
  | subLast q' jobCount hc =>
    refine ⟨by simp, ?_⟩
    intro hz
    by_cases hq : q' = q
    · have e := held (by simp [Frame.token, hq])
      simpa [Mem.fetchSub, Mem.setCurrent, Frame.jobsLeft] using e
    · apply free
      simpa [Mem.fetchSub, Mem.setCurrent, Ne.symm hq] using hz
  | subMore q' jobCount hc =>
    by_cases hq : q' = q
    · subst hq
      have e := held (by simp [Frame.token])
      refine ⟨?_, fun _ => by simpa [Mem.fetchSub, Frame.jobsLeft] using e⟩
      intro g hg _
      obtain rfl : g = .timeCheck q' := by simpa using hg
      simpa [Mem.fetchSub, Frame.jobsLeft] using e
    · constructor
      · intro g hg ht
        obtain rfl : g = .timeCheck q' := by simpa using hg
        simp [Frame.token, hq] at ht
      · intro hz
        apply free
        simpa [Mem.fetchSub, Ne.symm hq] using hz
  | globalPop q' p rest hperm =>
    have hcnt := entries_perm (q := q) hperm
    constructor
    · intro g hg ht
      obtain rfl : g = .globalFound q' := by simpa using hg
      have hq : q' = q := by by_contra hq; simp [Frame.token, hq] at ht
      have hpos : entries q s.mJobQueues ≠ 0 := by simp [hcnt, hq]
      simpa [Frame.jobsLeft] using free (.inl hpos)
    · intro hz
      refine free (hz.imp_left fun hr => ?_)
      have hr' : entries q rest ≠ 0 := hr
      omega
  | globalTest => exact ⟨by simp [Frame.token], free⟩
  | globalLeave f _ => exact ⟨by simp, free⟩
  | decideLeave q' pushOnly prevCount _ => exact ⟨by simp, free⟩
  | decideRun q' pushOnly _ => exact ⟨by simpa [Frame.token, Frame.jobsLeft] using held, free⟩
  | callPush q' jobCount jobs q'' job pushOnly =>
    exact ⟨by simpa [Frame.token, Frame.jobsLeft] using held, free⟩
  | globalRun q' => exact ⟨by simpa [Frame.token, Frame.jobsLeft] using held, free⟩
  | _ => exact ⟨by simpa [Frame.token, Frame.jobsLeft, Mem.enqueueJob, Mem.setCurrent] using held,
      free⟩

/-- What holds between any two atomic steps. -/
structure Inv [Fintype T] (s : Conf T (Mem T Q J) (Frame T Q J)) : Prop where
  count : ∀ q, s.mem.mJobCount q =
    (s.mem.mJobQueue q).length + weight (Frame.load q) s.frames
  token : ∀ q, tokens q s = present (s.mem.mJobCount q)
  order : ∀ q p, ofProducer p (s.mem.pushed q) = ofProducer p (s.mem.taken q) ++
    ofProducer p (s.mem.mJobQueue q) ++ pendingTop q (s.frames p)
  held : ∀ q t, ∀ f ∈ s.frames t, f.token q = 1 → s.mem.taken q = s.mem.ran q ++ f.jobsLeft
  free : ∀ q, entries q s.mem.mJobQueues ≠ 0 ∨ s.mem.mJobCount q = 0 →
    s.mem.taken q = s.mem.ran q
  suspended : ∀ t, ∀ f ∈ (s.frames t).tail, f.Suspended

theorem step_suspended {mem mem' : Mem T Q J} {t : T} {f : Frame T Q J} {c : Choice T Q J}
    {new : List (Frame T Q J)} (h : step mem t f c = some (mem', new)) :
    ∀ g ∈ new.tail, g.Suspended := by
  cases step_spec h <;> simp [Frame.Suspended]

omit [DecidableEq T] [DecidableEq Q] in
theorem enter_spec {mem : Mem T Q J} {fr : T → List (Frame T Q J)} {t : T} {c : Choice T Q J}
    {r : Mem T Q J × Frame T Q J} (h : enter mem fr t c = some r) :
    fr t = [] ∧ r.1 = mem ∧ ((∃ q job pushOnly, r.2 = .push q job pushOnly) ∨ r.2 = .globalJobs) := by
  cases c <;> simp [enter] at h
  all_goals
    obtain ⟨hidle, rfl⟩ := h
    simp [hidle]

omit [DecidableEq Q] in
theorem env_spec {mem mem' : Mem T Q J} {c : Choice T Q J} (h : env mem c = some mem') :
    ∃ ticks, mem' = { mem with LEndTickCount := ticks } := by
  cases c <;> simp [env] at h
  exact ⟨_, h.symm⟩

section Run

variable [Fintype T]

theorem Inv.count_nonneg {s : Conf T (Mem T Q J) (Frame T Q J)} (h : Inv s) (q : Q) :
    0 ≤ s.mem.mJobCount q := by
  rw [h.count q]
  omega

theorem Inv.tokens_le {s : Conf T (Mem T Q J) (Frame T Q J)} (h : Inv s) (q : Q) :
    weight (Frame.token q) s.frames + entries q s.mem.mJobQueues ≤ 1 := by
  have total := h.token q
  have hp := present_le (s.mem.mJobCount q)
  unfold tokens at total
  omega

theorem Inv.step {s : Conf T (Mem T Q J) (Frame T Q J)} (h : Inv s) {t : T}
    {f : Frame T Q J} {fs new : List (Frame T Q J)} {mem : Mem T Q J}
    (hs : s.frames t = f :: fs) (hf : Step s.mem t f mem new)
    (hsusp : ∀ u, ∀ g ∈ (Function.update s.frames t (new ++ fs) u).tail, g.Suspended) :
    Inv ⟨mem, Function.update s.frames t (new ++ fs)⟩ := by
  have below : ∀ g ∈ fs, g.Suspended := by simpa [hs] using h.suspended t
  have bound (q : Q) : f.token q + entries q s.mem.mJobQueues ≤ present (s.mem.mJobCount q) := by
    have share := top_le_weight (Frame.token q) hs
    have total := h.token q
    unfold tokens at total
    omega
  have moved (q : Q) := step_batch hf q (h.count_nonneg q)
    (h.held q t f (by simp [hs])) (h.free q) (fun h1 => by
      have hb := bound q
      have hp := present_le (s.mem.mJobCount q)
      refine ⟨by omega, ?_⟩
      intro hz
      rw [hz, present_zero] at hb
      omega)
  constructor
  · intro q
    have hl := step_load hf q
    have hw := weight_step (Frame.load q) hs new
    have hc := h.count q
    dsimp only
    omega
  · intro q
    have ht := step_token hf q (h.count_nonneg q) (by have := bound q; omega)
    have hw := weight_step (Frame.token q) hs new
    have hc := h.token q
    unfold tokens at hc ⊢
    dsimp only
    omega
  · intro q p
    have before := h.order q p
    dsimp only
    by_cases hp : p = t
    · subst p
      have e := step_order hf q t [] (by simpa [hs, pendingTop] using before)
      rw [if_pos rfl] at e
      rw [Function.update_self]
      -- a return leaves a suspended caller on top, which has no push in progress
      cases new with
      | nil =>
        cases fs with
        | nil => simpa [pendingTop] using e
        | cons g fs => simpa [pendingTop, (below g (by simp)).pending q] using e
      | cons g new => simpa [pendingTop] using e
    · have e := step_order hf q p (pendingTop q (s.frames p)) (by simpa [hp] using before)
      rw [Function.update_of_ne hp]
      simpa [hp] using e
  · intro q u g hg h1
    rcases mem_update _ hg with ⟨_, hg⟩ | other
    · exact (moved q).1 g hg h1
    · have two := other.weight hs (Frame.token q)
      have := h.tokens_le q
      obtain ⟨e₁, e₂⟩ := step_idle hf q (by omega)
      dsimp only
      rw [e₁, e₂]
      exact h.held q u g (other.mem hs) h1
  · exact fun q => (moved q).2
  · exact hsusp

theorem Inv.start : Inv (start : Conf T (Mem T Q J) (Frame T Q J)) := by
  constructor <;> simp [Jobs.start, Mem.init, tokens, pendingTop, entries]

theorem Inv.next {s s' : Conf T (Mem T Q J) (Frame T Q J)}
    {a : Action T (Choice T Q J)} (h : Inv s) (hs' : machine.next s a = some s') : Inv s' := by
  have hsusp := Machine.suspended_next (P := Frame.Suspended)
    (fun _ _ _ _ _ _ he => step_suspended he)
    (fun _ _ _ _ _ he => by simp [(enter_spec he).1]) hs' h.suspended
  rcases Machine.next_cases hs' with ⟨t, c, mem, f, rfl, he, rfl⟩ |
    ⟨t, c, f, fs, mem, new, rfl, hs, he, rfl⟩ | ⟨c, mem, rfl, he, rfl⟩
  · obtain ⟨hidle, rfl, hf⟩ := enter_spec he
    have zero (w : Frame T Q J → ℕ) (hw : w f = 0) :
        weight w (Function.update s.frames t (f :: s.frames t)) = weight w s.frames :=
      weight_push s.frames t hw
    have hload (q : Q) : f.load q = 0 := by
      rcases hf with ⟨_, _, _, rfl⟩ | rfl <;> rfl
    have htok (q : Q) : f.token q = 0 := by
      rcases hf with ⟨_, _, _, rfl⟩ | rfl <;> rfl
    have hpend (q : Q) : f.pending q = [] := by
      rcases hf with ⟨_, _, _, rfl⟩ | rfl <;> rfl
    refine ⟨?_, ?_, ?_, ?_, h.free, hsusp⟩
    · intro q
      dsimp only
      rw [zero _ (hload q)]
      exact h.count q
    · intro q
      unfold tokens
      dsimp only
      rw [zero _ (htok q)]
      exact h.token q
    · intro q p
      have e := h.order q p
      by_cases hp : p = t
      · subst p
        simpa [pendingTop, hpend q, hidle] using e
      · simpa [hp] using e
    · intro q u g hg h1
      rcases mem_update [f] hg with ⟨_, hg⟩ | other
      · rw [List.mem_singleton.mp hg, htok q] at h1
        omega
      · rcases other with ⟨_, hg⟩ | ⟨_, hg⟩
        · simp [hidle] at hg
        · exact h.held q u g hg h1
  · exact h.step hs (step_spec he) hsusp
  · obtain ⟨ticks, rfl⟩ := env_spec he
    exact ⟨h.count, h.token, h.order, h.held, h.free, hsusp⟩

theorem Reachable.inv {s : Conf T (Mem T Q J) (Frame T Q J)} (h : Reachable s) : Inv s :=
  Machine.Reach.invariant Inv h .start fun _ _ _ _ hi _ hs => hi.next hs

/-- An activation of `Execute` on `q`. -/
def Frame.executing (q : Q) : Frame T Q J → ℕ
  | .execute q' | .drain q' | .batch q' _ _ | .running q' _ _ | .timeCheck q' =>
      if q' = q then 1 else 0
  | _ => 0

theorem Inv.taken_eq {s : Conf T (Mem T Q J) (Frame T Q J)} (h : Inv s) (q : Q) :
    ∃ left, s.mem.taken q = s.mem.ran q ++ left := by
  by_cases hz : s.mem.mJobCount q = 0
  · exact ⟨[], by simpa using h.free q (.inr hz)⟩
  by_cases hg : entries q s.mem.mJobQueues = 0
  · have total := h.token q
    rw [present_ne hz, tokens, hg] at total
    have hne : ¬weight (Frame.token q) s.frames = 0 := by omega
    simp only [weight_eq_zero, not_forall] at hne
    obtain ⟨t, f, hf, hpos⟩ := hne
    have hle := (le_stackWeight (Frame.token q) hf).trans (le_weight _ s.frames t)
    exact ⟨_, h.held q t f hf (by omega)⟩
  · exact ⟨[], by simpa using h.free q (.inl hg)⟩

/-- A count of zero means that every push is complete and every pushed job was run. -/
theorem Inv.drained {s : Conf T (Mem T Q J) (Frame T Q J)} (h : Inv s) (q : Q)
    (hz : s.mem.mJobCount q = 0) (p : T) :
    ofProducer p (s.mem.ran q) = ofProducer p (s.mem.pushed q) := by
  have hc := h.count q
  have hqueue : s.mem.mJobQueue q = [] := List.eq_nil_of_length_eq_zero (by omega)
  have hload := (weight_eq_zero (Frame.load q) s.frames).mp (by omega)
  have hpend : pendingTop q (s.frames p) = [] := by
    cases hs : s.frames p with
    | nil => rfl
    | cons f fs =>
      have hf := hload p f (by simp [hs])
      cases f <;> simp_all [pendingTop, Frame.pending, Frame.load]
  rw [h.order q p, hqueue, hpend, h.free q (.inr hz)]
  simp

/-- Over every interleaving, each job is run at most once and in the order of the thread
that pushed it, by one thread at a time; the count is positive exactly while one token to
execute the queue exists, so a job that was pushed and not run always has one. -/
theorem jobQueue_exactly_once {s : Conf T (Mem T Q J) (Frame T Q J)} (h : Reachable s) (q : Q) :
    weight (Frame.executing q) s.frames ≤ 1 ∧
    entries q s.mem.mJobQueues ≤ 1 ∧
    List.Subperm (s.mem.ran q) (s.mem.pushed q) ∧
    (∀ p, ofProducer p (s.mem.ran q) <+: ofProducer p (s.mem.pushed q)) ∧
    tokens q s ≤ 1 ∧
    (0 < s.mem.mJobCount q ↔ tokens q s = 1) ∧
    ((∃ p, ofProducer p (s.mem.ran q) ≠ ofProducer p (s.mem.pushed q)) → tokens q s = 1) := by
  have hi := h.inv
  have htok := hi.tokens_le q
  have hcount := hi.count_nonneg q
  have hinitial (p : T) : ofProducer p (s.mem.ran q) <+: ofProducer p (s.mem.pushed q) := by
    obtain ⟨left, e⟩ := hi.taken_eq q
    rw [hi.order q p, e, ofProducer_append, List.append_assoc, List.append_assoc]
    exact List.prefix_append _ _
  have hiff : 0 < s.mem.mJobCount q ↔ tokens q s = 1 := by
    rw [hi.token q, present]
    split <;> omega
  refine ⟨?_, by omega, subperm_of_producers fun p => (hinitial p).sublist, hinitial, htok, hiff, ?_⟩
  · have hle : weight (Frame.executing q) s.frames ≤ weight (Frame.token q) s.frames := by
      refine Finset.sum_le_sum fun t _ => List.sum_le_sum fun f _ => ?_
      cases f <;> simp [Frame.executing, Frame.token]
    omega
  · rintro ⟨p, hne⟩
    refine hiff.mp (lt_of_le_of_ne hcount fun hz => hne (hi.drained q hz.symm p))

end Run

/-- One thread starts its first job while another is between counting and enqueueing. -/
def twoPushers : List (Action Bool (Choice Bool Unit ℕ)) :=
  [.enter false (.callPush () 1 false), .step false .go, .step false .go,
    .enter true (.callPush () 2 false), .step true .go,
    .step false .go, .step false .go, .step false (.take [false]), .step false .go]

theorem jobQueue_exactly_once_twoPushers :
    ∃ s : Conf Bool (Mem Bool Unit ℕ) (Frame Bool Unit ℕ), Reachable s ∧
      s.mem.pushed () = [(false, 1), (true, 2)] ∧ s.mem.ran () = [(false, 1)] ∧
      s.mem.mJobCount () = 2 ∧ tokens () s = 1 := by
  have hr : Reachable (machine.final start twoPushers (by decide)) :=
    Machine.reach_final machine start twoPushers _
  have h := jobQueue_exactly_once hr ()
  have hcount : (machine.final start twoPushers (by decide)).mem.mJobCount () = 2 := by decide
  exact ⟨_, hr, by decide, by decide, hcount, h.2.2.2.2.2.1.mp (by rw [hcount]; decide)⟩

end ServerCore.Jobs
