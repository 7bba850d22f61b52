import ServerCore.Jobs.DrainJobs
import ServerCore.Jobs.NoNesting
import ServerCore.Jobs.TimerPlaces

namespace ServerCore.Jobs

open Framework ConcurrentQueue

variable {T Q J : Type} [DecidableEq Q] [DecidableEq J]

/-- How often a queue has run the job. -/
def Mem.runsOf (s : Mem T Q J) (q : Q) (job : J) : ℕ := ((s.ran q).map Prod.snd).count job

def Mem.pushesOf (s : Mem T Q J) (q : Q) (job : J) : ℕ := ((s.pushed q).map Prod.snd).count job

/-- The firings of the job into the queue. -/
def TimedMem.firingsOf (s : TimedMem T Q J) (q : Q) (job : J) : List (Firing Q J) :=
  s.fired.filter fun e => e.owner = q ∧ e.job = job

/-- The reservations of the job for the queue. -/
def TimedMem.reservationsOf (s : TimedMem T Q J) (q : Q) (job : J) : List (Item Q J) :=
  s.reserved.filter fun x => x.data = ⟨q, job⟩

/-- A `Distribute` that was called at or after the deadline has fired the item. -/
def TimedMem.FiredDue (s : TimedMem T Q J) (x : Item Q J) : Prop :=
  ∃ e ∈ s.fired, e.item = x ∧ x.executeTick ≤ e.now

instance (s : TimedMem T Q J) (x : Item Q J) : Decidable (s.FiredDue x) :=
  inferInstanceAs (Decidable (∃ e ∈ s.fired, e.item = x ∧ x.executeTick ≤ e.now))

/-- Nothing but the timer pushes the job to the queue. -/
def throughTimer (q : Q) (job : J) : Action T (TimedChoice T Q J) → Bool
  | .enter _ (.job (.callPush q' job' _)) | .step _ (.job (.callPush q' job' _)) =>
      !decide (q' = q ∧ job' = job)
  | _ => true

/-- A `Push` of the job that has not counted it. -/
def Frame.pushingJob (q : Q) (job : J) : Frame T Q J → ℕ
  | .push q' job' _ => if q' = q ∧ job' = job then 1 else 0
  | _ => 0

def TimedFrame.pushingJob (q : Q) (job : J) : TimedFrame T Q J → ℕ
  | .job f => f.pushingJob q job
  | .timer _ => 0

section Steps

variable [DecidableEq T]

/-- No step but a call makes a `Push` of the job. -/
theorem Step.pushesOf {s s' : Mem T Q J} {t : T} {f : Frame T Q J} {new : List (Frame T Q J)}
    (h : Step s t f s' new) (q : Q) (job : J) (hcall : ∀ pushOnly, .push q job pushOnly ∉ new) :
    s'.pushesOf q job + stackWeight (Frame.pushingJob q job) new =
      s.pushesOf q job + f.pushingJob q job := by
  cases h with
  | push q' job' pushOnly =>
    by_cases hq : q' = q
    · subst hq
      by_cases hjob : job' = job
      · subst hjob
        simp [Mem.pushesOf, Mem.fetchAdd, ConcurrentQueue.enqueue, Frame.pushingJob]
      · simp [Mem.pushesOf, Mem.fetchAdd, ConcurrentQueue.enqueue, Frame.pushingJob, hjob]
    · simp [Mem.pushesOf, Mem.fetchAdd, Frame.pushingJob, hq, Ne.symm hq]
  | callPush q₁ jobCount jobs q' job' pushOnly =>
    have hne : ¬(q' = q ∧ job' = job) := by
      rintro ⟨rfl, rfl⟩
      exact hcall pushOnly List.mem_cons_self
    simp [Frame.pushingJob, hne]
  | globalLeave f hf => rcases hf with rfl | rfl <;> rfl
  | _ => rfl

omit [DecidableEq T] in
/-- A firing starts a `Push`. -/
theorem TimerStep.firingsOf {s s' : TimedMem T Q J} {f : TimerFrame Q J}
    {new : List (TimedFrame T Q J)} (h : TimerStep s f s' new) (q : Q) (job : J) :
    (s'.firingsOf q job).length =
      (s.firingsOf q job).length + stackWeight (TimedFrame.pushingJob q job) new := by
  cases h with
  | fire now item items data _ =>
    by_cases hdata : data.owner = q ∧ data.job = job
    · simp [TimedMem.firingsOf, TimedFrame.pushingJob, Frame.pushingJob, hdata, List.filter_append]
    · simp [TimedMem.firingsOf, TimedFrame.pushingJob, Frame.pushingJob, hdata, List.filter_append]
  | _ => rfl

omit [DecidableEq T] in
theorem pushingJob_map (q : Q) (job : J) (fs : List (Frame T Q J)) :
    stackWeight (TimedFrame.pushingJob q job) (fs.map .job) =
      stackWeight (Frame.pushingJob q job) fs := by
  induction fs with
  | nil => rfl
  | cons f fs ih =>
    rw [List.map_cons, stackWeight_cons, stackWeight_cons, ih]
    rfl

omit [DecidableEq J] in
/-- A `Push` that is not the timer's is called by name. -/
theorem push_called {s s' : Mem T Q J} {t : T} {f : Frame T Q J} {c : Choice T Q J}
    {new : List (Frame T Q J)} (h : step s t f c = some (s', new)) {q : Q} {job : J}
    {pushOnly : Bool} (hmem : .push q job pushOnly ∈ new) : c = .callPush q job pushOnly := by
  cases step_spec h with
  | callPush q' jobCount jobs q'' job' pushOnly' =>
    rcases List.mem_pair.mp hmem with heq | heq
    · obtain ⟨rfl, rfl, rfl⟩ := Frame.push.inj heq
      exact (push_choice h).1
    · cases heq
  | globalRun q' => rcases List.mem_pair.mp hmem with heq | heq <;> cases heq
  | decideLeave | handOver | subLast | globalLeave => exact absurd hmem List.not_mem_nil
  | _ => exact nomatch List.mem_singleton.mp hmem

omit [DecidableEq J] [DecidableEq T] [DecidableEq Q] in
theorem push_entered {s : TimedMem T Q J} {frames : T → List (TimedFrame T Q J)} {t : T}
    {c : TimedChoice T Q J} {r : TimedMem T Q J × TimedFrame T Q J}
    (h : timedEnter s frames t c = some r) {q : Q} {job : J} {pushOnly : Bool}
    (hr : r.2 = .job (.push q job pushOnly)) : c = .job (.callPush q job pushOnly) := by
  cases c <;> simp only [timedEnter, reduceCtorEq] at h <;> split at h <;>
    simp only [Option.some.injEq, Option.map_eq_some_iff, reduceCtorEq] at h
  case job c _ =>
    obtain ⟨r', hr', rfl⟩ := h
    have hpush : r'.2 = .push q job pushOnly := TimedFrame.job.inj hr
    cases c <;> simp only [enter, List.isEmpty_nil, if_true, Option.some.injEq, reduceCtorEq] at hr'
    all_goals
      subst hr'
      cases hpush
    rfl
  all_goals
    subst h
    cases hr

omit [DecidableEq T] in
theorem pushingJob_eq_zero {q : Q} {job : J} {f : TimedFrame T Q J}
    (h : ∀ pushOnly, f ≠ .job (.push q job pushOnly)) : f.pushingJob q job = 0 := by
  cases f with
  | timer f => rfl
  | job f =>
    cases f with
    | push q' job' pushOnly =>
      apply if_neg
      rintro ⟨rfl, rfl⟩
      exact h pushOnly rfl
    | _ => rfl

variable [Fintype T] {s s' : Conf T (TimedMem T Q J) (TimedFrame T Q J)}

/-- The pushes of the job are its firings. -/
def Delivered (q : Q) (job : J) (s : Conf T (TimedMem T Q J) (TimedFrame T Q J)) : Prop :=
  s.mem.jobs.pushesOf q job + weight (TimedFrame.pushingJob q job) s.frames =
    (s.mem.firingsOf q job).length

theorem Delivered.next {q : Q} {job : J} {a : Action T (TimedChoice T Q J)}
    (h : Delivered q job s) (ha : throughTimer q job a = true)
    (hs' : timedMachine.next s a = some s') : Delivered q job s' := by
  unfold Delivered at h ⊢
  rcases Machine.next_cases hs' with ⟨t, c, mem, f, rfl, he, rfl⟩ |
    ⟨t, c, f, fs, mem, new, rfl, hs, he, rfl⟩ | ⟨c, mem, rfl, he, rfl⟩
  · have hnone : f.pushingJob q job = 0 := by
      apply pushingJob_eq_zero
      rintro pushOnly rfl
      obtain rfl := push_entered he rfl
      simp [throughTimer] at ha
    obtain ⟨_, hmem, _⟩ := timedEnter_spec he
    obtain rfl : mem = s.mem := hmem
    rw [weight_push s.frames t hnone]
    exact h
  · have hweight := weight_step (TimedFrame.pushingJob q job) hs new
    cases timedStep_spec he with
    | job f jobs new hstep =>
      have hcall : ∀ pushOnly, .push q job pushOnly ∉ new := by
        intro pushOnly hmem
        cases c with
        | job c =>
          obtain ⟨r, hr, heq⟩ := Option.map_eq_some_iff.mp he
          have hnew : r.2 = new :=
            List.map_injective_iff.mpr (fun _ _ => TimedFrame.job.inj) (Prod.mk.inj heq).2
          obtain rfl := push_called hr (hnew ▸ hmem)
          simp [throughTimer] at ha
        | callReserve tickAfter owner job' =>
          cases hstep with
          | callPush => simp [timedMachine, timedStep] at he
          | _ => simp at hmem
        | _ => cases f <;> cases he
      have hpushes := hstep.pushesOf q job hcall
      rw [pushingJob_map] at hweight
      have htop : (TimedFrame.job f).pushingJob q job = f.pushingJob q job := rfl
      have hfirings : TimedMem.firingsOf { s.mem with jobs := jobs } q job =
          s.mem.firingsOf q job := rfl
      dsimp only
      rw [hfirings]
      omega
    | callReserve q' jobCount jobs tickAfter owner job' =>
      have hnew : stackWeight (TimedFrame.pushingJob q job)
          [.timer (.reserve tickAfter owner job'), .job (.running q' jobCount jobs)] = 0 := rfl
      have htop : (TimedFrame.job (.running q' jobCount jobs)).pushingJob q job = 0 := rfl
      dsimp only
      omega
    | timer f mem new hstep =>
      have hfirings := hstep.firingsOf q job
      have htop : (TimedFrame.timer f : TimedFrame T Q J).pushingJob q job = 0 := rfl
      dsimp only
      rw [hstep.jobs]
      omega
  · rcases timedEnv_spec he with ⟨ticks, rfl⟩ | ⟨q, rfl⟩ <;> exact h

theorem delivered_reach {q : Q} {job : J}
    (h : timedMachine.Reach (fun _ a => throughTimer q job a = true) timedStart s) :
    Delivered q job s := by
  apply h.invariant (Delivered q job)
  · have hidle : weight (TimedFrame.pushingJob q job)
        (timedStart : Conf T (TimedMem T Q J) (TimedFrame T Q J)).frames = 0 := weight_idle _
    rw [Delivered, hidle]
    rfl
  · exact fun _ _ _ _ hi ha hs' => hi.next ha hs'

/-- A queue runs a job no more often than it was pushed, and as often once nothing is counted. -/
theorem Inv.runsOf_le {s : Conf T (Mem T Q J) (Frame T Q J)} (h : Inv s) (q : Q)
    (job : J) : s.mem.runsOf q job ≤ s.mem.pushesOf q job ∧
      (s.mem.mJobCount q = 0 → s.mem.runsOf q job = s.mem.pushesOf q job) := by
  have hran : (s.mem.ran q).Subperm (s.mem.pushed q) := by
    apply subperm_of_producers
    intro p
    obtain ⟨left, htaken⟩ := h.taken_eq q
    rw [h.order q p, htaken, ofProducer_append, List.append_assoc, List.append_assoc]
    exact (List.prefix_append _ _).sublist
  have hle : s.mem.runsOf q job ≤ s.mem.pushesOf q job := by
    obtain ⟨l, hperm, hsublist⟩ := hran
    have hcount : ((s.mem.ran q).map Prod.snd).count job = (l.map Prod.snd).count job :=
      (hperm.map Prod.snd).count_eq job |>.symm
    rw [Mem.runsOf, Mem.pushesOf, hcount]
    exact (hsublist.map Prod.snd).count_le job
  refine ⟨hle, fun hzero => le_antisymm hle ?_⟩
  have hpushed : (s.mem.pushed q).Subperm (s.mem.ran q) :=
    subperm_of_producers fun p => (h.drained q hzero p) ▸ List.Sublist.refl _
  have hperm : (s.mem.pushed q).Perm (s.mem.ran q) := hpushed.antisymm hran
  exact ((hperm.map Prod.snd).count_eq job).le

omit [DecidableEq T] in
theorem TimerInv.fired_nodup (h : TimerInv s) :
    (s.mem.fired.map Firing.item).Nodup ∧ ∀ e ∈ s.mem.fired, e.item ∈ s.mem.reserved := by
  have hfired (x : Item Q J) : (s.mem.fired.map Firing.item).count x ≤ s.mem.reserved.count x := by
    have hle := h.firings x
    have hheld := deleting_le x s.frames
    have hplaces := h.places x
    omega
  constructor
  · apply List.nodup_iff_count_le_one.mpr
    intro x
    exact (hfired x).trans (List.nodup_iff_count_le_one.mp h.reserved_nodup x)
  · intro e he
    have hpos : 0 < (s.mem.fired.map Firing.item).count e.item :=
      List.count_pos_iff.mpr (List.mem_map_of_mem he)
    exact List.count_pos_iff.mp (hpos.trans_le (hfired e.item))

omit [DecidableEq T] in
/-- Each firing of the job is due to another reservation, whose deadline has come. -/
theorem TimerInv.firingsOf_le (h : TimerInv s) (q : Q) (job : J) :
    (s.mem.firingsOf q job).length ≤
      ((s.mem.reservationsOf q job).filter fun x => s.mem.FiredDue x).length := by
  have hsublist : ((s.mem.firingsOf q job).map Firing.item).Sublist
      (s.mem.fired.map Firing.item) := List.filter_sublist.map _
  have hnodup := h.fired_nodup.1.sublist hsublist
  have hsubset : (s.mem.firingsOf q job).map Firing.item ⊆
      (s.mem.reservationsOf q job).filter fun x => s.mem.FiredDue x := by
    intro x hx
    obtain ⟨e, he, rfl⟩ := List.mem_map.mp hx
    obtain ⟨hfired, hdata⟩ := List.mem_filter.mp he
    obtain ⟨hdue, howner, hjob⟩ := h.fired e hfired
    obtain ⟨rfl, rfl⟩ : e.owner = q ∧ e.job = job := by simpa using hdata
    apply List.mem_filter.mpr
    refine ⟨List.mem_filter.mpr ⟨h.fired_nodup.2 e hfired, ?_⟩, ?_⟩
    · rw [howner, hjob]
      exact decide_eq_true rfl
    · exact decide_eq_true ⟨e, hfired, rfl, hdue⟩
  have hlength := (List.subperm_of_subset hnodup hsubset).length_le
  rwa [List.length_map] at hlength

omit [DecidableEq T] in
/-- Without a reservation of the job in `mTimerQueue` or with a thread, all have been fired. -/
theorem TimerInv.reservationsOf_le (h : TimerInv s) (q : Q) (job : J)
    (hidle : ∀ t, s.frames t = []) (hqueue : ∀ x ∈ s.mem.mTimerQueue, x.data ≠ ⟨q, job⟩)
    (hliving : s.mem.expired q = false) :
    (s.mem.reservationsOf q job).length ≤ (s.mem.firingsOf q job).length := by
  have hsubset : s.mem.reservationsOf q job ⊆ (s.mem.firingsOf q job).map Firing.item := by
    intro x hx
    obtain ⟨hreserved, hdata⟩ := List.mem_filter.mp hx
    have hdata : x.data = ⟨q, job⟩ := of_decide_eq_true hdata
    have hplaces := h.places x
    have hheld : weight (TimedFrame.held x) s.frames = 0 := by
      apply (weight_eq_zero _ _).mpr
      intro t f hf
      rw [hidle t] at hf
      exact absurd hf List.not_mem_nil
    have hqueued : s.mem.mTimerQueue.count x = 0 :=
      List.count_eq_zero.mpr fun hmem => hqueue x hmem hdata
    have hpos : 0 < s.mem.reserved.count x := List.count_pos_iff.mpr hreserved
    have hfinished : x ∈ s.mem.finished := by
      apply List.count_pos_iff.mp
      omega
    rcases h.finished x hfinished with hfired | hexpired
    · obtain ⟨e, he, rfl⟩ := List.mem_map.mp hfired
      obtain ⟨_, howner, hjob⟩ := h.fired e he
      refine List.mem_map_of_mem (List.mem_filter.mpr ⟨he, ?_⟩)
      rw [howner, hjob, hdata]
      simp
    · rw [hdata, hliving] at hexpired
      cases hexpired
  have hlength := (List.subperm_of_subset (h.reserved_nodup.filter _) hsubset).length_le
  rwa [List.length_map] at hlength

/-- The runs of a job that is reserved with the timer. What an `Execute` whose time was over has
left to `GlobalQueue` still counts in `mJobCount`. -/
structure TimedRuns (q : Q) (job : J) (s : Conf T (TimedMem T Q J) (TimedFrame T Q J)) : Prop where
  due : s.mem.jobs.runsOf q job ≤
    ((s.mem.reservationsOf q job).filter fun x => s.mem.FiredDue x).length
  settled : (∀ t, s.frames t = []) → (∀ x ∈ s.mem.mTimerQueue, x.data ≠ ⟨q, job⟩) →
    s.mem.jobs.mJobCount q = 0 → s.mem.expired q = false →
    s.mem.jobs.runsOf q job = (s.mem.reservationsOf q job).length

/-- A job that only the timer pushes runs no more often than it was reserved with a deadline that
has come; and as often as it was reserved when the threads are idle, the timer holds none of its
reservations, the job count of its queue is 0 and that queue has not expired. -/
theorem timed_job_runs {q : Q} {job : J}
    (h : timedMachine.Reach (fun _ a => throughTimer q job a = true) timedStart s) :
    TimedRuns q job s := by
  have hreach : TimedReachable s := h.mono fun _ _ _ => trivial
  have hinv := hreach.inv
  have hruns := (jobPart_reachable hreach).inv.runsOf_le q job
  have hruns_le : s.mem.jobs.runsOf q job ≤ s.mem.jobs.pushesOf q job := hruns.1
  have hdelivered : s.mem.jobs.pushesOf q job + weight (TimedFrame.pushingJob q job) s.frames =
    (s.mem.firingsOf q job).length := delivered_reach h
  have hfirings := hinv.firingsOf_le q job
  constructor
  · omega
  · intro hidle hqueue hcount hliving
    have heq : s.mem.jobs.runsOf q job = s.mem.jobs.pushesOf q job := hruns.2 hcount
    have hnone : weight (TimedFrame.pushingJob q job) s.frames = 0 := by
      apply (weight_eq_zero _ _).mpr
      intro t f hf
      rw [hidle t] at hf
      exact absurd hf List.not_mem_nil
    have hall := hinv.reservationsOf_le q job hidle hqueue hliving
    have hfilter : ((s.mem.reservationsOf q job).filter fun x => s.mem.FiredDue x).length ≤
        (s.mem.reservationsOf q job).length := List.length_filter_le _ _
    omega

end Steps

theorem timed_job_runs_fireOnce :
    ∃ s : Conf Unit (TimedMem Unit Bool ℕ) (TimedFrame Unit Bool ℕ),
      s.mem.jobs.runsOf true 1 = 1 ∧ TimedRuns true 1 s := by
  have hr := Machine.reach_finalChecked timedMachine (fun _ => throughTimer true 1)
    (timedStart : Conf Unit (TimedMem Unit Bool ℕ) (TimedFrame Unit Bool ℕ)) fireOnce (by decide)
  exact ⟨_, by decide, timed_job_runs hr⟩

end ServerCore.Jobs
