import ServerCore.Jobs.TimedJobs

namespace ServerCore.Jobs

open Framework

variable {T Q J : Type}

namespace TimedFrame

/-- Positions inside `Push` or `Reserve`. -/
def light : TimedFrame T Q J → Prop
  | .job (.push ..) | .job (.enqueue ..) | .job (.decide ..) | .job (.handOver _)
  | .timer (.reserve ..) | .timer (.new ..) | .timer (.insert ..) => True
  | _ => False

/-- Positions inside `DoGlobalJobs` or `Distribute`. -/
def outer : TimedFrame T Q J → Prop
  | .job .globalJobs | .job .globalPop | .job (.globalFound _)
  | .timer (.distribute _) | .timer (.collect ..) | .timer (.compare ..) | .timer (.deliver ..)
  | .timer (.delete ..) => True
  | _ => False

/-- Positions inside `Execute` of `q`, once `LCurrentJobQueue` is set. -/
def active (q : Q) : TimedFrame T Q J → Prop
  | .job (.drain q') | .job (.batch q' _ _) | .job (.running q' _ _) | .job (.timeCheck q') =>
      q' = q
  | _ => False

/-- An activation of `Execute`. -/
def executing : TimedFrame T Q J → Bool
  | .job (.execute _) | .job (.drain _) | .job (.batch ..) | .job (.running ..)
  | .job (.timeCheck _) => true
  | _ => false

end TimedFrame

/-- What may lie below everything else on a stack. -/
inductive Outer : List (TimedFrame T Q J) → Prop
  | idle : Outer []
  | frame (f) : f.outer → Outer [f]

/-- The stack of a thread whose `LCurrentJobQueue` is `cur`. -/
inductive Shape (cur : Option Q) : List (TimedFrame T Q J) → Prop
  | outer (fs) : cur = none → Outer fs → Shape cur fs
  | light (f fs) : cur = none → f.light → Outer fs → Shape cur (f :: fs)
  | execute (q fs) : cur = none → Outer fs → Shape cur (.job (.execute q) :: fs)
  | active (q f fs) : cur = some q → f.active q → Outer fs → Shape cur (f :: fs)
  | nested (q jobCount jobs f fs) : cur = some q → f.light → Outer fs →
      Shape cur (f :: .job (.running q jobCount jobs) :: fs)

section Shape

variable {cur : Option Q} {f : TimedFrame T Q J} {fs : List (TimedFrame T Q J)}

theorem TimedFrame.light.not_outer (h : f.light) : ¬f.outer := by
  unfold TimedFrame.light at h
  split at h <;> simp_all [TimedFrame.outer]

theorem TimedFrame.light.not_active (h : f.light) (q : Q) : ¬f.active q := by
  unfold TimedFrame.light at h
  split at h <;> simp_all [TimedFrame.active]

theorem TimedFrame.light.not_executing (h : f.light) : f.executing = false := by
  unfold TimedFrame.light at h
  split at h <;> simp_all [TimedFrame.executing]

theorem TimedFrame.outer.not_active (h : f.outer) (q : Q) : ¬f.active q := by
  unfold TimedFrame.outer at h
  split at h <;> simp_all [TimedFrame.active]

theorem TimedFrame.outer.not_executing (h : f.outer) : f.executing = false := by
  unfold TimedFrame.outer at h
  split at h <;> simp_all [TimedFrame.executing]

theorem TimedFrame.active.executing {q : Q} (h : f.active q) : f.executing = true := by
  unfold TimedFrame.active at h
  split at h <;> simp_all [TimedFrame.executing]

theorem TimedFrame.active.unique {q q' : Q} (h : f.active q) (h' : f.active q') : q = q' := by
  unfold TimedFrame.active at h h'
  split at h <;> simp_all

/-- A `Push` or `Reserve` on top may go on, and may return. -/
theorem Shape.of_light (h : Shape cur (f :: fs)) (hf : f.light) :
    Shape cur fs ∧ (∀ g, g.light → Shape cur (g :: fs)) ∧ (cur = none → Outer fs) := by
  cases h with
  | outer _ hcur h =>
    cases h with
    | frame _ ho => exact absurd ho hf.not_outer
  | light _ _ hcur _ ho => exact ⟨.outer _ hcur ho, fun g hg => .light _ _ hcur hg ho, fun _ => ho⟩
  | execute => exact hf.elim
  | active q _ _ _ ha => exact absurd ha (hf.not_active q)
  | nested q jobCount jobs _ fs hcur _ ho =>
    refine ⟨.active q _ _ hcur rfl ho, fun g hg => .nested q _ _ _ _ hcur hg ho, ?_⟩
    intro hnone
    rw [hcur] at hnone
    cases hnone

theorem Shape.of_active {q : Q} (h : Shape cur (f :: fs)) (hf : f.active q) :
    cur = some q ∧ Outer fs := by
  cases h with
  | outer _ hcur h =>
    cases h with
    | frame _ ho => exact absurd hf (ho.not_active q)
  | light _ _ _ hl => exact absurd hf (hl.not_active q)
  | execute => exact hf.elim
  | active q' _ _ hcur ha ho =>
    obtain rfl := ha.unique hf
    exact ⟨hcur, ho⟩
  | nested _ _ _ _ _ _ hl => exact absurd hf (hl.not_active q)

theorem Shape.of_execute {q : Q} (h : Shape cur (.job (.execute q) :: fs)) :
    cur = none ∧ Outer fs := by
  cases h with
  | outer _ hcur h =>
    cases h with
    | frame _ ho => exact ho.elim
  | light _ _ _ hl => exact hl.elim
  | execute _ _ hcur ho => exact ⟨hcur, ho⟩
  | active _ _ _ _ ha => exact ha.elim
  | nested _ _ _ _ _ _ hl => exact hl.elim

theorem Shape.of_outer (h : Shape cur (f :: fs)) (hf : f.outer) : cur = none ∧ fs = [] := by
  cases h with
  | outer _ hcur h =>
    cases h with
    | frame _ _ => exact ⟨hcur, rfl⟩
  | light _ _ _ hl => exact absurd hf hl.not_outer
  | execute => exact hf.elim
  | active q _ _ _ ha => exact absurd ha (hf.not_active q)
  | nested _ _ _ _ _ _ hl => exact absurd hf hl.not_outer

theorem Outer.activations (h : Outer fs) : fs.countP TimedFrame.executing = 0 := by
  cases h with
  | idle => rfl
  | frame f hf => simp [hf.not_executing]

theorem Outer.length (h : Outer fs) : fs.length ≤ 1 := by
  cases h <;> simp

/-- At most one activation of `Execute`, which `LCurrentJobQueue` tells, and few frames. -/
theorem Shape.activations (h : Shape cur fs) :
    fs.countP TimedFrame.executing ≤ 1 ∧
    (fs.countP TimedFrame.executing = 0 → cur = none) ∧
    (∀ q jobCount jobs, .job (.running q jobCount jobs) ∈ fs → cur = some q) ∧
    fs.length ≤ 3 := by
  have running (gs : List (TimedFrame T Q J)) (hg : Outer gs) (q : Q) (jobCount : ℕ)
      (jobs : List (T × J)) : .job (.running q jobCount jobs) ∉ gs := by
    cases hg with
    | idle => simp
    | frame g ho =>
      intro hmem
      obtain rfl := List.mem_singleton.mp hmem
      exact ho
  cases h with
  | outer _ hcur ho =>
    have hlen := ho.length
    exact ⟨ho.activations.trans_le (by omega), fun _ => hcur,
      fun q n jobs hmem => absurd hmem (running _ ho q n jobs), by omega⟩
  | light f fs hcur hl ho =>
    have hlen := ho.length
    have hzero := ho.activations
    refine ⟨by simp [hl.not_executing, hzero], fun _ => hcur, ?_,
      by simp only [List.length_cons]; omega⟩
    intro q n jobs hmem
    rcases List.mem_cons.mp hmem with rfl | hmem
    · exact hl.elim
    · exact absurd hmem (running _ ho q n jobs)
  | execute q fs hcur ho =>
    have hlen := ho.length
    have hzero := ho.activations
    have hexec : (TimedFrame.job (.execute q) : TimedFrame T Q J).executing = true := rfl
    refine ⟨by simp [hexec, hzero], fun _ => hcur, ?_,
      by simp only [List.length_cons]; omega⟩
    intro q' n jobs hmem
    rcases List.mem_cons.mp hmem with hmem | hmem
    · cases hmem
    · exact absurd hmem (running _ ho q' n jobs)
  | active q f fs hcur ha ho =>
    have hlen := ho.length
    have hzero := ho.activations
    refine ⟨by simp [ha.executing, hzero], ?_, ?_, by simp only [List.length_cons]; omega⟩
    · intro hnone
      simp [ha.executing] at hnone
    · intro q' n jobs hmem
      rcases List.mem_cons.mp hmem with rfl | hmem
      · obtain rfl : q' = q := ha
        exact hcur
      · exact absurd hmem (running _ ho q' n jobs)
  | nested q n jobs f fs hcur hl ho =>
    have hlen := ho.length
    have hzero := ho.activations
    have hexec : (TimedFrame.job (.running q n jobs)).executing = true := rfl
    refine ⟨by simp [hexec, hl.not_executing, hzero], ?_, ?_,
      by simp only [List.length_cons]; omega⟩
    · intro hnone
      simp [hexec] at hnone
    · intro q' n' jobs' hmem
      rcases List.mem_cons.mp hmem with rfl | hmem
      · exact hl.elim
      · rcases List.mem_cons.mp hmem with hmem | hmem
        · cases hmem
          exact hcur
        · exact absurd hmem (running _ ho q' n' jobs')

end Shape

variable [DecidableEq T] [DecidableEq Q] [DecidableEq J]

omit [DecidableEq J] in
/-- A step changes `LCurrentJobQueue` of its own thread only. -/
theorem Step.current {s s' : Mem T Q J} {t : T} {f : Frame T Q J} {new : List (Frame T Q J)}
    (h : Step s t f s' new) {u : T} (hu : u ≠ t) : s'.LCurrentJobQueue u = s.LCurrentJobQueue u := by
  cases h with
  | execute q => exact Function.update_of_ne hu _ _
  | subLast q jobCount _ => exact Function.update_of_ne hu _ _
  | timeOver q => exact Function.update_of_ne hu _ _
  | _ => rfl

omit [DecidableEq J] in
theorem Shape.job {s s' : Mem T Q J} {t : T} {f : Frame T Q J} {new : List (Frame T Q J)}
    {fs : List (TimedFrame T Q J)} (h : Shape (s.LCurrentJobQueue t) (.job f :: fs))
    (hs : Step s t f s' new) : Shape (s'.LCurrentJobQueue t) (new.map .job ++ fs) := by
  cases hs with
  | push q job pushOnly => exact (h.of_light trivial).2.1 _ trivial
  | enqueue q job pushOnly prevCount => exact (h.of_light trivial).2.1 _ trivial
  | decideRun q pushOnly hcur => exact .execute _ _ hcur ((h.of_light trivial).2.2 hcur)
  | decideHand q pushOnly => exact (h.of_light trivial).2.1 _ trivial
  | decideLeave q pushOnly prevCount _ => exact (h.of_light trivial).1
  | handOver q => exact (h.of_light trivial).1
  | execute q =>
    obtain ⟨_, ho⟩ := h.of_execute
    exact .active q _ _ (Function.update_self ..) rfl ho
  | drain q jobs rest _ _ =>
    obtain ⟨hcur, ho⟩ := h.of_active rfl
    exact .active q _ _ hcur rfl ho
  | startJob q jobCount job jobs =>
    obtain ⟨hcur, ho⟩ := h.of_active rfl
    exact .active q _ _ hcur rfl ho
  | callPush q jobCount jobs q' job pushOnly =>
    obtain ⟨hcur, ho⟩ := h.of_active rfl
    exact .nested q _ _ _ _ hcur trivial ho
  | endJob q jobCount jobs =>
    obtain ⟨hcur, ho⟩ := h.of_active rfl
    exact .active q _ _ hcur rfl ho
  | subLast q jobCount _ =>
    obtain ⟨_, ho⟩ := h.of_active rfl
    exact .outer _ (Function.update_self ..) ho
  | subMore q jobCount _ =>
    obtain ⟨hcur, ho⟩ := h.of_active rfl
    exact .active q _ _ hcur rfl ho
  | timeOver q =>
    obtain ⟨_, ho⟩ := h.of_active rfl
    exact .light _ _ (Function.update_self ..) trivial ho
  | timeLeft q =>
    obtain ⟨hcur, ho⟩ := h.of_active rfl
    exact .active q _ _ hcur rfl ho
  | globalLeave f hf =>
    have ho : (TimedFrame.job f).outer := by rcases hf with rfl | rfl <;> trivial
    obtain ⟨hcur, rfl⟩ := h.of_outer ho
    exact .outer _ hcur .idle
  | globalTest =>
    obtain ⟨hcur, rfl⟩ := h.of_outer trivial
    exact .outer _ hcur (.frame _ trivial)
  | globalPop q p rest _ =>
    obtain ⟨hcur, rfl⟩ := h.of_outer trivial
    exact .outer _ hcur (.frame _ trivial)
  | globalRun q =>
    obtain ⟨hcur, rfl⟩ := h.of_outer trivial
    exact .execute q _ hcur (.frame _ trivial)

omit [DecidableEq T] in
theorem Shape.timer {s s' : TimedMem T Q J} {cur : Option Q} {f : TimerFrame Q J}
    {fs new : List (TimedFrame T Q J)} (h : Shape cur (.timer f :: fs))
    (hs : TimerStep s f s' new) : Shape cur (new ++ fs) := by
  cases hs with
  | reserve tickAfter owner job executeTick => exact (h.of_light trivial).2.1 _ trivial
  | new executeTick owner job => exact (h.of_light trivial).2.1 _ trivial
  | insert executeTick jobData data => exact (h.of_light trivial).1
  | fire now item items data _ =>
    obtain ⟨hcur, rfl⟩ := h.of_outer trivial
    exact .light _ _ hcur trivial (.frame _ trivial)
  | busy now _ =>
    obtain ⟨hcur, rfl⟩ := h.of_outer trivial
    exact .outer _ hcur .idle
  | done now =>
    obtain ⟨hcur, rfl⟩ := h.of_outer trivial
    exact .outer _ hcur .idle
  | _ =>
    obtain ⟨hcur, rfl⟩ := h.of_outer trivial
    exact .outer _ hcur (.frame _ trivial)

omit [DecidableEq T] in
theorem TimerStep.jobs {s s' : TimedMem T Q J} {f : TimerFrame Q J}
    {new : List (TimedFrame T Q J)} (h : TimerStep s f s' new) : s'.jobs = s.jobs := by
  cases h <;> rfl

theorem Shape.step {s s' : TimedMem T Q J} {t : T} {f : TimedFrame T Q J}
    {fs new : List (TimedFrame T Q J)} (h : Shape (s.jobs.LCurrentJobQueue t) (f :: fs))
    (hs : TimedStep s t f s' new) : Shape (s'.jobs.LCurrentJobQueue t) (new ++ fs) := by
  cases hs with
  | job f jobs new hs => exact h.job hs
  | callReserve q jobCount jobs tickAfter owner job =>
    obtain ⟨hcur, ho⟩ := h.of_active rfl
    exact .nested q _ _ _ _ hcur trivial ho
  | timer f s' new hs =>
    rw [hs.jobs]
    exact h.timer hs

theorem TimedStep.current {s s' : TimedMem T Q J} {t : T} {f : TimedFrame T Q J}
    {new : List (TimedFrame T Q J)} (h : TimedStep s t f s' new) {u : T} (hu : u ≠ t) :
    s'.jobs.LCurrentJobQueue u = s.jobs.LCurrentJobQueue u := by
  cases h with
  | job f jobs new hs => exact hs.current hu
  | callReserve => rfl
  | timer f s' new hs => rw [hs.jobs]

omit [DecidableEq T] [DecidableEq Q] [DecidableEq J] in
/-- All that entering a function can do. -/
theorem timedEnter_spec {s : TimedMem T Q J} {frames : T → List (TimedFrame T Q J)} {t : T}
    {c : TimedChoice T Q J} {r : TimedMem T Q J × TimedFrame T Q J}
    (h : timedEnter s frames t c = some r) :
    frames t = [] ∧ r.1 = s ∧ ((∃ q job pushOnly, r.2 = .job (.push q job pushOnly)) ∨
      r.2 = .job .globalJobs ∨
      (∃ tickAfter owner job, r.2 = .timer (.reserve tickAfter owner job)) ∨
      ∃ now, r.2 = .timer (.distribute now)) := by
  cases c <;> simp only [timedEnter, reduceCtorEq] at h <;> split at h <;> try cases h
  case job c hidle =>
    obtain ⟨r', hr', rfl⟩ := Option.map_eq_some_iff.mp h
    obtain ⟨_, hmem, hf⟩ := enter_spec hr'
    refine ⟨by simpa using hidle, by rw [hmem], ?_⟩
    rcases hf with ⟨q, job, pushOnly, hf⟩ | hf
    · exact .inl ⟨q, job, pushOnly, by rw [hf]⟩
    · exact .inr (.inl (by rw [hf]))
  case callReserve tickAfter owner job hidle =>
    exact ⟨by simpa using hidle, rfl, .inr (.inr (.inl ⟨_, _, _, rfl⟩))⟩
  case callDistribute now hidle =>
    exact ⟨by simpa using hidle, rfl, .inr (.inr (.inr ⟨_, rfl⟩))⟩

omit [DecidableEq J] in
theorem timedEnv_spec {s s' : TimedMem T Q J} {c : TimedChoice T Q J}
    (h : timedEnv s c = some s') :
    (∃ ticks, s' = { s with jobs := { s.jobs with LEndTickCount := ticks } }) ∨
      ∃ q, s' = { s with expired := Function.update s.expired q true } := by
  cases c <;> simp only [timedEnv, reduceCtorEq] at h
  case job c =>
    obtain ⟨r, hr, rfl⟩ := Option.map_eq_some_iff.mp h
    obtain ⟨ticks, rfl⟩ := env_spec hr
    exact .inl ⟨ticks, rfl⟩
  case expire q => exact .inr ⟨q, (Option.some.inj h).symm⟩

theorem TimedReachable.shape {s : Conf T (TimedMem T Q J) (TimedFrame T Q J)}
    (h : TimedReachable s) : ∀ t, Shape (s.mem.jobs.LCurrentJobQueue t) (s.frames t) := by
  apply Machine.Reach.invariant
    (fun s => ∀ t, Shape (s.mem.jobs.LCurrentJobQueue t) (s.frames t)) h
  · exact fun t => .outer _ rfl .idle
  · intro s a s' _ hshape _ hs' u
    rcases Machine.next_cases hs' with ⟨t, c, mem, f, rfl, he, rfl⟩ |
      ⟨t, c, f, fs, mem, new, rfl, hs, he, rfl⟩ | ⟨c, mem, rfl, he, rfl⟩
    · obtain ⟨hidle, hmem, hf⟩ := timedEnter_spec he
      obtain rfl : mem = s.mem := hmem
      by_cases hu : u = t
      · subst hu
        have hcur := hidle ▸ hshape u
        have hnone : s.mem.jobs.LCurrentJobQueue u = none := by
          cases hcur with
          | outer _ hnone _ => exact hnone
        show Shape _ (Function.update s.frames u (f :: s.frames u) u)
        rw [Function.update_self, hidle]
        rcases hf with ⟨q, job, pushOnly, hf⟩ | hf | ⟨tickAfter, owner, job, hf⟩ | ⟨now, hf⟩ <;>
          obtain rfl := hf
        · exact .light _ _ hnone trivial .idle
        · exact .outer _ hnone (.frame _ trivial)
        · exact .light _ _ hnone trivial .idle
        · exact .outer _ hnone (.frame _ trivial)
      · show Shape _ (Function.update s.frames t (f :: s.frames t) u)
        rw [Function.update_of_ne hu]
        exact hshape u
    · have hstep := timedStep_spec he
      by_cases hu : u = t
      · subst hu
        show Shape _ (Function.update s.frames u (new ++ fs) u)
        rw [Function.update_self]
        exact Shape.step (hs ▸ hshape u) hstep
      · show Shape (mem.jobs.LCurrentJobQueue u) (Function.update s.frames t (new ++ fs) u)
        rw [Function.update_of_ne hu, hstep.current hu]
        exact hshape u
    · rcases timedEnv_spec he with ⟨ticks, rfl⟩ | ⟨q, rfl⟩ <;> exact hshape u

/-- No thread is inside `Execute` twice, `LCurrentJobQueue` tells where it is, and no chain
of pushes makes its stack grow. -/
theorem no_nested_execute {s : Conf T (TimedMem T Q J) (TimedFrame T Q J)}
    (h : TimedReachable s) (t : T) :
    (s.frames t).countP TimedFrame.executing ≤ 1 ∧
    ((s.frames t).countP TimedFrame.executing = 0 → s.mem.jobs.LCurrentJobQueue t = none) ∧
    (∀ q jobCount jobs, .job (.running q jobCount jobs) ∈ s.frames t →
      s.mem.jobs.LCurrentJobQueue t = some q) ∧
    (s.frames t).length ≤ 3 :=
  (h.shape t).activations

/-- A timer fires into one queue, whose job pushes to a second queue and back. -/
def pushAround : List (Action Unit (TimedChoice Unit Bool ℕ)) :=
  [.enter () (.callReserve 5 true 1), .step () (.clock 100), .step () .go, .step () .go,
    .enter () (.callDistribute 200), .step () .go, .step () (.pop (some ⟨105, 0, 0, ⟨true, 1⟩⟩)),
    .step () .go, .step () (.pop none), .step () .go, .step () (.job .go), .step () (.job .go),
    .step () (.job .go), .step () (.job .go), .step () (.job (.take [()])), .step () (.job .go),
    .step () (.job (.callPush false 2 false)), .step () (.job .go), .step () (.job .go),
    .step () (.job .go)]

theorem no_nested_execute_pushAround :
    ∃ s : Conf Unit (TimedMem Unit Bool ℕ) (TimedFrame Unit Bool ℕ), TimedReachable s ∧
      s.frames () = [.job (.handOver false), .job (.running true 1 []),
        .timer (.delete 200 ⟨105, 0, 0, ⟨true, 1⟩⟩ [])] ∧
      s.mem.jobs.LCurrentJobQueue () = some true := by
  have hr : TimedReachable (timedMachine.final timedStart pushAround (by decide)) :=
    Machine.reach_final timedMachine timedStart pushAround _
  have hframes : (timedMachine.final timedStart pushAround (by decide)).frames () =
      [.job (.handOver false), .job (.running true 1 []),
        .timer (.delete 200 ⟨105, 0, 0, ⟨true, 1⟩⟩ [])] := by decide
  obtain ⟨_, _, hrunning, _⟩ := no_nested_execute hr ()
  exact ⟨_, hr, hframes, hrunning true 1 [] (by rw [hframes]; simp)⟩

/-- What the job queues see of a stack. -/
def jobFrames (fs : List (TimedFrame T Q J)) : List (Frame T Q J) :=
  fs.filterMap fun f =>
    match f with
    | .job f => some f
    | .timer _ => none

def jobPart (s : Conf T (TimedMem T Q J) (TimedFrame T Q J)) : Conf T (Mem T Q J) (Frame T Q J) :=
  ⟨s.mem.jobs, fun t => jobFrames (s.frames t)⟩

omit [DecidableEq T] [DecidableEq Q] [DecidableEq J] in
theorem jobFrames_append (fs gs : List (TimedFrame T Q J)) :
    jobFrames (fs ++ gs) = jobFrames fs ++ jobFrames gs := List.filterMap_append ..

omit [DecidableEq T] [DecidableEq Q] [DecidableEq J] in
theorem jobFrames_map (fs : List (Frame T Q J)) :
    jobFrames (fs.map .job : List (TimedFrame T Q J)) = fs := by
  induction fs with
  | nil => rfl
  | cons f fs ih => exact congrArg (f :: ·) ih

omit [DecidableEq Q] [DecidableEq J] in
theorem jobPart_update (mem : TimedMem T Q J) (frames : T → List (TimedFrame T Q J)) (t : T)
    (fs : List (TimedFrame T Q J)) :
    jobPart ⟨mem, Function.update frames t fs⟩ =
      ⟨mem.jobs, Function.update (fun u => jobFrames (frames u)) t (jobFrames fs)⟩ := by
  apply congrArg (Conf.mk mem.jobs)
  funext u
  by_cases hu : u = t
  · subst hu
    simp
  · simp [hu]

omit [DecidableEq Q] [DecidableEq J] in
/-- A change of the stack that the job queues do not see. -/
theorem jobPart_same {s : Conf T (TimedMem T Q J) (TimedFrame T Q J)} {mem : TimedMem T Q J}
    {t : T} {fs : List (TimedFrame T Q J)} (hmem : mem.jobs = s.mem.jobs)
    (hfs : jobFrames fs = jobFrames (s.frames t)) :
    jobPart ⟨mem, Function.update s.frames t fs⟩ = jobPart s := by
  rw [jobPart_update, hmem, hfs]
  exact congrArg (Conf.mk s.mem.jobs) (Function.update_eq_self t _)

omit [DecidableEq J] in
theorem jobPart_quiet {s : Conf T (TimedMem T Q J) (TimedFrame T Q J)} (mem : TimedMem T Q J)
    (t : T) (fs : List (TimedFrame T Q J)) (hmem : mem.jobs = s.mem.jobs)
    (hfs : jobFrames fs = jobFrames (s.frames t)) :
    machine.Reach (fun _ _ => True) (jobPart s)
      (jobPart ⟨mem, Function.update s.frames t fs⟩) := by
  rw [jobPart_same hmem hfs]
  exact .start

omit [DecidableEq J] in
/-- A thread in which the job queues see nothing calls into them. -/
theorem jobPart_call {s : Conf T (TimedMem T Q J) (TimedFrame T Q J)} (mem : TimedMem T Q J)
    (t : T) (fs : List (TimedFrame T Q J)) (f : Frame T Q J) (c : Choice T Q J)
    (hidle : jobFrames (s.frames t) = []) (hmem : mem.jobs = s.mem.jobs)
    (hfs : jobFrames fs = [f])
    (hf : ∀ frames : T → List (Frame T Q J), frames t = [] →
      enter s.mem.jobs frames t c = some (s.mem.jobs, f)) :
    machine.Reach (fun _ _ => True) (jobPart s)
      (jobPart ⟨mem, Function.update s.frames t fs⟩) := by
  have hentered : machine.enter (jobPart s).mem (jobPart s).frames t c = some (s.mem.jobs, f) :=
    hf _ hidle
  have hframes : (jobPart s).frames t = [] := hidle
  apply Machine.Reach.next .start (a := .enter t c) trivial
  rw [jobPart_update, hmem, hfs, Machine.next, hentered, hframes]
  rfl

/-- With the timer the job queues do nothing that they do not do when every job that fires
is pushed by a thread of its own accord. -/
theorem jobPart_reachable {s : Conf T (TimedMem T Q J) (TimedFrame T Q J)}
    (h : TimedReachable s) : Reachable (jobPart s) := by
  apply Machine.Reach.simulation jobPart h
  intro s a s' hr _ hs'
  have one {b : Action T (Choice T Q J)} {u : Conf T (Mem T Q J) (Frame T Q J)}
      (hb : machine.next (jobPart s) b = some u) :
      machine.Reach (fun _ _ => True) (jobPart s) u := .next .start trivial hb
  rcases Machine.next_cases hs' with ⟨t, c, mem, f, rfl, he, rfl⟩ |
    ⟨t, c, f, fs, mem, new, rfl, hs, he, rfl⟩ | ⟨c, mem, rfl, he, rfl⟩
  · obtain ⟨hidle, hmem, hf⟩ := timedEnter_spec he
    obtain rfl : mem = s.mem := hmem
    have hempty : jobFrames (s.frames t) = [] := by rw [hidle]; rfl
    rw [hidle]
    rcases hf with ⟨q, job, pushOnly, hf⟩ | hf | ⟨tickAfter, owner, job, hf⟩ | ⟨now, hf⟩ <;>
      obtain rfl := hf
    · apply jobPart_call _ t _ (.push q job pushOnly) (.callPush q job pushOnly) hempty rfl rfl
      intro frames hframes
      simp [enter, hframes]
    · apply jobPart_call _ t _ .globalJobs .callGlobalJobs hempty rfl rfl
      intro frames hframes
      simp [enter, hframes]
    · exact jobPart_quiet _ t _ rfl hempty.symm
    · exact jobPart_quiet _ t _ rfl hempty.symm
  · have htop : jobFrames (s.frames t) = jobFrames (f :: fs) := by rw [hs]
    cases f with
    | job f =>
      cases c with
      | job c =>
        obtain ⟨r, hr', hmem⟩ := Option.map_eq_some_iff.mp he
        simp only [Prod.mk.injEq] at hmem
        obtain ⟨rfl, rfl⟩ := hmem
        apply one (b := .step t c)
        have hframes : (jobPart s).frames t = f :: jobFrames fs := htop
        have hstep : machine.step (jobPart s).mem t f c = some r := hr'
        rw [jobPart_update, jobFrames_append, jobFrames_map, Machine.next, hframes]
        simp only [hstep]
        rfl
      | callReserve tickAfter owner job =>
        obtain ⟨q, jobCount, jobs, rfl⟩ : ∃ q jobCount jobs, f = .running q jobCount jobs := by
          cases f <;> simp [timedMachine, timedStep] at he
          exact ⟨_, _, _, rfl⟩
        simp only [timedMachine, timedStep, Option.some.injEq, Prod.mk.injEq] at he
        obtain ⟨rfl, rfl⟩ := he
        exact jobPart_quiet _ t _ rfl htop.symm
      | _ => cases f <;> cases he
    | timer f =>
      have hstep : TimedStep s.mem t (.timer f) mem new := timedStep_spec he
      cases hstep with
      | timer _ _ _ htimer =>
        cases htimer with
        | fire now item items data hdata =>
          have hshape := hs ▸ TimedReachable.shape hr t
          obtain ⟨_, rfl⟩ := hshape.of_outer trivial
          apply jobPart_call _ t _ (.push data.owner data.job false)
            (.callPush data.owner data.job false) htop rfl rfl
          intro frames hframes
          simp [enter, hframes]
        | _ => exact jobPart_quiet _ t _ rfl htop.symm
  · cases c with
    | job c =>
      obtain ⟨jobs, hjobs, rfl⟩ := Option.map_eq_some_iff.mp he
      apply one (b := .env c)
      have henv : machine.env (jobPart s).mem c = some jobs := hjobs
      rw [Machine.next, henv]
      rfl
    | expire q =>
      obtain rfl := Option.some.inj he
      exact .start
    | _ => cases he

end ServerCore.Jobs
