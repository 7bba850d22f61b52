import ServerCore.App.ChatRooms

namespace ServerCore.App.Rooms

open Framework ConcurrentQueue
open Network (SessionFrame ChatRoomManager)

variable {T S : Type}

namespace Frame

/-- The body of a job of room `q`. -/
def body (q : ℕ) : Frame T S → Option (Jobs.RoomJob S)
  | .changeList q' j | .setRoomID q' j => if q' = q then some j else none
  | _ => none

/-- The jobs on the way to the `fetch_add` of their `Push`. -/
def waiting : Frame T S → List (Jobs.RoomJob S)
  | .doAsync j | .job (.push _ j _) => [j]
  | _ => []

/-- The frame is inside `Enter` or `Leave`. -/
def inBody : Frame T S → Bool
  | .changeList .. | .setRoomID .. => true
  | _ => false

/-- Where a job of room `q` is run, or is the next one that is. -/
def room (q : ℕ) : Frame T S → ℕ
  | .changeList q' _ | .setRoomID q' _ | .job (.batch q' _ _) => if q' = q then 1 else 0
  | _ => 0

end Frame

/-- The stack of a thread: the code of the rooms is above the callbacks of the sessions. -/
inductive Shape : List (Frame T S) → Prop where
  | doAsync (job) (ns : List (SessionFrame T S)) : Shape (.doAsync job :: ns.map .net)
  | job (js : List (Jobs.Frame T ℕ (Jobs.RoomJob S))) (ns : List (SessionFrame T S)) :
      Shape (js.map .job ++ ns.map .net)
  | body (f q job jobCount jobs) (js : List (Jobs.Frame T ℕ (Jobs.RoomJob S)))
      (ns : List (SessionFrame T S)) : f = .changeList q job ∨ f = .setRoomID q job →
      Shape (f :: ((.running q jobCount jobs :: js).map .job ++ ns.map .net))

section Parts

@[simp] theorem toNet_map_net (ns : List (SessionFrame T S)) :
    (ns.map Frame.net).filterMap Frame.toNet = ns := by
  induction ns with
  | nil => rfl
  | cons f ns ih => exact congrArg (f :: ·) ih

@[simp] theorem toNet_map_job (js : List (Jobs.Frame T ℕ (Jobs.RoomJob S))) :
    (js.map Frame.job).filterMap Frame.toNet = [] := by
  induction js with
  | nil => rfl
  | cons f js ih => exact ih

@[simp] theorem toJob_map_net (ns : List (SessionFrame T S)) :
    (ns.map Frame.net).filterMap Frame.toJob = [] := by
  induction ns with
  | nil => rfl
  | cons f ns ih => exact ih

@[simp] theorem toJob_map_job (js : List (Jobs.Frame T ℕ (Jobs.RoomJob S))) :
    (js.map Frame.job).filterMap Frame.toJob = js := by
  induction js with
  | nil => rfl
  | cons f js ih => exact congrArg (f :: ·) ih

/-- A callback asks for nothing, or for one job of its session. -/
theorem callbacks_cases (f : SessionFrame T S) : callbacks f = [] ∨
    (f.2 = .connect .onConnected ∧ callbacks f = [.doAsync (.enter f.1)]) ∨
    (f.2 = .disconnect .onDisconnected ∧ callbacks f = [.doAsync (.leave f.1)]) := by
  obtain ⟨x, f⟩ := f
  cases f with
  | connect f => cases f <;> first | exact .inl rfl | exact .inr (.inl ⟨rfl, rfl⟩)
  | disconnect f => cases f <;> first | exact .inl rfl | exact .inr (.inr ⟨rfl, rfl⟩)
  | _ => exact .inl rfl

theorem callbacks_parts (f : SessionFrame T S) : (callbacks f).filterMap Frame.toNet = [] ∧
    (callbacks f).filterMap Frame.toJob = [] := by
  rcases callbacks_cases f with h | ⟨_, h⟩ | ⟨_, h⟩ <;> rw [h] <;> exact ⟨rfl, rfl⟩

theorem bodies_parts (f : Jobs.Frame T ℕ (Jobs.RoomJob S)) :
    (bodies f).filterMap Frame.toNet = [] ∧ (bodies f).filterMap Frame.toJob = [] := by
  cases f with
  | batch q jobCount jobs => cases jobs <;> exact ⟨rfl, rfl⟩
  | _ => exact ⟨rfl, rfl⟩

variable [DecidableEq T]

/-- The body of a job starts with `startJob` and at no other step. -/
theorem bodies_cases {m m' : Jobs.Mem T ℕ (Jobs.RoomJob S)} {t : T}
    {f : Jobs.Frame T ℕ (Jobs.RoomJob S)} {c : Jobs.Choice T ℕ (Jobs.RoomJob S)}
    {new : List (Jobs.Frame T ℕ (Jobs.RoomJob S))} (h : Jobs.step m t f c = some (m', new)) :
    (bodies f = [] ∧ m'.ran = m.ran) ∨ ∃ q jobCount job jobs, f = .batch q jobCount (job :: jobs) ∧
      bodies f = [.changeList q job.2] ∧ m' = m.startJob q job ∧
      new = [.running q jobCount jobs] := by
  cases Jobs.step_spec h with
  | startJob q jobCount job jobs =>
    exact .inr ⟨q, jobCount, job, jobs, rfl, rfl, rfl, rfl⟩
  | globalLeave f hf => rcases hf with rfl | rfl <;> exact .inl ⟨rfl, rfl⟩
  | _ => exact .inl ⟨rfl, rfl⟩

omit [DecidableEq T] in
theorem Shape.of_net {f : SessionFrame T S} {fs : List (Frame T S)} (h : Shape (.net f :: fs)) :
    ∃ ns : List (SessionFrame T S), fs = ns.map .net := by
  generalize hl : Frame.net f :: fs = l at h
  cases h with
  | doAsync job ns => cases hl
  | job js ns =>
    cases js with
    | nil =>
      cases ns with
      | nil => cases hl
      | cons g ns => exact ⟨ns, (List.cons.inj hl).2⟩
    | cons g js => cases hl
  | body g q job jobCount jobs js ns hg => rcases hg with rfl | rfl <;> cases hl

omit [DecidableEq T] in
theorem Shape.of_doAsync {job : Jobs.RoomJob S} {fs : List (Frame T S)}
    (h : Shape (.doAsync job :: fs)) : ∃ ns : List (SessionFrame T S), fs = ns.map .net := by
  generalize hl : Frame.doAsync job :: fs = l at h
  cases h with
  | doAsync job ns => exact ⟨ns, (List.cons.inj hl).2⟩
  | job js ns =>
    cases js with
    | nil => cases ns <;> cases hl
    | cons g js => cases hl
  | body g q job jobCount jobs js ns hg => rcases hg with rfl | rfl <;> cases hl

omit [DecidableEq T] in
theorem Shape.of_job {f : Jobs.Frame T ℕ (Jobs.RoomJob S)} {fs : List (Frame T S)}
    (h : Shape (.job f :: fs)) : ∃ (js : List (Jobs.Frame T ℕ (Jobs.RoomJob S)))
      (ns : List (SessionFrame T S)), fs = js.map .job ++ ns.map .net := by
  generalize hl : Frame.job f :: fs = l at h
  cases h with
  | doAsync job ns => cases hl
  | job js ns =>
    cases js with
    | nil => cases ns <;> cases hl
    | cons g js => exact ⟨js, ns, (List.cons.inj hl).2⟩
  | body g q job jobCount jobs js ns hg => rcases hg with rfl | rfl <;> cases hl

omit [DecidableEq T] in
/-- The body of a job has the activation of `Execute` that runs it right below. -/
theorem Shape.of_body {f : Frame T S} {q : ℕ} {job : Jobs.RoomJob S} {fs : List (Frame T S)}
    (h : Shape (f :: fs)) (hf : f.body q = some job) :
    ∃ (jobCount : ℕ) (jobs : List (T × Jobs.RoomJob S))
      (js : List (Jobs.Frame T ℕ (Jobs.RoomJob S))) (ns : List (SessionFrame T S)),
      fs = (.running q jobCount jobs :: js).map .job ++ ns.map .net := by
  generalize hl : f :: fs = l at h
  cases h with
  | doAsync job ns =>
    obtain ⟨rfl, _⟩ := List.cons.inj hl
    cases hf
  | job js ns =>
    cases js with
    | nil =>
      cases ns with
      | nil => cases hl
      | cons g ns =>
        obtain ⟨rfl, _⟩ := List.cons.inj hl
        cases hf
    | cons g js =>
      obtain ⟨rfl, _⟩ := List.cons.inj hl
      cases hf
  | body g q' job' jobCount jobs js ns hg =>
    obtain ⟨rfl, rfl⟩ := List.cons.inj hl
    have hq : q' = q := by
      by_contra hne
      rcases hg with rfl | rfl <;> simp [Frame.body, hne] at hf
    subst hq
    exact ⟨jobCount, jobs, js, ns, rfl⟩

end Parts

section Step

variable [DecidableEq T] [DecidableEq S] [Fintype T] {s s' : RoomsConf T S}
  {a : Action T (Choice T S)}

theorem Move.shape (h : Move s a s') (hs : ∀ t, Shape (s.frames t)) : ∀ t, Shape (s'.frames t) := by
  have top (t : T) (fs : List (Frame T S)) (hfs : Shape fs) (mem : Memory T S) :
      ∀ u, Shape ((⟨mem, Function.update s.frames t fs⟩ : RoomsConf T S).frames u) := by
    intro u
    by_cases hu : u = t
    · subst hu
      simpa only [Function.update_self] using hfs
    · simpa only [Function.update_of_ne hu] using hs u
  cases h with
  | netStep t f c fs net new hf _ =>
    obtain ⟨ns, rfl⟩ := (hf ▸ hs t).of_net
    apply top
    rcases callbacks_cases f with hc | ⟨_, hc⟩ | ⟨_, hc⟩
    · rw [hc, List.nil_append, ← List.map_append]
      exact .job [] _
    · rw [hc, List.append_assoc, ← List.map_append]
      exact .doAsync _ _
    · rw [hc, List.append_assoc, ← List.map_append]
      exact .doAsync _ _
  | doAsync t job fs hf _ =>
    obtain ⟨ns, rfl⟩ := (hf ▸ hs t).of_doAsync
    exact top t _ (.job [_] ns) _
  | jobStep t f c fs jobs new hf _ hstep =>
    obtain ⟨js, ns, rfl⟩ := (hf ▸ hs t).of_job
    apply top
    rcases bodies_cases hstep with ⟨hb, _⟩ | ⟨q, jobCount, job, rest, _, hb, _, rfl⟩
    · rw [hb, List.nil_append, ← List.append_assoc, ← List.map_append]
      exact .job _ ns
    · rw [hb]
      exact .body _ q job.2 jobCount rest js ns (.inl rfl)
  | changeList t q job fs hf =>
    obtain ⟨jobCount, jobs, js, ns, rfl⟩ := (hf ▸ hs t).of_body (q := q) (if_pos rfl)
    exact top t _ (.body _ q job jobCount jobs js ns (.inr rfl)) _
  | setRoomID t q job fs hf =>
    obtain ⟨jobCount, jobs, js, ns, rfl⟩ := (hf ▸ hs t).of_body (q := q) (if_pos rfl)
    exact top t _ (.job _ ns) _
  | netEnter t c net f hfree _ =>
    apply top
    have hshape := hs t
    generalize s.frames t = fs at hfree hshape ⊢
    cases hshape with
    | doAsync job ns => exact absurd (hfree _ List.mem_cons_self) Bool.false_ne_true
    | job js ns =>
      cases js with
      | nil => exact .job [] (f :: ns)
      | cons g js => exact absurd (hfree _ List.mem_cons_self) Bool.false_ne_true
    | body g q job jobCount jobs js ns hg =>
      have hnet := hfree _ List.mem_cons_self
      rcases hg with rfl | rfl <;> exact absurd hnet Bool.false_ne_true
  | globalJobs t hidle =>
    apply top
    rw [hidle]
    exact .job [.globalJobs] []
  | netEnv | jobEnv => exact hs

theorem Move.net_step {t : T} {c : Network.Choice T S} (h : Move s (.step t (.net c)) s') :
    Network.machine.next (netPart s) (.step t c) = some (netPart s') := by
  cases h with
  | netStep t f c fs net new hf hstep =>
    have hold : (s.frames t).filterMap Frame.toNet = f :: fs.filterMap Frame.toNet := by
      rw [hf]
      rfl
    refine Conf.part_step Network.machine hold hstep ?_
    rw [List.filterMap_append, List.filterMap_append, (callbacks_parts f).1, toNet_map_net,
      List.nil_append]

/-- An action of the sessions is one of theirs alone, and all others leave them be. -/
theorem Move.net (h : Move s a s') : netPart s' = netPart s ∨
    ∃ b, Network.machine.next (netPart s) b = some (netPart s') ∧
      ((∃ t c, b = .step t c ∧ a = .step t (.net c)) ∨ (∃ t c, b = .enter t c) ∨
        ∃ c, b = .env c) := by
  have hmove := h
  cases h with
  | netStep t f c fs net new _ _ =>
    exact .inr ⟨.step t c, hmove.net_step, .inl ⟨t, c, rfl, rfl⟩⟩
  | doAsync t job fs hf _ =>
    refine .inl (Conf.part_quiet rfl ?_)
    rw [hf]
    rfl
  | jobStep t f c fs jobs new hf _ hstep =>
    refine .inl (Conf.part_quiet rfl ?_)
    rw [List.filterMap_append, List.filterMap_append, (bodies_parts f).1, toNet_map_job, hf]
    rfl
  | changeList t q job fs hf =>
    refine .inl (Conf.part_quiet ?_ ?_)
    · cases job <;> rfl
    · rw [hf]
      rfl
  | setRoomID t q job fs hf =>
    refine .inl (Conf.part_quiet ?_ ?_)
    · cases job <;> rfl
    · rw [hf]
      rfl
  | netEnter t c net f _ henter =>
    refine .inr ⟨.enter t c, ?_, .inr (.inl ⟨t, c, rfl⟩)⟩
    exact Conf.part_enter Network.machine henter rfl
  | globalJobs t _ => exact .inl (Conf.part_quiet rfl rfl)
  | netEnv c net henv =>
    refine .inr ⟨.env c, ?_, .inr (.inr ⟨c, rfl⟩)⟩
    have henv' : Network.machine.env (netPart s).mem c = some net := henv
    simp only [Machine.next, henv', Option.map_some]
    rfl
  | jobEnv => exact .inl rfl

/-- The same for the job queues. -/
theorem Move.jobs (h : Move s a s') (hs : ∀ t, Shape (s.frames t)) : jobPart s' = jobPart s ∨
    ∃ b, Jobs.machine.next (jobPart s) b = some (jobPart s') ∧
      ∀ t c, b = .step t c → a = .step t (.job c) := by
  cases h with
  | netStep t f c fs net new hf hstep =>
    refine .inl (Conf.part_quiet rfl ?_)
    rw [List.filterMap_append, List.filterMap_append, (callbacks_parts f).2, toJob_map_net, hf]
    rfl
  | doAsync t job fs hf _ =>
    obtain ⟨ns, rfl⟩ := (hf ▸ hs t).of_doAsync
    refine .inr ⟨.enter t (.callPush (s.mem.GetChatRoom job.session) job false), ?_, ?_⟩
    · have hidle : (jobPart s).frames t = [] := by
        simp only [Conf.part, hf, List.filterMap_cons, Frame.toJob, toJob_map_net]
      refine Conf.part_enter Jobs.machine
        (f := .push (s.mem.GetChatRoom job.session) job false) ?_ ?_
      · simp only [Jobs.machine, Jobs.enter, hidle, List.isEmpty_nil, if_true]
      · rw [hf]
        rfl
    · intro u c hb
      cases hb
  | jobStep t f c fs jobs new hf _ hstep =>
    refine .inr ⟨.step t c, ?_, ?_⟩
    · have hold : (s.frames t).filterMap Frame.toJob = f :: fs.filterMap Frame.toJob := by
        rw [hf]
        rfl
      refine Conf.part_step Jobs.machine hold hstep ?_
      rw [List.filterMap_append, List.filterMap_append, (bodies_parts f).2, toJob_map_job,
        List.nil_append]
    · intro u c' hb
      obtain ⟨rfl, rfl⟩ := Action.step.inj hb
      rfl
  | changeList t q job fs hf =>
    refine .inl (Conf.part_quiet ?_ ?_)
    · cases job <;> rfl
    · rw [hf]
      rfl
  | setRoomID t q job fs hf =>
    refine .inl (Conf.part_quiet ?_ ?_)
    · cases job <;> rfl
    · rw [hf]
      rfl
  | netEnter t c net f _ henter => exact .inl (Conf.part_quiet rfl rfl)
  | globalJobs t hidle =>
    refine .inr ⟨.enter t .callGlobalJobs, ?_, by rintro _ _ ⟨⟩⟩
    have hidle' : (jobPart s).frames t = [] := by
      simp only [Conf.part, hidle, List.filterMap_nil]
    refine Conf.part_enter Jobs.machine (f := .globalJobs) ?_ rfl
    simp only [Jobs.machine, Jobs.enter, hidle', List.isEmpty_nil, if_true]
  | netEnv => exact .inl rfl
  | jobEnv c jobs henv =>
    refine .inr ⟨.env c, ?_, by rintro _ _ ⟨⟩⟩
    have henv' : Jobs.machine.env (jobPart s).mem c = some jobs := henv
    simp only [Machine.next, henv', Option.map_some]
    rfl

/-- The job is on its way to a room or was pushed to one. -/
def Asked (s : RoomsConf T S) (job : Jobs.RoomJob S) : Prop :=
  (∃ t, ∃ f ∈ s.frames t, job ∈ f.waiting) ∨ ∃ q u, (u, job) ∈ s.mem.jobs.pushed q

omit [DecidableEq S] [Fintype T] in
/-- No step of the job queues asks for a job. -/
theorem step_waiting {m m' : Jobs.Mem T ℕ (Jobs.RoomJob S)} {t : T}
    {f : Jobs.Frame T ℕ (Jobs.RoomJob S)} {c : Jobs.Choice T ℕ (Jobs.RoomJob S)}
    {new : List (Jobs.Frame T ℕ (Jobs.RoomJob S))} (h : Jobs.step m t f c = some (m', new))
    (hc : ∀ q job pushOnly, c ≠ .callPush q job pushOnly) :
    ∀ g ∈ bodies f ++ new.map Frame.job, g.waiting = [] := by
  intro g hg
  rcases bodies_cases h with ⟨hb, _⟩ | ⟨q, jobCount, job, rest, _, hb, _, rfl⟩
  · rw [hb, List.nil_append] at hg
    obtain ⟨g, hg', rfl⟩ := List.mem_map.mp hg
    cases Jobs.step_spec h with
    | callPush q jobCount jobs q' job pushOnly =>
      cases c with
      | callPush q job pushOnly => exact absurd rfl (hc q job pushOnly)
      | go => exact nomatch h
      | _ => exact absurd h.symm (Option.some_ne_none _)
    | globalRun q => rcases List.mem_pair.mp hg' with rfl | rfl <;> rfl
    | push | enqueue | decideRun | decideHand | execute | drain | startJob | endJob | subMore
    | timeOver | timeLeft | globalTest | globalPop => rw [List.mem_singleton.mp hg']; rfl
    | decideLeave | handOver | subLast | globalLeave => exact absurd hg' List.not_mem_nil
  · rw [hb] at hg
    rcases List.mem_pair.mp hg with rfl | rfl <;> rfl

theorem Move.asked (h : Move s a s') {job : Jobs.RoomJob S} (hasked : Asked s' job) :
    Asked s job ∨ ∃ t c f fs, a = .step t (.net c) ∧ s.frames t = .net f :: fs ∧
      .doAsync job ∈ callbacks f := by
  have kept {t : T} {f : Frame T S} {fs : List (Frame T S)} {mem : Memory T S}
      (new : List (Frame T S)) (hf : s.frames t = f :: fs)
      (hnew : ∀ g ∈ new, job ∈ g.waiting → job ∈ f.waiting)
      (hpushed : mem.jobs.pushed = s.mem.jobs.pushed)
      (hasked : Asked ⟨mem, Function.update s.frames t (new ++ fs)⟩ job) : Asked s job := by
    rcases hasked with ⟨u, g, hg, hjob⟩ | ⟨q, u, hu⟩
    · rcases mem_update _ hg with ⟨_, hg⟩ | hg
      · exact .inl ⟨t, f, by rw [hf]; exact List.mem_cons_self, hnew g hg hjob⟩
      · exact .inl ⟨u, g, hg.mem hf, hjob⟩
    · refine .inr ⟨q, u, ?_⟩
      rw [← hpushed]
      exact hu
  cases h with
  | netStep t f c fs net new hf _ =>
    by_cases hc : .doAsync job ∈ callbacks f
    · exact .inr ⟨t, c, f, fs, rfl, hf, hc⟩
    · refine .inl (kept _ hf ?_ rfl hasked)
      intro g hg hjob
      rcases List.mem_append.mp hg with hg | hg
      · rcases callbacks_cases f with h | ⟨_, h⟩ | ⟨_, h⟩
        · rw [h] at hg
          exact absurd hg List.not_mem_nil
        · rw [h] at hg hc
          obtain rfl := List.mem_singleton.mp hg
          exact absurd (List.mem_singleton.mpr (congrArg _ (List.mem_singleton.mp hjob))) hc
        · rw [h] at hg hc
          obtain rfl := List.mem_singleton.mp hg
          exact absurd (List.mem_singleton.mpr (congrArg _ (List.mem_singleton.mp hjob))) hc
      · obtain ⟨g, _, rfl⟩ := List.mem_map.mp hg
        exact absurd hjob List.not_mem_nil
  | doAsync t job' fs hf _ =>
    refine .inl (kept [_] hf ?_ rfl hasked)
    intro g hg hjob
    rw [List.mem_singleton.mp hg] at hjob
    exact hjob
  | jobStep t f c fs jobs new hf hc hstep =>
    have hwaiting := step_waiting hstep hc
    refine .inl ?_
    rcases hasked with ⟨u, g, hg, hjob⟩ | ⟨q, u, hu⟩
    · rcases mem_update _ hg with ⟨_, hg⟩ | hg
      · rw [hwaiting g hg] at hjob
        exact absurd hjob List.not_mem_nil
      · exact .inl ⟨u, g, hg.mem hf, hjob⟩
    · have hu' : (u, job) ∈ jobs.pushed q := hu
      rcases Jobs.step_history hstep q with ⟨hp, _, _⟩ | ⟨job', pushOnly, rfl, _, hp, _, _⟩ |
        ⟨_, _, _, _, hp, _, _⟩ | ⟨_, _, _, _, _, _, hp, _, _⟩
      · rw [hp] at hu'
        exact .inr ⟨q, u, hu'⟩
      · rw [hp] at hu'
        rcases List.mem_append.mp hu' with hu' | hu'
        · exact .inr ⟨q, u, hu'⟩
        · obtain ⟨_, rfl⟩ := Prod.mk.inj (List.mem_singleton.mp hu')
          exact .inl ⟨t, _, by rw [hf]; exact List.mem_cons_self, List.mem_singleton_self _⟩
      · rw [hp] at hu'
        exact .inr ⟨q, u, hu'⟩
      · rw [hp] at hu'
        exact .inr ⟨q, u, hu'⟩
  | changeList t q job' fs hf =>
    refine .inl (kept [_] hf ?_ ?_ hasked)
    · intro g hg hjob
      rw [List.mem_singleton.mp hg] at hjob
      exact absurd hjob List.not_mem_nil
    · cases job' <;> rfl
  | setRoomID t q job' fs hf =>
    refine .inl (kept [] hf ?_ ?_ hasked)
    · exact fun g hg => absurd hg List.not_mem_nil
    · cases job' <;> rfl
  | netEnter t c net f _ _ =>
    rcases hasked with ⟨u, g, hg, hjob⟩ | hpushed
    · rcases mem_push hg with rfl | hg
      · exact absurd hjob List.not_mem_nil
      · exact .inl (.inl ⟨u, g, hg, hjob⟩)
    · exact .inl (.inr hpushed)
  | globalJobs t _ =>
    rcases hasked with ⟨u, g, hg, hjob⟩ | hpushed
    · rcases mem_push hg with rfl | hg
      · exact absurd hjob List.not_mem_nil
      · exact .inl (.inl ⟨u, g, hg, hjob⟩)
    · exact .inl (.inr hpushed)
  | netEnv => exact .inl hasked
  | jobEnv c jobs henv =>
    obtain ⟨ticks, rfl⟩ := Jobs.env_spec henv
    exact .inl hasked

/-- The job is being pushed to room `q`, or was. -/
def Bound (s : RoomsConf T S) (q : ℕ) (job : Jobs.RoomJob S) : Prop :=
  (∃ t pushOnly, .job (.push q job pushOnly) ∈ s.frames t) ∨ ∃ u, (u, job) ∈ s.mem.jobs.pushed q

omit [DecidableEq T] [DecidableEq S] [Fintype T] in
theorem Bound.asked {q : ℕ} {job : Jobs.RoomJob S} (h : Bound s q job) : Asked s job := by
  rcases h with ⟨t, pushOnly, hf⟩ | ⟨u, hu⟩
  · exact .inl ⟨t, _, hf, List.mem_singleton_self _⟩
  · exact .inr ⟨q, u, hu⟩

theorem Move.bound (h : Move s a s') {q : ℕ} {job : Jobs.RoomJob S}
    (hbound : Bound s' q job) : Bound s q job ∨ (q = s.mem.GetChatRoom job.session ∧
      q < ChatRoomManager.construct.mChatRoomList.length ∧ s'.mem.net = s.mem.net) := by
  have kept {t : T} {f : Frame T S} {fs : List (Frame T S)} {mem : Memory T S}
      (new : List (Frame T S)) (hf : s.frames t = f :: fs)
      (hnew : ∀ g ∈ new, ∀ pushOnly, g ≠ .job (.push q job pushOnly))
      (hpushed : mem.jobs.pushed = s.mem.jobs.pushed)
      (hbound : Bound ⟨mem, Function.update s.frames t (new ++ fs)⟩ q job) : Bound s q job := by
    rcases hbound with ⟨u, pushOnly, hg⟩ | ⟨u, hu⟩
    · rcases mem_update _ hg with ⟨_, hg⟩ | hg
      · exact absurd rfl (hnew _ hg pushOnly)
      · exact .inl ⟨u, pushOnly, hg.mem hf⟩
    · refine .inr ⟨u, ?_⟩
      rw [← hpushed]
      exact hu
  have entered {t : T} {f : Frame T S} {mem : Memory T S}
      (hf : ∀ pushOnly, f ≠ .job (.push q job pushOnly))
      (hpushed : mem.jobs.pushed = s.mem.jobs.pushed)
      (hbound : Bound ⟨mem, Function.update s.frames t (f :: s.frames t)⟩ q job) :
      Bound s q job := by
    rcases hbound with ⟨u, pushOnly, hg⟩ | ⟨u, hu⟩
    · rcases mem_push hg with hg | hg
      · exact absurd hg.symm (hf pushOnly)
      · exact .inl ⟨u, pushOnly, hg⟩
    · refine .inr ⟨u, ?_⟩
      rw [← hpushed]
      exact hu
  cases h with
  | netStep t f c fs net new hf _ =>
    refine .inl (kept _ hf ?_ rfl hbound)
    intro g hg pushOnly
    rintro rfl
    rcases List.mem_append.mp hg with hg | hg
    · rcases callbacks_cases f with he | ⟨_, he⟩ | ⟨_, he⟩ <;> rw [he] at hg
      · exact absurd hg List.not_mem_nil
      · exact nomatch List.mem_singleton.mp hg
      · exact nomatch List.mem_singleton.mp hg
    · obtain ⟨_, _, he⟩ := List.mem_map.mp hg
      exact nomatch he
  | doAsync t job' fs hf hroom =>
    rcases hbound with ⟨u, pushOnly, hg⟩ | hpushed
    · rcases mem_update [_] hg with ⟨_, hg⟩ | hg
      · cases List.mem_singleton.mp hg
        exact .inr ⟨rfl, hroom, rfl⟩
      · exact .inl (.inl ⟨u, pushOnly, hg.mem hf⟩)
    · exact .inl (.inr hpushed)
  | jobStep t f c fs jobs new hf hc hstep =>
    refine .inl ?_
    have hwaiting := step_waiting hstep hc
    rcases hbound with ⟨u, pushOnly, hg⟩ | ⟨u, hu⟩
    · rcases mem_update _ hg with ⟨_, hg⟩ | hg
      · exact nomatch hwaiting _ hg
      · exact .inl ⟨u, pushOnly, hg.mem hf⟩
    · have hu' : (u, job) ∈ jobs.pushed q := hu
      rcases Jobs.step_history hstep q with ⟨hp, _, _⟩ | ⟨job', pushOnly, rfl, _, hp, _, _⟩ |
        ⟨_, _, _, _, hp, _, _⟩ | ⟨_, _, _, _, _, _, hp, _, _⟩ <;> rw [hp] at hu'
      · exact .inr ⟨u, hu'⟩
      · rcases List.mem_append.mp hu' with hu' | hu'
        · exact .inr ⟨u, hu'⟩
        · obtain ⟨_, rfl⟩ := Prod.mk.inj (List.mem_singleton.mp hu')
          exact .inl ⟨t, pushOnly, by rw [hf]; exact List.mem_cons_self⟩
      · exact .inr ⟨u, hu'⟩
      · exact .inr ⟨u, hu'⟩
  | changeList t q' job' fs hf =>
    refine .inl (kept [_] hf ?_ ?_ hbound)
    · intro g hg pushOnly
      rw [List.mem_singleton.mp hg]
      exact fun he => nomatch he
    · cases job' <;> rfl
  | setRoomID t q' job' fs hf =>
    refine .inl (kept [] hf ?_ ?_ hbound)
    · exact fun g hg => absurd hg List.not_mem_nil
    · cases job' <;> rfl
  | netEnter t c net f _ _ => exact .inl (entered (f := .net f) (fun _ he => nomatch he) rfl hbound)
  | globalJobs t _ =>
    exact .inl (entered (f := .job .globalJobs) (fun _ he => nomatch he) rfl hbound)
  | netEnv => exact .inl hbound
  | jobEnv c jobs henv =>
    obtain ⟨ticks, rfl⟩ := Jobs.env_spec henv
    exact .inl hbound

/-- An action that the rooms do not see. -/
structure Unseen (s s' : RoomsConf T S) : Prop where
  lists : s'.mem.mSessionList = s.mem.mSessionList
  ids : s'.mem.mRoomID = s.mem.mRoomID
  ran : s'.mem.jobs.ran = s.mem.jobs.ran
  frames : ∀ t f, f ∈ s'.frames t → f.inBody = true → f ∈ s.frames t
  weights : ∀ w : Frame T S → ℕ, (∀ f, f.inBody = false → w f = 0) →
    weight w s'.frames = weight w s.frames

omit [DecidableEq S] in
theorem Unseen.step {t : T} {f : Frame T S} {fs new : List (Frame T S)} {mem : Memory T S}
    (hf : s.frames t = f :: fs) (hbody : f.inBody = false) (hnew : ∀ g ∈ new, g.inBody = false)
    (hlists : mem.mSessionList = s.mem.mSessionList) (hids : mem.mRoomID = s.mem.mRoomID)
    (hran : mem.jobs.ran = s.mem.jobs.ran) :
    Unseen s ⟨mem, Function.update s.frames t (new ++ fs)⟩ := by
  refine ⟨hlists, hids, hran, ?_, ?_⟩
  · intro u g hg hg'
    rcases mem_update _ hg with ⟨_, hg⟩ | hg
    · rw [hnew g hg] at hg'
      cases hg'
    · exact hg.mem hf
  · intro w hw
    exact weight_replace hf (hw f hbody) fun g hg => hw g (hnew g hg)

omit [DecidableEq S] in
theorem Unseen.enter {t : T} {f : Frame T S} {mem : Memory T S} (hbody : f.inBody = false)
    (hlists : mem.mSessionList = s.mem.mSessionList) (hids : mem.mRoomID = s.mem.mRoomID)
    (hran : mem.jobs.ran = s.mem.jobs.ran) :
    Unseen s ⟨mem, Function.update s.frames t (f :: s.frames t)⟩ := by
  refine ⟨hlists, hids, hran, ?_, ?_⟩
  · intro u g hg hg'
    rcases mem_push hg with rfl | hg
    · rw [hbody] at hg'
      cases hg'
    · exact hg
  · exact fun w hw => weight_push s.frames t (hw f hbody)

/-- All that the rooms see of an action. -/
theorem Move.rooms (h : Move s a s') : Unseen s s' ∨
    (∃ t q jobCount job jobs fs, s.frames t = .job (.batch q jobCount (job :: jobs)) :: fs ∧
      s' = ⟨{ s.mem with jobs := s.mem.jobs.startJob q job }, Function.update s.frames t
        ([.changeList q job.2, .job (.running q jobCount jobs)] ++ fs)⟩) ∨
    (∃ t q job fs, s.frames t = .changeList q job :: fs ∧
      s' = ⟨s.mem.changeList q job, Function.update s.frames t ([.setRoomID q job] ++ fs)⟩) ∨
    ∃ t q job fs, s.frames t = .setRoomID q job :: fs ∧
      s' = ⟨s.mem.setRoomID q job, Function.update s.frames t ([] ++ fs)⟩ := by
  cases h with
  | netStep t f c fs net new hf _ =>
    refine .inl (.step hf rfl ?_ rfl rfl rfl)
    intro g hg
    rcases List.mem_append.mp hg with hg | hg
    · rcases callbacks_cases f with he | ⟨_, he⟩ | ⟨_, he⟩ <;> rw [he] at hg
      · exact absurd hg List.not_mem_nil
      · rw [List.mem_singleton.mp hg]
        rfl
      · rw [List.mem_singleton.mp hg]
        rfl
    · obtain ⟨g, _, rfl⟩ := List.mem_map.mp hg
      rfl
  | doAsync t job fs hf _ =>
    exact .inl (.step hf rfl (List.forall_mem_singleton.mpr rfl) rfl rfl rfl)
  | jobStep t f c fs jobs new hf _ hstep =>
    rcases bodies_cases hstep with ⟨hb, hran⟩ | ⟨q, jobCount, job, rest, rfl, hb, rfl, rfl⟩
    · refine .inl (.step hf rfl ?_ rfl rfl hran)
      intro g hg
      rw [hb, List.nil_append] at hg
      obtain ⟨g, _, rfl⟩ := List.mem_map.mp hg
      rfl
    · exact .inr (.inl ⟨t, q, jobCount, job, rest, fs, hf, by rw [hb]; rfl⟩)
  | changeList t q job fs hf => exact .inr (.inr (.inl ⟨t, q, job, fs, hf, rfl⟩))
  | setRoomID t q job fs hf => exact .inr (.inr (.inr ⟨t, q, job, fs, hf, rfl⟩))
  | netEnter t c net f _ _ => exact .inl (.enter rfl rfl rfl rfl)
  | globalJobs t _ => exact .inl (.enter rfl rfl rfl rfl)
  | netEnv => exact .inl ⟨rfl, rfl, rfl, fun _ _ hf _ => hf, fun _ _ => rfl⟩
  | jobEnv c jobs henv =>
    obtain ⟨ticks, rfl⟩ := Jobs.env_spec henv
    exact .inl ⟨rfl, rfl, rfl, fun _ _ hf _ => hf, fun _ _ => rfl⟩

omit [DecidableEq T] [DecidableEq S] [Fintype T] in
theorem Shape.room_le (q : ℕ) {fs : List (Frame T S)} (h : Shape fs) :
    stackWeight (Frame.room q) fs ≤
      stackWeight (Jobs.Frame.token q) (fs.filterMap Frame.toJob) := by
  have nets (ns : List (SessionFrame T S)) : stackWeight (Frame.room q) (ns.map .net) = 0 := by
    apply stackWeight_eq_zero
    intro f hf
    obtain ⟨f, _, rfl⟩ := List.mem_map.mp hf
    rfl
  have jobs (js : List (Jobs.Frame T ℕ (Jobs.RoomJob S))) :
      stackWeight (Frame.room q) (js.map (Frame.job (T := T))) ≤
        stackWeight (Jobs.Frame.token q) js := by
    induction js with
    | nil => exact le_refl 0
    | cons f js ih =>
      have htop : Frame.room q (.job f : Frame T S) ≤ f.token q := by
        cases f <;> first | exact le_refl _ | exact Nat.zero_le _
      rw [List.map_cons, stackWeight_cons, stackWeight_cons]
      omega
  cases h with
  | doAsync job ns =>
    rw [stackWeight_cons, nets]
    exact Nat.zero_le _
  | job js ns =>
    rw [stackWeight_append, nets, List.filterMap_append, toJob_map_job, toJob_map_net,
      List.append_nil]
    exact jobs js
  | body f q' job jobCount rest js ns hf =>
    have hone : Frame.room q f = if q' = q then 1 else 0 := by rcases hf with rfl | rfl <;> rfl
    have hnone : f.toJob = none := by rcases hf with rfl | rfl <;> rfl
    have hjs := jobs js
    rw [List.filterMap_cons, hnone, List.filterMap_append, toJob_map_job, toJob_map_net,
      List.append_nil, stackWeight_cons, stackWeight_append, nets, List.map_cons, stackWeight_cons,
      stackWeight_cons, hone]
    show (if q' = q then 1 else 0) + (0 + stackWeight (Frame.room q) (js.map Frame.job) + 0) ≤
      (if q' = q then 1 else 0) + stackWeight (Jobs.Frame.token q) js
    omega

omit [DecidableEq T] [DecidableEq S] [Fintype T] in
theorem Frame.room_of_body {f : Frame T S} {q : ℕ} {job : Jobs.RoomJob S}
    (h : f.body q = some job) :
    f.room q = 1 ∧ f.inBody = true := by
  cases f with
  | changeList q' job' | setRoomID q' job' =>
    by_cases hq : q' = q
    · exact ⟨if_pos hq, rfl⟩
    · simp [Frame.body, hq] at h
  | _ => cases h

end Step

end ServerCore.App.Rooms
