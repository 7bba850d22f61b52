import ServerCore.App.RoomMembers

namespace ServerCore.App.Rooms

open Framework ConcurrentQueue
open Network (SessionFrame ChatRoomManager enterToken)

variable {T S : Type} [DecidableEq T] [DecidableEq S] [Fintype T]
  {ok : RoomsConf T S → Action T (Choice T S) → Prop}
  {recvPool sendPool : Network.RegisteredBufferPool T} {s s' : RoomsConf T S}
  {a : Action T (Choice T S)}

/-- A condition on the steps of the job queues. -/
def onJobs (p : Jobs.RoomConf T ℕ S → Action T (Jobs.Choice T ℕ (Jobs.RoomJob S)) → Bool)
    (s : RoomsConf T S) : Action T (Choice T S) → Bool
  | .step t (.job c) => p (jobPart s) (.step t c)
  | _ => true

/-- No session is disconnected with effect before its `OnConnected` has returned, there are numbers
left, and no bulk dequeue hands out a `Leave` ahead of the `Enter` of its session. -/
def orderly (s : RoomsConf T S) (a : Action T (Choice T S)) : Bool :=
  onNet Network.disconnectsConnected s a && onNet Network.numbersLeft s a &&
    onJobs Jobs.enterFirst s a

theorem orderly_net
    (h : machine.Reach (fun s a => orderly s a = true) (start recvPool sendPool) s) :
    Network.machine.Reach (fun s a => Network.disconnectsConnected s a = true)
        (Network.start recvPool sendPool) (netPart s) ∧
      Network.machine.Reach (fun s a => Network.numbersLeft s a = true)
        (Network.start recvPool sendPool) (netPart s) := by
  constructor
  · refine net_reach Network.disconnectsConnected ?_ ?_ h
    · intro s a ha
      cases a with
      | step t c => exact absurd rfl (ha t c)
      | _ => rfl
    · intro s a hok
      simp only [orderly, Bool.and_eq_true] at hok
      exact hok.1.1
  · refine net_reach Network.numbersLeft ?_ ?_ h
    · intro s a ha
      cases a with
      | step t c => exact absurd rfl (ha t c)
      | _ => rfl
    · intro s a hok
      simp only [orderly, Bool.and_eq_true] at hok
      exact hok.1.2

theorem net_events_mono {x : S} {e : Network.Event} (hnext : machine.next s a = some s')
    (he : e ∈ (s.mem.net.session x).events) : e ∈ (s'.mem.net.session x).events := by
  rcases (next_move hnext).net with heq | ⟨b, hb, _⟩
  · have hmem : s'.mem.net = s.mem.net := congrArg Conf.mem heq
    rw [hmem]
    exact he
  · exact Network.events_mono hb he

/-- A `Leave` is asked for by `OnDisconnected`. -/
theorem called_of_asked (h : machine.Reach ok (start recvPool sendPool) s) (x : S)
    (hasked : Asked s (.leave x)) : .disconnectedCalled ∈ (s.mem.net.session x).events := by
  revert hasked
  apply h.invariant fun s => Asked s (.leave x) →
    .disconnectedCalled ∈ (s.mem.net.session x).events
  · rintro (⟨t, f, hf, _⟩ | ⟨q, u, hu⟩)
    · exact absurd hf List.not_mem_nil
    · exact absurd hu List.not_mem_nil
  · intro s a s' hr hs _ hnext hasked
    rcases (next_move hnext).asked hasked with hasked | ⟨t, c, f, fs, rfl, hf, hc⟩
    · exact net_events_mono hnext (hs hasked)
    · apply net_events_mono hnext
      obtain ⟨y, f⟩ := f
      have hmem : (y, f) ∈ (netPart s).frames t := by
        simp only [Conf.part, hf, List.filterMap_cons, Frame.toNet]
        exact List.mem_cons_self
      rcases callbacks_cases (y, f) with he | ⟨_, he⟩ | ⟨hf', he⟩ <;> rw [he] at hc
      · exact absurd hc List.not_mem_nil
      · cases List.mem_singleton.mp hc
      · cases List.mem_singleton.mp hc
        obtain rfl : f = .disconnect .onDisconnected := hf'
        exact (Network.recorded_reach (net_reach_true hr) y).2 t _ hmem rfl

/-- `OnDisconnected` is called after `OnConnected` has returned. -/
theorem returned_of_called
    (h : machine.Reach (fun s a => orderly s a = true) (start recvPool sendPool) s) {x : S}
    (hcalled : .disconnectedCalled ∈ (s.mem.net.session x).events) :
    .connectedReturned ∈ (s.mem.net.session x).events := by
  have hdeparture := Network.departure_reach (fun _ _ hok => hok) (orderly_net h).1 x
  obtain ⟨before, after, heq⟩ := List.append_of_mem hcalled
  have hbefore := hdeparture.1.2.2 before after heq
  rw [heq]
  exact List.mem_append_left _ hbefore

theorem job_entered
    (h : machine.Reach (fun s a => orderly s a = true) (start recvPool sendPool) s)
    {job : Jobs.RoomJob S} (hasked : Asked s job) :
    enterToken.total job.session (netPart s) = 0 := by
  cases job with
  | enter x => exact entered_of_asked h x hasked
  | leave x =>
    have hcalled := called_of_asked h x hasked
    exact Network.entered_of_returned (net_reach_true h) (returned_of_called h hcalled)

theorem placed_reach
    (h : machine.Reach (fun s a => orderly s a = true) (start recvPool sendPool) s)
    (job : Jobs.RoomJob S) : Placed s job := by
  apply h.invariant fun s => Placed s job
  · exact fun q hbound => absurd hbound (not_bound_start _ _ q _)
  · intro s a s' hr hs _ hnext
    exact hs.next hnext fun hasked => GetSessionID_of_entered hnext (job_entered hr hasked)

/-- The `Push` of the job has not enqueued it. -/
def Frame.pushes (job : Jobs.RoomJob S) : Frame T S → Prop
  | .doAsync job' | .job (.push _ job' _) | .job (.enqueue _ job' _ _) => job' = job
  | _ => False

/-- The callback of a session that asks for the job. -/
def callback : Jobs.RoomJob S → SessionFrame T S
  | .enter session => (session, .connect .enterRoom)
  | .leave session => (session, .disconnect .leaveRoom)

/-- The job got into the queue of a room. -/
def Queued (s : RoomsConf T S) (job : Jobs.RoomJob S) : Prop :=
  ∃ q u, (u, job) ∈ s.mem.jobs.taken q ++ s.mem.jobs.mJobQueue q

/-- A callback returns when its job is in the queue. -/
structure Delivered (s : RoomsConf T S) : Prop where
  inside : ∀ t job, .net (callback job) ∈ s.frames t → Queued s job ∨
    ∃ f fs, s.frames t = f :: .net (callback job) :: fs ∧ f.pushes job
  connected : ∀ x, .connectedReturned ∈ (s.mem.net.session x).events → Queued s (.enter x)
  leaving : ∀ t x, .net (x, .disconnect .releaseSession) ∈ s.frames t → Queued s (.leave x)
  disconnected : ∀ x, .disconnectReturned ∈ (s.mem.net.session x).events → Queued s (.leave x)

omit [DecidableEq S] [Fintype T] in
theorem step_queued {m m' : Jobs.Mem T ℕ (Jobs.RoomJob S)} {t : T}
    {f : Jobs.Frame T ℕ (Jobs.RoomJob S)} {c : Jobs.Choice T ℕ (Jobs.RoomJob S)}
    {new : List (Jobs.Frame T ℕ (Jobs.RoomJob S))} (h : Jobs.step m t f c = some (m', new))
    {q : ℕ} {e : T × Jobs.RoomJob S} (he : e ∈ m.taken q ++ m.mJobQueue q) :
    e ∈ m'.taken q ++ m'.mJobQueue q := by
  rcases Jobs.step_history h q with ⟨_, ht, hq⟩ | ⟨_, _, _, _, _, ht, hq⟩ |
    ⟨job, _, _, _, _, ht, hq⟩ | ⟨_, xs, rest, _, _, hx, _, ht, hq⟩
  · rw [ht, hq]
    exact he
  · rw [ht, hq]
    exact he
  · rw [ht, hq, ← List.append_assoc]
    exact List.mem_append_left _ he
  · rw [ht, hq, List.append_assoc, List.mem_append]
    exact (List.mem_append.mp he).imp_right (takeBulk_spec hx).1.mem_iff.mp

theorem queued_mono (hnext : machine.next s a = some s') {job : Jobs.RoomJob S} (h : Queued s job) :
    Queued s' job := by
  obtain ⟨q, u, hu⟩ := h
  refine ⟨q, u, ?_⟩
  cases next_move hnext with
  | jobStep t f c fs jobs new _ _ hstep => exact step_queued hstep hu
  | changeList t q job' => cases job' <;> exact hu
  | setRoomID t q job' => cases job' <;> exact hu
  | jobEnv c jobs henv =>
    obtain ⟨ticks, rfl⟩ := Jobs.env_spec henv
    exact hu
  | _ => exact hu

theorem Delivered.inside_next (h : Delivered s) (hnext : machine.next s a = some s') (u : T)
    (job : Jobs.RoomJob S) (hmem : .net (callback job) ∈ s'.frames u) : Queued s' job ∨
      ∃ f fs, s'.frames u = f :: .net (callback job) :: fs ∧ f.pushes job := by
  have hmono : Queued s job → Queued s' job := queued_mono hnext
  have elsewhere (hsame : s'.frames u = s.frames u) : Queued s' job ∨
      ∃ f fs, s'.frames u = f :: .net (callback job) :: fs ∧ f.pushes job := by
    rw [hsame] at hmem ⊢
    exact (h.inside u job hmem).imp_left hmono
  have below {f : Frame T S} {fs : List (Frame T S)} (hf : s.frames u = f :: fs)
      (hnot : ¬f.pushes job) (hcall : .net (callback job) ∈ fs) : Queued s' job := by
    rcases h.inside u job (by rw [hf]; exact List.mem_cons_of_mem _ hcall) with
      hqueued | ⟨g, gs, heq, hpushes⟩
    · exact hmono hqueued
    · rw [hf] at heq
      obtain ⟨rfl, _⟩ := List.cons.inj heq
      exact absurd hpushes hnot
  cases next_move hnext with
  | netStep t f c fs net new hf hstep =>
    by_cases hu : u = t
    · subst hu
      simp only [Function.update_self] at hmem ⊢
      rcases List.mem_append.mp hmem with hmem | hmem
      · rcases List.mem_append.mp hmem with hmem | hmem
        · rcases callbacks_cases f with he | ⟨_, he⟩ | ⟨_, he⟩ <;> rw [he] at hmem
          · exact absurd hmem List.not_mem_nil
          · cases List.mem_singleton.mp hmem
          · cases List.mem_singleton.mp hmem
        · obtain ⟨g, hg, hcall⟩ := List.mem_map.mp hmem
          obtain rfl := Frame.net.inj hcall
          obtain ⟨this, f⟩ := f
          obtain ⟨new, hframe, rfl⟩ := Network.step_spec hstep
          obtain ⟨g, hg, hcall⟩ := List.mem_map.mp hg
          cases job with
          | enter x =>
            obtain ⟨rfl, rfl⟩ := Prod.mk.inj hcall
            obtain ⟨rfl, rfl⟩ := hframe.callback.1 hg
            exact .inr ⟨_, fs, rfl, rfl⟩
          | leave x =>
            obtain ⟨rfl, rfl⟩ := Prod.mk.inj hcall
            obtain ⟨rfl, rfl⟩ := hframe.callback.2.1 hg
            exact .inr ⟨_, fs, rfl, rfl⟩
      · exact .inl (below hf id hmem)
    · exact elsewhere (Function.update_of_ne hu _ _)
  | doAsync t job' fs hf _ =>
    by_cases hu : u = t
    · subst hu
      simp only [Function.update_self] at hmem ⊢
      rcases List.mem_cons.mp hmem with hmem | hmem
      · cases hmem
      · rcases h.inside u job (by rw [hf]; exact List.mem_cons_of_mem _ hmem) with
          hqueued | ⟨g, gs, heq, hpushes⟩
        · exact .inl (hmono hqueued)
        · rw [hf] at heq
          obtain ⟨rfl, rfl⟩ := List.cons.inj heq
          exact .inr ⟨_, gs, rfl, hpushes⟩
    · exact elsewhere (Function.update_of_ne hu _ _)
  | jobStep t f c fs jobs new hf hc hstep =>
    by_cases hu : u = t
    · subst hu
      have hbelow : .net (callback job) ∈ fs := by
        simp only [Function.update_self] at hmem
        rcases List.mem_append.mp hmem with hmem | hmem
        · rcases List.mem_append.mp hmem with hmem | hmem
          · rcases bodies_cases hstep with ⟨he, _⟩ | ⟨_, _, _, _, _, he, _⟩ <;> rw [he] at hmem
            · exact absurd hmem List.not_mem_nil
            · cases List.mem_singleton.mp hmem
          · obtain ⟨_, _, he⟩ := List.mem_map.mp hmem
            cases he
        · exact hmem
      rcases h.inside u job (by rw [hf]; exact List.mem_cons_of_mem _ hbelow) with
        hqueued | ⟨g, gs, heq, hpushes⟩
      · exact .inl (hmono hqueued)
      · rw [hf] at heq
        obtain ⟨rfl, rfl⟩ := List.cons.inj heq
        simp only [Function.update_self]
        cases Jobs.step_spec hstep with
        | push q job' pushOnly => exact .inr ⟨_, gs, rfl, hpushes⟩
        | enqueue q job' pushOnly prevCount =>
          obtain rfl : job' = job := hpushes
          refine .inl ⟨q, u, List.mem_append_right _ ?_⟩
          simp [Jobs.Mem.enqueueJob, ConcurrentQueue.enqueue]
        | globalLeave f hleave => rcases hleave with rfl | rfl <;> exact False.elim hpushes
        | _ => exact False.elim hpushes
    · exact elsewhere (Function.update_of_ne hu _ _)
  | changeList t q job' fs hf =>
    by_cases hu : u = t
    · subst hu
      simp only [Function.update_self] at hmem ⊢
      rcases List.mem_cons.mp hmem with hmem | hmem
      · cases hmem
      · exact .inl (below hf id hmem)
    · exact elsewhere (Function.update_of_ne hu _ _)
  | setRoomID t q job' fs hf =>
    by_cases hu : u = t
    · subst hu
      simp only [Function.update_self] at hmem ⊢
      exact .inl (below hf id hmem)
    · exact elsewhere (Function.update_of_ne hu _ _)
  | netEnter t c net f hfree henter =>
    by_cases hu : u = t
    · subst hu
      simp only [Function.update_self] at hmem ⊢
      rcases List.mem_cons.mp hmem with hmem | hmem
      · obtain rfl := Frame.net.inj hmem
        have hfirst := (Network.enter_spec henter).callback
        cases job with
        | enter x => exact absurd rfl hfirst.1
        | leave x => exact absurd rfl hfirst.2.1
      · rcases h.inside u job hmem with hqueued | ⟨g, gs, heq, hpushes⟩
        · exact .inl (hmono hqueued)
        · have hnet := hfree g (by rw [heq]; exact List.mem_cons_self)
          cases g with
          | net g => exact False.elim hpushes
          | _ => exact absurd hnet Bool.false_ne_true
    · exact elsewhere (Function.update_of_ne hu _ _)
  | globalJobs t hidle =>
    by_cases hu : u = t
    · subst hu
      simp only [Function.update_self, hidle] at hmem
      cases List.mem_singleton.mp hmem
    · exact elsewhere (Function.update_of_ne hu _ _)
  | netEnv | jobEnv => exact elsewhere rfl

/-- What is put on record is put there by a step of the session itself. -/
theorem Move.recorded (h : Move s a s') {x : S} {e : Network.Event}
    (he : e ∈ (s'.mem.net.session x).events) : e ∈ (s.mem.net.session x).events ∨
      ∃ t f fs new, s.frames t = .net (x, f) :: fs ∧
        Network.EventEffect (s.mem.net.session x).events f (s'.mem.net.session x).events new := by
  cases h with
  | netStep t f c fs net new hf hstep =>
    obtain ⟨this, f⟩ := f
    obtain ⟨new, hframe, rfl⟩ := Network.step_spec hstep
    by_cases hx : x = this
    · subst hx
      exact .inr ⟨t, f, fs, new, hf, hframe.events⟩
    · have he' : e ∈ (net.session x).events := he
      rw [hframe.other hx] at he'
      exact .inl he'
  | netEnter t c net f _ henter =>
    obtain ⟨this, f⟩ := f
    have hframe := Network.enter_spec henter
    have he' : e ∈ (net.session x).events := he
    by_cases hx : x = this
    · subst hx
      rw [hframe.notReturned.2] at he'
      exact .inl he'
    · rw [hframe.other hx] at he'
      exact .inl he'
  | netEnv c net henv =>
    obtain ⟨_, _, heq, _⟩ := (Network.env_spec henv).session x
    have he' : e ∈ (net.session x).events := he
    rw [heq] at he'
    exact .inl he'
  | changeList t q job => cases job <;> exact .inl he
  | setRoomID t q job => cases job <;> exact .inl he
  | _ => exact .inl he

/-- `ReleaseSession` follows the callback. -/
theorem Move.releasing (h : Move s a s') {u : T} {x : S}
    (hmem : .net (x, .disconnect .releaseSession) ∈ s'.frames u) :
    .net (x, .disconnect .releaseSession) ∈ s.frames u ∨
      ∃ fs, s.frames u = .net (callback (.leave x)) :: fs := by
  have kept {t : T} {f : Frame T S} {fs : List (Frame T S)} (new : List (Frame T S))
      (hf : s.frames t = f :: fs) (hnew : .net (x, .disconnect .releaseSession) ∉ new)
      (hmem : .net (x, .disconnect .releaseSession) ∈
        Function.update s.frames t (new ++ fs) u) :
      .net (x, .disconnect .releaseSession) ∈ s.frames u := by
    rcases mem_update _ hmem with ⟨_, hmem⟩ | hmem
    · exact absurd hmem hnew
    · exact hmem.mem hf
  cases h with
  | netStep t f c fs net new hf hstep =>
    rcases mem_update _ hmem with ⟨rfl, hnew⟩ | hother
    · rcases List.mem_append.mp hnew with hnew | hnew
      · rcases callbacks_cases f with he | ⟨_, he⟩ | ⟨_, he⟩ <;> rw [he] at hnew
        · exact absurd hnew List.not_mem_nil
        · exact nomatch List.mem_singleton.mp hnew
        · exact nomatch List.mem_singleton.mp hnew
      · obtain ⟨g, hg, hcall⟩ := List.mem_map.mp hnew
        obtain rfl := Frame.net.inj hcall
        obtain ⟨this, f⟩ := f
        obtain ⟨new, hframe, rfl⟩ := Network.step_spec hstep
        obtain ⟨g, hg, hcall⟩ := List.mem_map.mp hg
        obtain ⟨rfl, rfl⟩ := Prod.mk.inj hcall
        obtain rfl := hframe.callback.2.2 hg
        exact .inr ⟨fs, hf⟩
    · exact .inl (hother.mem hf)
  | doAsync t job fs hf _ => exact .inl (kept [_] hf (by simp) hmem)
  | jobStep t f c fs jobs new hf _ hstep =>
    refine .inl (kept _ hf ?_ hmem)
    intro hnew
    rcases List.mem_append.mp hnew with hnew | hnew
    · rcases bodies_cases hstep with ⟨he, _⟩ | ⟨_, _, _, _, _, he, _⟩ <;> rw [he] at hnew
      · exact absurd hnew List.not_mem_nil
      · exact nomatch List.mem_singleton.mp hnew
    · obtain ⟨_, _, he⟩ := List.mem_map.mp hnew
      exact nomatch he
  | changeList t q job fs hf => exact .inl (kept [_] hf (by simp) hmem)
  | setRoomID t q job fs hf => exact .inl (kept [] hf List.not_mem_nil hmem)
  | netEnter t c net f _ henter =>
    rcases mem_push hmem with hmem | hmem
    · obtain rfl := Frame.net.inj hmem
      exact absurd rfl (Network.enter_spec henter).callback.2.2
    · exact .inl hmem
  | globalJobs t _ =>
    rcases mem_push hmem with hmem | hmem
    · exact nomatch hmem
    · exact .inl hmem
  | netEnv | jobEnv => exact .inl hmem

omit [DecidableEq T] [DecidableEq S] [Fintype T] in
/-- A callback that takes its last step has its job in the queue. -/
theorem Delivered.top (h : Delivered s) {t : T} {job : Jobs.RoomJob S} {fs : List (Frame T S)}
    (hf : s.frames t = .net (callback job) :: fs) : Queued s job := by
  rcases h.inside t job (by rw [hf]; exact List.mem_cons_self) with hqueued | ⟨g, gs, heq, hpushes⟩
  · exact hqueued
  · rw [hf] at heq
    obtain ⟨rfl, _⟩ := List.cons.inj heq
    exact False.elim hpushes

theorem Delivered.next (h : Delivered s) (hnext : machine.next s a = some s') : Delivered s' := by
  have hmove := next_move hnext
  refine ⟨h.inside_next hnext, ?_, ?_, ?_⟩
  · intro x hx
    apply queued_mono hnext
    rcases hmove.recorded hx with hx' | ⟨t, f, fs, new, hf, heffect⟩
    · exact h.connected x hx'
    · rcases heffect.connectedReturned_mem hx with hx' | rfl
      · exact h.connected x hx'
      · have hcallback : s.frames t = .net (callback (.enter x)) :: fs := hf
        exact h.top hcallback
  · intro u x hmem
    apply queued_mono hnext
    rcases hmove.releasing hmem with hmem | ⟨fs, hf⟩
    · exact h.leaving u x hmem
    · exact h.top hf
  · intro x hx
    apply queued_mono hnext
    rcases hmove.recorded hx with hx' | ⟨t, f, fs, new, hf, heffect⟩
    · exact h.disconnected x hx'
    · rcases heffect.disconnectReturned_mem hx with hx' | rfl
      · exact h.disconnected x hx'
      · exact h.leaving t x (by rw [hf]; exact List.mem_cons_self)

theorem delivered_reach (h : machine.Reach ok (start recvPool sendPool) s) : Delivered s := by
  apply h.invariant Delivered
  · exact ⟨fun _ _ hf => absurd hf List.not_mem_nil, fun _ he => absurd he List.not_mem_nil,
      fun _ _ hf => absurd hf List.not_mem_nil, fun _ he => absurd he List.not_mem_nil⟩
  · exact fun _ _ _ _ hs _ hnext => hs.next hnext

/-- Counts the `Enter` of session `x` on its way to the `fetch_add` of its `Push`. -/
def Frame.awaits (x : S) (f : Frame T S) : ℕ := f.waiting.count (.enter x)

/-- The `Enter` of session `x` is asked for once. -/
structure AskedOnce (x : S) (s : RoomsConf T S) : Prop where
  one : weight (Frame.awaits x) s.frames ≤ 1
  fresh : weight (Frame.awaits x) s.frames ≠ 0 → ∀ q u, (u, .enter x) ∉ s.mem.jobs.pushed q

omit [DecidableEq T] in
theorem awaits_of_not_asked {x : S} (h : ¬Asked s (.enter x)) :
    weight (Frame.awaits x) s.frames = 0 := by
  apply (weight_eq_zero _ _).mpr
  intro t f hf
  apply List.count_eq_zero.mpr
  exact fun hjob => h (.inl ⟨t, f, hf, hjob⟩)

omit [DecidableEq T] [Fintype T] in
theorem awaits_net (x : S) (ns : List (SessionFrame T S)) :
    stackWeight (Frame.awaits x) (ns.map .net) = 0 := by
  apply stackWeight_eq_zero
  intro f hf
  obtain ⟨f, _, rfl⟩ := List.mem_map.mp hf
  rfl

omit [DecidableEq T] in
theorem AskedOnce.keep {x : S} (h : AskedOnce x s)
    (hweight : weight (Frame.awaits x) s'.frames = weight (Frame.awaits x) s.frames)
    (hpushed : s'.mem.jobs.pushed = s.mem.jobs.pushed) : AskedOnce x s' := by
  constructor
  · rw [hweight]
    exact h.one
  · rw [hweight, hpushed]
    exact h.fresh

theorem AskedOnce.jobStep {x : S} (h : AskedOnce x s) {t : T} {f : Jobs.Frame T ℕ (Jobs.RoomJob S)}
    {c : Jobs.Choice T ℕ (Jobs.RoomJob S)} {fs : List (Frame T S)}
    {jobs : Jobs.Mem T ℕ (Jobs.RoomJob S)} {new : List (Jobs.Frame T ℕ (Jobs.RoomJob S))}
    (hf : s.frames t = .job f :: fs) (hc : ∀ q job pushOnly, c ≠ .callPush q job pushOnly)
    (hstep : Jobs.step s.mem.jobs t f c = some (jobs, new)) :
    AskedOnce x ⟨{ s.mem with jobs := jobs },
      Function.update s.frames t (bodies f ++ new.map .job ++ fs)⟩ := by
  have hwaiting := step_waiting hstep hc
  have hnew : stackWeight (Frame.awaits x) (bodies f ++ new.map .job) = 0 := by
    apply stackWeight_eq_zero
    intro g hg
    simp only [Frame.awaits, hwaiting g hg, List.count_nil]
  have hweight := weight_step (Frame.awaits x) hf (bodies f ++ new.map .job)
  rw [hnew, Nat.add_zero] at hweight
  cases Jobs.step_spec hstep with
  | push q job pushOnly =>
    by_cases hjob : job = .enter x
    · have hone := h.one
      have htop : Frame.awaits x (.job (.push q job pushOnly) : Frame T S) = 1 := by
        simp [Frame.awaits, Frame.waiting, hjob]
      rw [htop] at hweight
      constructor
      · show weight (Frame.awaits x) (Function.update s.frames t _) ≤ 1
        omega
      · intro hne
        exact absurd (show weight (Frame.awaits x) (Function.update s.frames t _) = 0 by omega) hne
    · have htop : Frame.awaits x (.job (.push q job pushOnly) : Frame T S) = 0 := by
        simp [Frame.awaits, Frame.waiting, hjob]
      rw [htop, Nat.add_zero] at hweight
      constructor
      · exact le_of_eq_of_le hweight h.one
      · intro hne q' u hu
        have hold := h.fresh (fun hzero => hne (hweight.trans hzero)) q' u
        by_cases hq : q' = q
        · subst hq
          simp only [Jobs.Mem.fetchAdd, ConcurrentQueue.enqueue, Function.update_self] at hu
          rcases List.mem_append.mp hu with hu | hu
          · exact hold hu
          · exact hjob (Prod.mk.inj (List.mem_singleton.mp hu)).2.symm
        · simp only [Jobs.Mem.fetchAdd, Function.update_of_ne hq] at hu
          exact hold hu
  | globalLeave f hleave => exact h.keep (by rcases hleave with rfl | rfl <;> exact hweight) rfl
  | _ => exact h.keep hweight rfl

theorem AskedOnce.next {x : S} (h : AskedOnce x s)
    (hr : machine.Reach ok (start recvPool sendPool) s) (hnext : machine.next s a = some s') :
    AskedOnce x s' := by
  cases next_move hnext with
  | netStep t f c fs net new hf hstep =>
    have hweight := weight_step (Frame.awaits x) hf (callbacks f ++ new.map .net)
    have htop : Frame.awaits x (.net f : Frame T S) = 0 := rfl
    rw [stackWeight_append, awaits_net, htop, Nat.add_zero, Nat.add_zero] at hweight
    rcases callbacks_cases f with he | ⟨hcall, he⟩ | ⟨_, he⟩
    · refine h.keep (hweight.trans ?_) rfl
      rw [he, stackWeight_nil, Nat.add_zero]
    · by_cases hx : f.1 = x
      · -- the session has not been let in before
        have hmem : (x, .connect .onConnected) ∈ (netPart s).frames t := by
          simp only [Conf.part, hf, List.filterMap_cons, Frame.toNet]
          rw [← hx, ← hcall]
          exact List.mem_cons_self
        have hnot : ¬Asked s (.enter x) := fun hasked =>
          Network.not_entered hmem Nat.one_pos (entered_of_asked hr x hasked)
        have hone : stackWeight (Frame.awaits x) (callbacks f) = 1 := by
          rw [he, hx, stackWeight_cons, stackWeight_nil]
          simp [Frame.awaits, Frame.waiting]
        rw [hone, awaits_of_not_asked hnot] at hweight
        refine ⟨le_of_eq hweight, ?_⟩
        exact fun _ q u hu => hnot (.inr ⟨q, u, hu⟩)
      · refine h.keep (hweight.trans ?_) rfl
        rw [he, stackWeight_cons, stackWeight_nil]
        simp [Frame.awaits, Frame.waiting, hx]
    · refine h.keep (hweight.trans ?_) rfl
      rw [he, stackWeight_cons, stackWeight_nil]
      simp [Frame.awaits, Frame.waiting]
  | doAsync t job fs hf _ =>
    refine h.keep ?_ rfl
    have hweight := weight_step (Frame.awaits x) hf
      [.job (.push (s.mem.GetChatRoom job.session) job false)]
    rw [stackWeight_cons, stackWeight_nil] at hweight
    exact Nat.add_right_cancel hweight
  | jobStep t f c fs jobs new hf hc hstep => exact h.jobStep hf hc hstep
  | changeList t q job fs hf =>
    refine h.keep ?_ (by cases job <;> rfl)
    exact weight_replace hf rfl (List.forall_mem_singleton.mpr rfl)
  | setRoomID t q job fs hf =>
    refine h.keep ?_ (by cases job <;> rfl)
    exact weight_replace hf rfl (List.forall_mem_nil _)
  | netEnter t c net f _ _ => exact h.keep (weight_push s.frames t rfl) rfl
  | globalJobs t _ => exact h.keep (weight_push s.frames t rfl) rfl
  | netEnv => exact h.keep rfl rfl
  | jobEnv c jobs henv =>
    obtain ⟨ticks, rfl⟩ := Jobs.env_spec henv
    exact h.keep rfl rfl

theorem askedOnce_reach (h : machine.Reach ok (start recvPool sendPool) s) (x : S) :
    AskedOnce x s := by
  apply h.invariant (AskedOnce x)
  · have hzero : weight (Frame.awaits x) (start recvPool sendPool : RoomsConf T S).frames = 0 :=
      weight_idle _
    exact ⟨hzero ▸ Nat.zero_le 1, fun hne => absurd hzero hne⟩
  · exact fun _ _ _ hr hs _ hnext => hs.next hr hnext

omit [DecidableEq S] in
theorem queued_pushed {m : Jobs.RoomConf T ℕ S} (h : Jobs.Inv m) {q : ℕ} {u : T}
    {job : Jobs.RoomJob S} (hqueued : (u, job) ∈ m.mem.taken q ++ m.mem.mJobQueue q) :
    (u, job) ∈ m.mem.pushed q := by
  have hmem : job ∈ ofProducer u (m.mem.taken q ++ m.mem.mJobQueue q) := mem_ofProducer.mpr hqueued
  rw [ofProducer_append] at hmem
  rw [← mem_ofProducer, h.order q u]
  exact List.mem_append_left _ hmem

/-- When a `Leave` is bound for a room, the `Enter` of its session is in that room's queue. -/
theorem enter_before_leave
    (h : machine.Reach (fun s a => orderly s a = true) (start recvPool sendPool) s) {q : ℕ} {x : S}
    (hbound : Bound s q (.leave x)) :
    ∃ u, (u, .enter x) ∈ s.mem.jobs.taken q ++ s.mem.jobs.mJobQueue q := by
  have hreturned := returned_of_called h (called_of_asked h x hbound.asked)
  obtain ⟨q', u, hu⟩ := (delivered_reach h).connected x hreturned
  have hpushed : (u, .enter x) ∈ s.mem.jobs.pushed q' := queued_pushed (jobs_inv h) hu
  have hq := (placed_reach h (.leave x) q hbound).1
  have hq' := (placed_reach h (.enter x) q' (.inr ⟨u, hpushed⟩)).1
  obtain rfl : q' = q := hq'.trans hq.symm
  exact ⟨u, hu⟩

/-- The sessions use the rooms in order. -/
theorem in_order (h : machine.Reach (fun s a => orderly s a = true) (start recvPool sendPool) s)
    {t : T} {f : Jobs.Frame T ℕ (Jobs.RoomJob S)} {c : Jobs.Choice T ℕ (Jobs.RoomJob S)}
    {fs : List (Frame T S)} (hf : s.frames t = .job f :: fs) :
    Jobs.sessionOrder (jobPart s) (.step t c) = true := by
  have htop : (jobPart s).frames t = f :: fs.filterMap Frame.toJob := by
    simp only [Conf.part, hf, List.filterMap_cons, Frame.toJob]
  have hmem : .job f ∈ s.frames t := by
    rw [hf]
    exact List.mem_cons_self
  cases c with
  | go =>
    simp only [Jobs.sessionOrder, htop]
    cases f with
    | push q job pushOnly =>
      cases job with
      | enter x =>
        apply decide_eq_true
        intro hpushed
        obtain ⟨⟨u, job⟩, hu, rfl⟩ := List.mem_map.mp hpushed
        have hshare := top_le_weight (Frame.awaits x) hf
        have hone : Frame.awaits x (.job (.push q (.enter x) pushOnly) : Frame T S) = 1 := by
          simp [Frame.awaits, Frame.waiting]
        exact (askedOnce_reach h x).fresh (by omega) q u hu
      | leave x =>
        apply decide_eq_true
        obtain ⟨u, hu⟩ := enter_before_leave h (.inl ⟨t, pushOnly, hmem⟩)
        exact List.mem_map_of_mem (f := Prod.snd) hu
    | _ => rfl
  | _ => rfl

theorem roomInv_reach
    (h : machine.Reach (fun s a => orderly s a = true) (start recvPool sendPool) s) (q : ℕ) :
    Jobs.RoomInv q (jobPart s) := by
  apply h.invariant fun s => Jobs.RoomInv q (jobPart s)
  · constructor
    · exact fun _ _ hm => absurd hm List.not_mem_nil
    · exact fun _ _ _ hm => absurd hm List.not_mem_nil
    · exact fun _ _ => Nat.zero_le 1
    · intro before u session later heq
      have hnil : [] = before ++ (u, .leave session) :: later := heq
      exact absurd hnil (by simp)
  · intro s a s' hr hs hok hnext
    rcases (next_move hnext).jobs (shape_reach hr) with heq | ⟨b, hb, hstep⟩
    · rw [heq]
      exact hs
    · cases b with
      | step t c =>
        obtain rfl := hstep t c rfl
        have hfirst : Jobs.enterFirst (jobPart s) (.step t c) = true := by
          simp only [orderly, Bool.and_eq_true] at hok
          exact hok.2
        have horder : Jobs.sessionOrder (jobPart s) (.step t c) = true := by
          cases next_move hnext with
          | jobStep _ f _ fs _ _ hf _ _ => exact in_order hr hf
        exact hs.next (jobs_inv hr) horder hfirst hb
      | _ => exact hs.next (jobs_inv hr) rfl rfl hb

end ServerCore.App.Rooms
