import ServerCore.Database.Launch

namespace ServerCore.Database

open Framework ConcurrentQueue

variable {T X : Type}

/-- What is left to do at a position before the thread of a service finds nothing counted, where
a request in `mDBQueue` takes thirty. -/
def Frame.effort : Frame T X → ℕ
  | .tickTest _ => 18
  | .reconnect _ => 17
  | .backOff _ => 16
  | .sleep .. => 15
  | .launch _ => 14
  | .isConnected _ => 13
  | .work .. => 12
  | .execute _ => 11
  | .dequeue _ => 10
  | .batch _ _ jobs => 2 * jobs.length + 30
  | .handling _ _ jobs => 2 * jobs.length + 31
  | _ => 0

/-- The stack of a thread in the loop of service `i`, outside of any `Push`. -/
inductive InLoop (i : ℕ) : List (Frame T X) → Prop
  | loop (f) : f.looping i → InLoop i [f]
  | execute (f c) : f.executing i → InLoop i [f, .sleep i c]

/-- `mDBQueue` hands out what it holds, and handlers push no requests. -/
structure Attended (i : ℕ) (t : T) (s : Conf T (Mem T X) (Frame T X))
    (a : Action T (Choice T X)) : Prop where
  take : a = .step t (.take []) → (s.mem.service i).mDBQueue = []
  balance : ∀ workId protocolId data handler,
    a ≠ .step t (.callBalance workId protocolId data handler)
  balanceData : ∀ data handler, a ≠ .step t (.callBalanceData data handler)
  push : ∀ j protocolId data handler, a ≠ .step t (.callPush j protocolId data handler)

/-- Everything that was pushed to service `i` has been handled. -/
structure Drained (i : ℕ) (s : Mem T X) : Prop where
  count : (s.service i).mQueueCount = 0
  queue : (s.service i).mDBQueue = []
  handled : (s.handled i).Perm (s.pushed i)

section Serving

variable [DecidableEq T] [Fintype T] {worker : ℕ → T} {i : ℕ}
  {s s' : Conf T (Mem T X) (Frame T X)} {f : Frame T X} {fs new : List (Frame T X)}

/-- The thread of service `i` is in its loop, connected, and no other has counted a request that
it has not enqueued. -/
structure Serving (worker : ℕ → T) (i : ℕ) (s : Conf T (Mem T X) (Frame T X)) : Prop where
  inv : Inv worker s
  others : ∀ t, t ≠ worker i → ∀ f ∈ s.frames t, f.load i = 0
  loop : InLoop i (s.frames (worker i))
  connected : (s.mem.service i).mSession = some true
  registered : ∀ e ∈ s.mem.pushed i, e.2.ProtocolId ∈ e.2.handler.mDBHandlerList

/-- What the thread of a service has left to do. -/
def effort (worker : ℕ → T) (i : ℕ) (s : Conf T (Mem T X) (Frame T X)) : ℕ :=
  30 * (s.mem.service i).mDBQueue.length + ((s.frames (worker i)).head?.map Frame.effort).getD 0

theorem Inv.drained_of_zero (h : Inv worker s) (hzero : (s.mem.service i).mQueueCount = 0) :
    Drained i s.mem := by
  obtain ⟨hqueue, hall⟩ := h.all_handled i hzero
  refine ⟨hzero, hqueue, ?_⟩
  have hle : (s.mem.handled i).Subperm (s.mem.pushed i) :=
    subperm_of_producers fun p => (hall p) ▸ List.Sublist.refl _
  have hge : (s.mem.pushed i).Subperm (s.mem.handled i) :=
    subperm_of_producers fun p => (hall p) ▸ List.Sublist.refl _
  exact hle.antisymm hge

/-- What the batch of the thread holds was pushed. -/
theorem Serving.pushed_of_left (h : Serving worker i s) (hs : s.frames (worker i) = f :: fs)
    {e : T × DBQueueData X} (he : e ∈ f.left i) : e ∈ s.mem.pushed i := by
  have horder := h.inv.order i e.1
  have hmem : e.2 ∈ ofProducer e.1 (f.left i) := mem_ofProducer.mpr he
  show (e.1, e.2) ∈ s.mem.pushed i
  rw [← mem_ofProducer, horder, hs, List.flatMap_cons, ofProducer_append, ofProducer_append,
    ofProducer_append]
  simp only [List.mem_append]
  exact .inl (.inl (.inr (.inl hmem)))

/-- At the dequeue everything that is counted is in `mDBQueue`. -/
theorem Serving.count_dequeue (h : Serving worker i s)
    (hs : s.frames (worker i) = .dequeue i :: fs) :
    (s.mem.service i).mQueueCount = (s.mem.service i).mDBQueue.length := by
  have hnone : weight (Frame.load i) s.frames = 0 := by
    apply (weight_eq_zero _ _).mpr
    intro t g hg
    by_cases ht : t = worker i
    · subst ht
      have hloop := h.loop
      rw [hs] at hg hloop
      cases hloop with
      | loop _ hl => exact hl.elim
      | execute _ c _ =>
        rcases List.mem_pair.mp hg with rfl | rfl <;> rfl
    · exact h.others t ht g hg
  have hcount := h.inv.count i
  rw [hnone] at hcount
  simpa using hcount

/-- The thread is never blocked. -/
theorem Serving.progress (h : Serving worker i s) : ∃ c s',
    Attended i (worker i) s (.step (worker i) c) ∧
      (machine worker).next s (.step (worker i) c) = some s' := by
  have step {f : Frame T X} {fs : List (Frame T X)} (hs : s.frames (worker i) = f :: fs)
      (c : Choice T X) (hc : Attended i (worker i) s (.step (worker i) c))
      (hstep : (Database.step s.mem (worker i) f c).isSome) : ∃ c s',
      Attended i (worker i) s (.step (worker i) c) ∧
        (machine worker).next s (.step (worker i) c) = some s' := by
    obtain ⟨s', hs'⟩ := Machine.next_of_isSome (m := machine worker) hs hstep
    exact ⟨c, s', hc, hs'⟩
  have hgo : Attended i (worker i) s (.step (worker i) .go) := by constructor <;> simp
  have hclock : Attended i (worker i) s (.step (worker i) (.clock 0)) := by constructor <;> simp
  have hresult : Attended i (worker i) s (.step (worker i) (.result false)) := by
    constructor <;> simp
  cases hfs : s.frames (worker i) with
  | nil =>
    have hloop := h.loop
    rw [hfs] at hloop
    cases hloop
  | cons f fs =>
    have hloop := h.loop
    rw [hfs] at hloop
    cases f with
    | tickTest j =>
      refine step hfs (.clock 0) hclock ?_
      simp only [Database.step, launchStep]
      split_ifs <;> rfl
    | reconnect j => exact step hfs (.result false) hresult rfl
    | backOff j => exact step hfs (.clock 0) hclock rfl
    | launch j =>
      refine step hfs .go hgo ?_
      simp only [Database.step, launchStep]
      split_ifs <;> rfl
    | isConnected j =>
      refine step hfs .go hgo ?_
      obtain rfl : j = i := by
        cases hloop with
        | loop _ hl => exact hl
        | execute _ _ he => exact he.elim
      simp only [Database.step, launchStep, h.connected]
      rfl
    | work j c => exact step hfs .go hgo rfl
    | sleep j c => exact step hfs .go hgo rfl
    | execute j =>
      refine step hfs .go hgo ?_
      simp only [Database.step, executeStep]
      split_ifs <;> rfl
    | dequeue j =>
      have htake := takeBulk_oldest 1 (s.mem.service j).mDBQueue
      have hlen : (((s.mem.service j).mDBQueue.take 1).map Prod.fst).length ≤
          bulkDequeueDBCount := by
        rw [List.length_map, List.length_take, bulkDequeueDBCount]
        omega
      refine step hfs (.take (((s.mem.service j).mDBQueue.take 1).map Prod.fst)) ?_ ?_
      · obtain rfl : j = i := by
          cases hloop with
          | loop _ hl => exact hl.elim
          | execute _ _ he => exact he
        constructor <;> simp
      · simp only [Database.step, executeStep, if_pos hlen, htake, Option.map_some,
          Option.isSome_some]
    | batch j jobCount jobs =>
      refine step hfs .go hgo ?_
      cases jobs with
      | nil =>
        simp only [Database.step, executeStep]
        split_ifs <;> rfl
      | cons job jobs =>
        obtain rfl : j = i := by
          cases hloop with
          | loop _ hl => exact hl.elim
          | execute _ _ he => exact he
        have hleft : job ∈ (Frame.batch j jobCount (job :: jobs)).left j := by
          simp [Frame.left]
        have hregistered := h.registered job (h.pushed_of_left hfs hleft)
        simp only [Database.step, executeStep, if_pos hregistered]
        rfl
    | handling j jobCount jobs => exact step hfs .go hgo rfl
    | _ =>
      cases hloop with
      | loop _ hl => exact hl.elim
      | execute _ _ he => exact he.elim

omit [Fintype T] in
/-- The choices that a handler does not make leave it on top. -/
theorem not_called {t : T} {mem : Mem T X} {c : Choice T X} (hc : Attended i t s (.step t c))
    (hstep : Database.step s.mem t f c = some (mem, new)) {g : Frame T X} (hg : g.pushing) :
    new ≠ [g, f] := by
  rintro rfl
  cases f with
  | handling j jobCount jobs =>
    cases c with
    | callBalance workId protocolId data handler =>
      exact hc.balance workId protocolId data handler rfl
    | callBalanceData data handler => exact hc.balanceData data handler rfl
    | callPush j protocolId data handler => exact hc.push j protocolId data handler rfl
    | _ => simp [Database.step, executeStep] at hstep
  | _ =>
    have hspec := step_spec hstep
    cases hspec with
    | loop _ _ _ hl => cases hl

/-- A dequeue hands out something. -/
theorem Serving.taken (h : Serving worker i s) {c : Choice T X} {mem : Mem T X}
    {jobCount : ℕ} {jobs : List (T × DBQueueData X)}
    (hc : Attended i (worker i) s (.step (worker i) c))
    (hs : s.frames (worker i) = .dequeue i :: fs)
    (hstep : Database.step s.mem (worker i) (.dequeue i) c = some (mem, [.batch i jobCount jobs]))
    (hne : (s.mem.service i).mQueueCount ≠ 0) : jobs ≠ [] := by
  rintro rfl
  cases c with
  | take producers =>
    simp only [Database.step, executeStep] at hstep
    split at hstep
    · obtain ⟨⟨xs, rest⟩, htake, heq⟩ := Option.map_eq_some_iff.mp hstep
      have hlength := takeBulk_length htake
      obtain ⟨_, heq⟩ := Prod.mk.inj heq
      obtain ⟨_, _, rfl⟩ := Frame.batch.inj (List.singleton_inj.mp heq)
      have hnil : producers = [] := List.eq_nil_of_length_eq_zero hlength.symm
      subst hnil
      have hqueue := hc.take rfl
      have hcount := h.count_dequeue hs
      rw [hqueue] at hcount
      exact hne (by simpa using hcount)
    · cases hstep
  | _ => cases hstep

/-- With a session the thread does not wait for one. -/
theorem Serving.found (h : Serving worker i s) {c : Choice T X} {mem : Mem T X}
    (hs : s.frames (worker i) = f :: fs)
    (hstep : Database.step s.mem (worker i) f c = some (mem, new)) (j : ℕ) (hf : f = .launch j) :
    new ≠ [f] := by
  subst hf
  rintro rfl
  have hloop := h.loop
  rw [hs] at hloop
  obtain rfl : j = i := by
    cases hloop with
    | loop _ hl => exact hl
    | execute _ _ he => exact he.elim
  cases c <;> simp [Database.step, launchStep, h.connected] at hstep

/-- What one step of the loop keeps, and that it leaves less to do. -/
structure Served (i : ℕ) (s s' : Mem T X) (f : Frame T X) (stack : List (Frame T X)) : Prop where
  loop : InLoop i stack
  connected : (s'.service i).mSession = some true
  pushed : s'.pushed = s.pushed
  effort : 30 * (s'.service i).mDBQueue.length + (stack.head?.map Frame.effort).getD 0 <
    30 * (s.service i).mDBQueue.length + f.effort

omit [Fintype T] in
theorem Step.served {t : T} {m m' : Mem T X} (h : Step m t f m' new) (hloop : InLoop i (f :: fs))
    (hne : (m.service i).mQueueCount ≠ 0) (hconnected : (m.service i).mSession = some true)
    (hcall : ∀ g, g.pushing → new ≠ [g, f]) (hwait : ∀ j, f = .launch j → new ≠ [f])
    (htake : ∀ jobCount jobs, f = .dequeue i → new = [.batch i jobCount jobs] → jobs ≠ []) :
    Served i m m' f (new ++ fs) := by
  have executing {g : Frame T X} (hloop : InLoop i (g :: fs)) (hg : ∀ j, ¬g.looping j) :
      g.executing i ∧ ∃ c, fs = [.sleep i c] := by
    cases hloop with
    | loop _ hl => exact absurd hl (hg i)
    | execute _ c he => exact ⟨he, c, rfl⟩
  have looping {g : Frame T X} (hloop : InLoop i (g :: fs)) (hg : ∀ j, ¬g.executing j) :
      g.looping i ∧ fs = [] := by
    cases hloop with
    | loop _ hl => exact ⟨hl, rfl⟩
    | execute _ c he => exact absurd he (hg i)
  have hsession := h.session
  cases h with
  | refuse f hf _ => exact absurd (executing hloop hf.not_looping).1 (hf.not_executing i)
  | balance f _ _ _ _ hf _ => exact absurd (executing hloop hf.not_looping).1 (hf.not_executing i)
  | push => exact (executing hloop fun _ hl => hl).1.elim
  | enqueue => exact (executing hloop fun _ hl => hl).1.elim
  | empty j hzero =>
    obtain ⟨rfl, _⟩ := executing hloop fun _ hl => hl
    exact absurd hzero hne
  | execute j _ =>
    obtain ⟨rfl, c, rfl⟩ := executing hloop fun _ hl => hl
    exact ⟨.execute _ c rfl, hconnected, rfl, by simp [Frame.effort]⟩
  | dequeue j jobs rest hperm _ =>
    obtain ⟨rfl, c, rfl⟩ := executing hloop fun _ hl => hl
    have hpos := List.length_pos_of_ne_nil (htake _ _ rfl rfl)
    have hlength := hperm.length_eq
    rw [List.length_append] at hlength
    refine ⟨.execute _ c rfl, (hsession (by simp) _).trans hconnected, rfl, ?_⟩
    simp only [Mem.dequeued, Mem.set_service, Function.update_self, List.singleton_append,
      List.head?_cons, Option.map_some, Option.getD_some, Frame.effort]
    omega
  | handle j jobCount job jobs =>
    obtain ⟨rfl, c, rfl⟩ := executing hloop fun _ hl => hl
    refine ⟨.execute _ c rfl, hconnected, rfl, ?_⟩
    simp only [Mem.handle_service, List.singleton_append, List.head?_cons, Option.map_some,
      Option.getD_some, Frame.effort, List.length_cons]
    omega
  | call j jobCount jobs g hg _ => exact absurd rfl (hcall g hg)
  | handled j jobCount jobs =>
    obtain ⟨rfl, c, rfl⟩ := executing hloop fun _ hl => hl
    exact ⟨.execute _ c rfl, hconnected, rfl, by simp [Frame.effort]⟩
  | subLast j jobCount _ =>
    obtain ⟨rfl, c, rfl⟩ := executing hloop fun _ hl => hl
    refine ⟨.loop _ rfl, (hsession (by simp) _).trans hconnected, rfl, ?_⟩
    simp [Mem.fetchSub, Frame.effort]
  | subMore j jobCount =>
    obtain ⟨rfl, c, rfl⟩ := executing hloop fun _ hl => hl
    refine ⟨.execute _ c rfl, (hsession (by simp) _).trans hconnected, rfl, ?_⟩
    simp [Mem.fetchSub, Frame.effort]
  | loop f m' new hl =>
    have hqueue := (hl.frame i).1.2
    cases hl with
    | wait j => exact absurd rfl (hwait j rfl)
    | found j =>
      obtain ⟨rfl, rfl⟩ := looping hloop fun _ he => he
      exact ⟨.loop _ rfl, hconnected, rfl, by simp [Frame.effort]⟩
    | up j _ =>
      obtain ⟨rfl, rfl⟩ := looping hloop fun _ he => he
      exact ⟨.loop _ rfl, hconnected, rfl, by simp [Frame.effort]⟩
    | down j hdown =>
      obtain ⟨rfl, rfl⟩ := looping hloop fun _ he => he
      rw [hconnected] at hdown
      cases hdown
    | due j =>
      obtain ⟨rfl, rfl⟩ := looping hloop fun _ he => he
      exact ⟨.loop _ rfl, hconnected, rfl, by simp [Frame.effort]⟩
    | early j =>
      obtain ⟨rfl, rfl⟩ := looping hloop fun _ he => he
      exact ⟨.loop _ rfl, hconnected, rfl, by simp [Frame.effort]⟩
    | reconnect j ok =>
      obtain ⟨rfl, rfl⟩ := looping hloop fun _ he => he
      refine ⟨.loop _ rfl, ?_, rfl, ?_⟩
      · cases ok <;> simp [DBService.Connect, hconnected]
      · rw [hqueue]
        simp [Frame.effort]
    | backOff j ticks =>
      obtain ⟨rfl, rfl⟩ := looping hloop fun _ he => he
      exact ⟨.loop _ rfl, hconnected, rfl, by simp [Frame.effort, Mem.service]⟩
    | work j c =>
      obtain ⟨rfl, rfl⟩ := looping hloop fun _ he => he
      exact ⟨.execute _ c rfl, hconnected, rfl, by simp [Frame.effort]⟩
    | sleep j c =>
      obtain ⟨rfl, rfl⟩ := looping hloop fun _ he => he
      exact ⟨.loop _ rfl, hconnected, rfl, by simp [Frame.effort]⟩

theorem Serving.keep (h : Serving worker i s) (hne : (s.mem.service i).mQueueCount ≠ 0)
    {c : Choice T X} (hc : Attended i (worker i) s (.step (worker i) c))
    (hs' : (machine worker).next s (.step (worker i) c) = some s') :
    Serving worker i s' ∧ s'.mem.pushed = s.mem.pushed ∧
      effort worker i s' < effort worker i s := by
  have hinv := h.inv.next hs'
  obtain ⟨f, fs, mem, new, hs, hstep, rfl⟩ := Machine.next_step_cases hs'
  have hstep : Database.step s.mem (worker i) f c = some (mem, new) := hstep
  have hserved : Served i s.mem mem f (new ++ fs) := by
    apply (step_spec hstep).served (hs ▸ h.loop) hne h.connected
    · exact fun g hg => not_called hc hstep hg
    · exact h.found hs hstep
    · rintro jobCount jobs rfl rfl
      exact h.taken hc hs hstep hne
  refine ⟨⟨hinv, ?_, ?_, hserved.connected, ?_⟩, hserved.pushed, ?_⟩
  · intro t ht g hg
    dsimp only at hg
    rw [Function.update_of_ne ht] at hg
    exact h.others t ht g hg
  · dsimp only
    rw [Function.update_self]
    exact hserved.loop
  · dsimp only
    rw [hserved.pushed]
    exact h.registered
  · have heffort := hserved.effort
    simpa only [effort, Function.update_self, hs, List.head?_cons, Option.map_some,
      Option.getD_some] using heffort

/-- From every reached state in which service `i` is connected, its thread is in the loop and no
other thread is inside the counting of a request, the thread handles all that was pushed. -/
theorem requests_drain {connect : ℕ → Bool} {connectionString : String} {serviceCount : Int}
    {ok : Conf T (Mem T X) (Frame T X) → Action T (Choice T X) → Prop}
    (h : (machine worker).Reach ok (start connect connectionString serviceCount) s)
    (hothers : ∀ t, t ≠ worker i → ∀ f ∈ s.frames t, f.load i = 0)
    (hloop : InLoop i (s.frames (worker i))) (hconnected : (s.mem.service i).mSession = some true)
    (hregistered : ∀ e ∈ s.mem.pushed i, e.2.ProtocolId ∈ e.2.handler.mDBHandlerList) :
    (machine worker).Leads (Attended i (worker i)) (worker i)
      (fun s' => Drained i s'.mem ∧ s'.mem.pushed = s.mem.pushed) s := by
  refine Machine.leads_until
    (fun s' => Serving worker i s' ∧ s'.mem.pushed = s.mem.pushed) (effort worker i)
    ?progress ?keep ⟨⟨Reach.inv h, hothers, hloop, hconnected, hregistered⟩, rfl⟩
  case progress => exact fun s' hs' => .inr hs'.1.progress
  case keep =>
    intro s₁ c s₂ hserving hnot hc hnext
    have hne : (s₁.mem.service i).mQueueCount ≠ 0 := fun hzero =>
      hnot ⟨hserving.1.inv.drained_of_zero hzero, hserving.2⟩
    obtain ⟨hkept, hpushed, hlt⟩ := hserving.1.keep hne hc hnext
    exact ⟨⟨hkept, hpushed.trans hserving.2⟩, hlt⟩

end Serving

/-- The thread of the one service is in its loop, and a request is pushed. -/
def pushWhileLooping : List (Action Bool (Choice Bool Unit)) :=
  [.enter true (.callLaunch 0), .step true .go,
    .enter false (.callPush 0 1 (some ⟨0, 1, ()⟩) ⟨[1]⟩), .step false .go, .step false .go]

theorem requests_drain_pushWhileLooping :
    ∃ s : Conf Bool (Mem Bool Unit) (Frame Bool Unit), s.mem.pushed 0 ≠ [] ∧
      (machine fun _ => true).Leads (Attended 0 true) true
        (fun s' => Drained 0 s'.mem ∧ s'.mem.pushed = s.mem.pushed) s := by
  have hr := Machine.reach_final (machine fun _ => true)
    (start (fun _ => true) "DSN=Game" 1 : Conf Bool (Mem Bool Unit) (Frame Bool Unit))
    pushWhileLooping (by decide)
  refine ⟨_, ?_, requests_drain hr ?_ (.loop (.isConnected 0) rfl) ?_ ?_⟩
  · decide
  · intro t ht f hf
    obtain rfl : t = false := Bool.eq_false_of_not_eq_true ht
    exact absurd hf List.not_mem_nil
  · decide
  · decide

end ServerCore.Database
