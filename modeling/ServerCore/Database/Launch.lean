import ServerCore.Database.DBServiceInvariant

namespace ServerCore.Database

open Framework ConcurrentQueue

/-- What the thread of a service sees of its connection, and when it takes requests out of
`mDBQueue`. -/
inductive LaunchEvent where
  | tested (i : ℕ) (connected : Bool)
  | reconnected (i : ℕ)
  | took (i : ℕ)
  deriving DecidableEq

/-- The result of the last `isConnected()`. -/
def lastTest (i : ℕ) (log : List LaunchEvent) : Option Bool :=
  log.foldl (fun r e =>
    match e with
    | .tested i' connected => if i' = i then some connected else r
    | _ => r) none

/-- A test has found the session disconnected, and no reconnect has succeeded since. -/
def down (i : ℕ) (log : List LaunchEvent) : Bool :=
  log.foldl (fun d e =>
    match e with
    | .tested i' connected => if i' = i ∧ connected = false then true else d
    | .reconnected i' => if i' = i then false else d
    | .took _ => d) false

/-- Requests are taken only in iterations whose test found the session connected, and after
a test that did not, only once a reconnect has succeeded. -/
def OnLiveConnection (log : List LaunchEvent) : Prop :=
  ∀ before i after, log = before ++ .took i :: after →
    lastTest i before = some true ∧ down i before = false

section Log

variable {T X : Type}

/-- What a step of a frame adds to the log. -/
def launchEvents (s : Mem T X) : Frame T X → Choice T X → List LaunchEvent
  | .isConnected i, _ => (s.service i).mSession.toList.map (.tested i)
  | .reconnect i, .result true => [.reconnected i]
  | .dequeue i, .take (_ :: _) => [.took i]
  | _, _ => []

def launchLog (s : Conf T (Mem T X) (Frame T X)) : Action T (Choice T X) → List LaunchEvent
  | .step t c =>
      match s.frames t with
      | f :: _ => launchEvents s.mem f c
      | [] => []
  | _ => []

/-- `Execute` is called by the loop of `Launch` only. -/
def fromLaunch : Action T (Choice T X) → Bool
  | .enter _ (.callExecute _) => false
  | _ => true

/-- When an iteration that found the session disconnected calls `Execute`, because
`LEndTickCount` lies ahead, nothing is counted. -/
def idleInBackOff (s : Conf T (Mem T X) (Frame T X)) : Action T (Choice T X) → Bool
  | .step t _ =>
      match s.frames t with
      | .execute i :: .sleep _ false :: _ => decide ((s.mem.service i).mQueueCount = 0)
      | _ => true
  | _ => true

/-- Runs of the threads that `Launch` starts in which no back-off finds anything counted. -/
def launchOk (s : Conf T (Mem T X) (Frame T X)) (a : Action T (Choice T X)) : Bool :=
  fromLaunch a && idleInBackOff s a

end Log

@[simp] theorem lastTest_append (i : ℕ) (log : List LaunchEvent) (e : LaunchEvent) :
    lastTest i (log ++ [e]) =
      match e with
      | .tested i' connected => if i' = i then some connected else lastTest i log
      | _ => lastTest i log := by
  simp only [lastTest, List.foldl_append, List.foldl_cons, List.foldl_nil]

@[simp] theorem down_append (i : ℕ) (log : List LaunchEvent) (e : LaunchEvent) :
    down i (log ++ [e]) =
      match e with
      | .tested i' connected => if i' = i ∧ connected = false then true else down i log
      | .reconnected i' => if i' = i then false else down i log
      | .took _ => down i log := by
  simp only [down, List.foldl_append, List.foldl_cons, List.foldl_nil]

/-- A log grows by one event that is no `took`, or is one that the tests allow. -/
theorem OnLiveConnection.append {log : List LaunchEvent} (h : OnLiveConnection log)
    {e : LaunchEvent} (he : ∀ i, e = .took i → lastTest i log = some true ∧ down i log = false) :
    OnLiveConnection (log ++ [e]) := by
  intro before i after heq
  rcases Machine.mem_grown heq with ⟨rfl, hlast⟩ | ⟨rest, hlog⟩
  · exact he i hlast
  · exact h before i rest hlog

variable {T X : Type} [DecidableEq T]

/-- Every activation of `Execute` was called by the loop, and has not got past the test of
the count when the iteration found the session disconnected. -/
def Guarded : List (Frame T X) → Prop
  | [] => True
  | f :: fs => (∀ i, f.executing i → ∃ c, fs = [.sleep i c] ∧ (c = false → f = .execute i)) ∧
      Guarded fs

theorem Guarded.step {worker : ℕ → T} {t : T} {f : Frame T X} {fs new : List (Frame T X)}
    {s s' : Mem T X} (h : Guarded (f :: fs)) (hstack : Stack worker t (f :: fs))
    (hs : Step s t f s' new)
    (hidle : ∀ i, f = .execute i → fs = [.sleep i false] → (s.service i).mQueueCount = 0) :
    Guarded (new ++ fs) := by
  obtain ⟨hf, hfs⟩ := h
  have pushed (g : Frame T X) (hg : g.pushing) (gs : List (Frame T X)) (hgs : Guarded gs) :
      Guarded (g :: gs) :=
    ⟨fun i he => absurd he (hg.not_executing i), hgs⟩
  -- past its first test an activation stays inside the same iteration
  have inside (i : ℕ) (g : Frame T X) (hg : g.executing i) (hc : ∃ c, fs = [.sleep i c] ∧ c = true) :
      Guarded (g :: fs) := by
    obtain ⟨c, hsleep, rfl⟩ := hc
    refine ⟨?_, hfs⟩
    intro i' hg'
    obtain rfl := hg.unique hg'
    exact ⟨true, hsleep, by simp⟩
  have connected (i : ℕ) (he : f.executing i) (hne : f ≠ .execute i) :
      ∃ c, fs = [.sleep i c] ∧ c = true := by
    obtain ⟨c, hsleep, hc⟩ := hf i he
    refine ⟨c, hsleep, ?_⟩
    by_contra hfalse
    exact hne (hc (by simpa using hfalse))
  cases hs with
  | refuse _ _ _ => exact hfs
  | balance _ i protocolId data handler _ _ =>
    exact pushed (.push i protocolId data handler) trivial _ hfs
  | push i protocolId data handler =>
    exact pushed (.enqueue i ⟨protocolId, data, handler⟩) trivial _ hfs
  | enqueue i job => exact hfs
  | empty i _ => exact hfs
  | execute i hne =>
    apply inside i (.dequeue i) rfl
    obtain ⟨c, hsleep, _⟩ := hf i rfl
    refine ⟨c, hsleep, ?_⟩
    cases c with
    | true => rfl
    | false => exact absurd (hidle i rfl hsleep) hne
  | dequeue i jobs rest _ _ =>
    exact inside i (.batch i jobs.length jobs) rfl (connected i rfl (by simp))
  | handle i jobCount job jobs =>
    exact inside i (.handling i jobCount jobs) rfl (connected i rfl (by simp))
  | call i jobCount jobs f hp _ =>
    exact pushed f hp _ (inside i (.handling i jobCount jobs) rfl (connected i rfl (by simp)))
  | handled i jobCount jobs =>
    exact inside i (.batch i jobCount jobs) rfl (connected i rfl (by simp))
  | subLast i jobCount _ => exact hfs
  | subMore i jobCount => exact inside i (.execute i) rfl (connected i rfl (by simp))
  | loop f s' new hl =>
    cases hl with
    | work i c =>
      obtain ⟨_, rfl⟩ := hstack.of_looping rfl
      refine ⟨?_, fun i he => he.elim, trivial⟩
      intro i' he
      obtain rfl : i = i' := he
      exact ⟨c, rfl, fun _ => rfl⟩
    | _ i => exact ⟨fun i he => he.elim, hfs⟩

/-- Only `Connect` changes a session. -/
theorem Step.session {s s' : Mem T X} {t : T} {f : Frame T X} {new : List (Frame T X)}
    (h : Step s t f s' new) (hf : ∀ i, f ≠ .reconnect i) (i : ℕ) :
    (s'.service i).mSession = (s.service i).mSession := by
  have set (i' : ℕ) (d : DBService T X) (hd : d.mSession = (s.service i').mSession) :
      (Function.update s.service i' d i).mSession = (s.service i).mSession := by
    by_cases hi : i = i'
    · subst hi
      simpa using hd
    · simp [hi]
  cases h with
  | push i' => exact set i' _ rfl
  | enqueue i' => exact set i' _ rfl
  | dequeue i' => exact set i' _ rfl
  | subLast i' => exact set i' _ rfl
  | subMore i' => exact set i' _ rfl
  | loop f s' new hl =>
    cases hl with
    | reconnect i' ok => exact absurd rfl (hf i')
    | _ => rfl
  | _ => rfl

/-- An iteration goes to work either after its test or in the back-off. -/
theorem Step.no_work {s s' : Mem T X} {t : T} {f : Frame T X} {new : List (Frame T X)}
    (h : Step s t f s' new) (hf : ∀ i, f ≠ .isConnected i) (i : ℕ) :
    .work i true ∉ new ∧ (.sleep i true ∈ new → f = .work i true) := by
  cases h with
  | call i' jobCount jobs f hp _ =>
    cases f <;> first | exact hp.elim | simp
  | loop f s' new hl =>
    cases hl with
    | up i' => exact absurd rfl (hf i')
    | work i' c => simp +contextual
    | _ => simp
  | _ => simp

/-- What one step of a frame means for the connections and the log. -/
theorem launchEvents_cases {s s' : Mem T X} {t : T} {f : Frame T X} {c : Choice T X}
    {new : List (Frame T X)} (h : step s t f c = some (s', new)) :
    (launchEvents s f c = [] ∧ (∀ i, (s'.service i).mSession = (s.service i).mSession) ∧
      ∀ i, .work i true ∉ new ∧ (.sleep i true ∈ new → f = .work i true)) ∨
    (∃ i connected, f = .isConnected i ∧ (s.service i).mSession = some connected ∧
      launchEvents s f c = [.tested i connected] ∧ s' = s ∧
      new = [if connected then .work i connected else .tickTest i]) ∨
    (∃ i d, f = .reconnect i ∧ launchEvents s f c = [.reconnected i] ∧ s' = s.set i d ∧
      new = [.backOff i]) ∨
    (∃ i, f = .dequeue i ∧ launchEvents s f c = [.took i] ∧
      (∀ i, (s'.service i).mSession = (s.service i).mSession) ∧
      ∀ i, .work i true ∉ new ∧ .sleep i true ∉ new) := by
  have hs := step_spec h
  cases f with
  | isConnected i =>
    apply Or.inr
    apply Or.inl
    cases c <;> simp only [step, launchStep, reduceCtorEq] at h
    cases hc : (s.service i).mSession with
    | none => simp [hc] at h
    | some connected =>
      simp only [hc, Option.some.injEq, Prod.mk.injEq] at h
      obtain ⟨rfl, rfl⟩ := h
      exact ⟨i, connected, rfl, hc, by simp [launchEvents, hc], rfl, rfl⟩
  | reconnect i =>
    cases c <;> simp only [step, launchStep, reduceCtorEq, Option.some.injEq,
      Prod.mk.injEq] at h
    case result ok =>
    obtain ⟨rfl, rfl⟩ := h
    cases ok with
    | true => exact .inr (.inr (.inl ⟨i, _, rfl, rfl, rfl, rfl⟩))
    | false =>
      refine .inl ⟨rfl, ?_, by simp⟩
      intro j
      by_cases hj : j = i
      · subst hj
        simp [DBService.Connect]
      · simp [hj]
  | dequeue i =>
    have hsession := hs.session (by simp)
    have hwork := hs.no_work (by simp)
    cases c <;> simp only [step, executeStep, reduceCtorEq] at h
    case take producers =>
    cases producers with
    | nil => exact .inl ⟨rfl, hsession, hwork⟩
    | cons p ps =>
      refine .inr (.inr (.inr ⟨i, rfl, rfl, hsession, fun j => ⟨(hwork j).1, ?_⟩⟩))
      intro hsleep
      have hne := (hwork j).2 hsleep
      cases hne
  | _ =>
    refine .inl ⟨?_, hs.session (by simp), hs.no_work (by simp)⟩
    cases c <;> rfl

/-- What holds between any two atomic steps of the threads that `Launch` starts. -/
structure Live [Fintype T] (worker : ℕ → T) (s : Conf T (Mem T X) (Frame T X))
    (log : List LaunchEvent) : Prop where
  inv : Inv worker s
  guarded : ∀ t, Guarded (s.frames t)
  down : ∀ i, down i log = true → (s.mem.service i).mSession = some false
  live : ∀ t i, ∀ f ∈ s.frames t, f = .work i true ∨ f = .sleep i true →
    lastTest i log = some true ∧ Database.down i log = false
  took : OnLiveConnection log

section Run

variable [Fintype T] {worker : ℕ → T}

omit [DecidableEq T] [Fintype T] in
/-- Where a thread is at a position of service `i`, it is the thread of that service. -/
theorem Stack.owner {t : T} {fs : List (Frame T X)} (h : Stack worker t fs) {i : ℕ} {f : Frame T X}
    (hf : f ∈ fs) (hi : f = .work i true ∨ f = .sleep i true) : worker i = t := by
  have hloop : f.looping i := by rcases hi with rfl | rfl <;> rfl
  have base (gs : List (Frame T X)) (hb : Base worker t gs) (hg : f ∈ gs) : worker i = t := by
    cases hb with
    | idle => cases hg
    | loop i' g hw hl =>
      obtain rfl := List.mem_singleton.mp hg
      have hi' : i' = i := by cases f <;> simp_all [Frame.looping]
      exact hi' ▸ hw
    | execute i' g gs hw he _ hgs =>
      rcases List.mem_cons.mp hg with rfl | hg
      · exact absurd hloop (he.not_looping i)
      · rcases hgs with rfl | ⟨c, rfl⟩
        · cases hg
        · obtain rfl := List.mem_singleton.mp hg
          obtain rfl : i' = i := hloop
          exact hw
  cases h with
  | base _ hb => exact base fs hb hf
  | push g gs hp hb =>
    rcases List.mem_cons.mp hf with rfl | hf
    · exact absurd hloop (hp.not_looping i)
    · exact base gs hb hf

/-- A quiet step keeps what is known of the connections. -/
theorem Live.quiet {s : Conf T (Mem T X) (Frame T X)} {log : List LaunchEvent}
    (h : Live worker s log) {s' : Conf T (Mem T X) (Frame T X)} (hinv : Inv worker s')
    (hguarded : ∀ t, Guarded (s'.frames t))
    (hsession : ∀ i, (s.mem.service i).mSession = some false →
      (s'.mem.service i).mSession = some false)
    (hframes : ∀ t i, ∀ f ∈ s'.frames t, f = .work i true ∨ f = .sleep i true →
      ∃ g ∈ s.frames t, g = .work i true ∨ g = .sleep i true) : Live worker s' log := by
  refine ⟨hinv, hguarded, fun i hd => hsession i (h.down i hd), ?_, h.took⟩
  intro t i f hf hi
  obtain ⟨g, hg, hgi⟩ := hframes t i f hf hi
  exact h.live t i g hg hgi

theorem Live.step {s : Conf T (Mem T X) (Frame T X)} {log : List LaunchEvent}
    (h : Live worker s log) {t : T} {c : Choice T X} {f : Frame T X} {fs new : List (Frame T X)}
    {mem : Mem T X} (hs : s.frames t = f :: fs) (he : Database.step s.mem t f c = some (mem, new))
    (hidle : ∀ i, f = .execute i → fs = [.sleep i false] → (s.mem.service i).mQueueCount = 0) :
    Live worker ⟨mem, Function.update s.frames t (new ++ fs)⟩
      (log ++ launchEvents s.mem f c) := by
  have hstep := step_spec he
  have hinv := h.inv.step hs hstep
  have hstack : Stack worker t (f :: fs) := hs ▸ h.inv.stack t
  have hguard : Guarded (f :: fs) := hs ▸ h.guarded t
  have hguarded (u : T) : Guarded (Function.update s.frames t (new ++ fs) u) := by
    by_cases hu : u = t
    · subst hu
      rw [Function.update_self]
      exact hguard.step hstack hstep hidle
    · rw [Function.update_of_ne hu]
      exact h.guarded u
  rcases launchEvents_cases he with ⟨hlog, hsession, hnew⟩ |
    ⟨i, connected, rfl, hconnected, hlog, rfl, rfl⟩ | ⟨i, d, rfl, hlog, rfl, rfl⟩ |
    ⟨i, rfl, hlog, hsession, hnew⟩
  · rw [hlog, List.append_nil]
    apply h.quiet hinv hguarded
    · intro i hi
      rw [hsession i]
      exact hi
    · intro u i g hg hgi
      rcases mem_update new hg with ⟨rfl, hg'⟩ | other
      · rcases hgi with rfl | rfl
        · exact absurd hg' (hnew i).1
        · exact ⟨f, by simp [hs], .inl ((hnew i).2 hg')⟩
      · exact ⟨g, other.mem hs, hgi⟩
  · rw [hlog]
    obtain ⟨hw, rfl⟩ := hstack.of_looping rfl
    refine ⟨hinv, hguarded, ?_, ?_, h.took.append (by simp)⟩
    · intro j hd
      rw [down_append] at hd
      dsimp only at hd
      split at hd
      · next hj => rw [← hj.1, hconnected, hj.2]
      · exact h.down j hd
    · intro u j g hg hgi
      rcases mem_update _ hg with ⟨rfl, hg'⟩ | other
      · -- the test that brings an iteration to work has found the session connected
        have hg'' := List.mem_singleton.mp hg'
        cases connected with
        | false => rcases hgi with rfl | rfl <;> simp at hg''
        | true =>
          obtain rfl : j = i := by rcases hgi with rfl | rfl <;> simp at hg''; exact hg''
          have hup : Database.down j log = false := by
            by_contra hdown
            have hlost := h.down j (by simpa using hdown)
            rw [hconnected] at hlost
            simp at hlost
          simp [hup]
      · have hg' := other.mem hs
        obtain ⟨hlast, hdown⟩ := h.live u j g hg' hgi
        have hj : i ≠ j := by
          rintro rfl
          have hu : u = t := ((h.inv.stack u).owner hg' hgi).symm.trans hw
          rcases other with ⟨_, hnil⟩ | ⟨hne, _⟩
          · cases hnil
          · exact hne hu
        simp [hj, hlast, hdown]
  · rw [hlog]
    refine ⟨hinv, hguarded, ?_, ?_, h.took.append (by simp)⟩
    · intro j hd
      rw [down_append] at hd
      dsimp only at hd
      split at hd
      · cases hd
      · next hj => simpa [Ne.symm hj] using h.down j hd
    · intro u j g hg hgi
      rcases mem_update _ hg with ⟨rfl, hg'⟩ | other
      · obtain rfl := List.mem_singleton.mp hg'
        rcases hgi with hgi | hgi <;> cases hgi
      · obtain ⟨hlast, hdown⟩ := h.live u j g (other.mem hs) hgi
        simp [hlast, hdown]
  · rw [hlog]
    obtain ⟨c', rfl, hc'⟩ := hguard.1 i rfl
    have hlive := h.live t i (.sleep i true) (by
      cases c' with
      | true => simp [hs]
      | false => simp at hc') (.inr rfl)
    refine ⟨hinv, hguarded, ?_, ?_, h.took.append ?_⟩
    · intro j hd
      rw [hsession j]
      exact h.down j (by simpa using hd)
    · intro u j g hg hgi
      have same : lastTest j (log ++ [.took i]) = lastTest j log ∧
          Database.down j (log ++ [.took i]) = Database.down j log := by simp
      rw [same.1, same.2]
      rcases mem_update new hg with ⟨rfl, hg'⟩ | other
      · rcases hgi with rfl | rfl
        · exact absurd hg' (hnew j).1
        · exact absurd hg' (hnew j).2
      · exact h.live u j g (other.mem hs) hgi
    · intro j hj
      obtain rfl : i = j := by simpa using hj
      exact hlive

omit [Fintype T] in
theorem enter_fromLaunch {s : Mem T X} {frames : T → List (Frame T X)} {t : T} {c : Choice T X}
    {r : Mem T X × Frame T X} (h : enter worker s frames t c = some r)
    (hc : fromLaunch (.enter t c) = true) : r.2.pushing ∨ ∃ i, r.2 = .launch i := by
  cases c <;> simp only [enter, reduceCtorEq] at h <;> split at h <;>
    simp only [Option.some.injEq, reduceCtorEq] at h <;> subst h
  case callExecute => cases hc
  case callLaunch i _ => exact .inr ⟨i, rfl⟩
  all_goals exact .inl trivial

theorem Live.next {s s' : Conf T (Mem T X) (Frame T X)} {log : List LaunchEvent}
    (h : Live worker s log) {a : Action T (Choice T X)} (ha : launchOk s a = true)
    (hs' : (machine worker).next s a = some s') : Live worker s' (log ++ launchLog s a) := by
  obtain ⟨hlaunch, hidle⟩ := Bool.and_eq_true_iff.mp ha
  have hinv := h.inv.next hs'
  rcases Machine.next_cases hs' with ⟨t, c, mem, f, rfl, he, rfl⟩ |
    ⟨t, c, f, fs, mem, new, rfl, hs, he, rfl⟩ | ⟨c, mem, rfl, he, rfl⟩
  · obtain ⟨hempty, hmem, _, _⟩ := enter_spec he
    obtain rfl : mem = s.mem := hmem
    have hlog : launchLog s (.enter t c) = [] := rfl
    rw [hlog, List.append_nil]
    have hf : (∀ i, ¬f.executing i) ∧ ∀ i, f ≠ .work i true ∧ f ≠ .sleep i true := by
      rcases enter_fromLaunch he hlaunch with hp | ⟨j, hj⟩
      · refine ⟨hp.not_executing, fun i => ⟨?_, ?_⟩⟩ <;>
          exact fun h => hp.not_looping i (h ▸ rfl)
      · obtain rfl : f = .launch j := hj
        exact ⟨fun i he => he.elim, by simp⟩
    apply h.quiet hinv _ (fun i hi => hi)
    · intro u i g hg hgi
      rcases mem_push hg with rfl | hg
      · rcases hgi with hgi | hgi
        · exact absurd hgi (hf.2 i).1
        · exact absurd hgi (hf.2 i).2
      · exact ⟨g, hg, hgi⟩
    · intro u
      by_cases hu : u = t
      · subst hu
        simpa [hempty] using ⟨fun i he => absurd he (hf.1 i), trivial⟩
      · simpa [hu] using h.guarded u
  · have hlog : launchLog s (.step t c) = launchEvents s.mem f c := by simp [launchLog, hs]
    rw [hlog]
    apply h.step hs he
    rintro i rfl rfl
    simpa [idleInBackOff, hs] using hidle
  · obtain ⟨i, rfl⟩ := env_spec he
    have hlog : launchLog s (.env c) = [] := rfl
    rw [hlog, List.append_nil]
    apply h.quiet hinv h.guarded
    · intro j hj
      by_cases hi : j = i
      · subst hi
        simp [hj]
      · simpa [hi] using hj
    · exact fun u i g hg hgi => ⟨g, hg, hgi⟩

/-- In a run whose back-offs find nothing counted, requests are taken on a live connection
only. -/
theorem launch_on_live_connection {connect : ℕ → Bool} {connectionString : String}
    {serviceCount : Int} {s : Conf T (Mem T X) (Frame T X)} {log : List LaunchEvent}
    (h : (machine worker).Logged (fun s a => launchOk s a = true) launchLog
      (start connect connectionString serviceCount) s log) : OnLiveConnection log := by
  have hlive : Live worker s log := by
    apply h.invariant (Live worker)
    · refine ⟨.start connect connectionString serviceCount, fun t => trivial, ?_, ?_, ?_⟩
      · intro i hd
        cases hd
      · intro t i f hf
        cases hf
      · intro before i after heq
        simp at heq
    · intro s a s' log _ hi ha hs'
      exact hi.next ha hs'
  exact hlive.took

end Run

/-- A request is pushed, and the thread of the connected service takes it. -/
def takeConnected : List (Action Bool (Choice Bool Unit)) :=
  [.enter false (.callPush 0 1 (some ⟨0, 1, ()⟩) ⟨[1]⟩), .step false .go, .step false .go,
    .enter true (.callLaunch 0), .step true .go, .step true .go, .step true .go, .step true .go,
    .step true (.take [false])]

theorem launch_on_live_connection_takeConnected :
    ∃ (s : Conf Bool (Mem Bool Unit) (Frame Bool Unit)) (log : List LaunchEvent),
      (machine fun _ => true).Logged (fun s a => launchOk s a = true) launchLog
        (start (fun _ => true) "DSN=Game" 1) s log ∧
      .took 0 ∈ log ∧ OnLiveConnection log := by
  have h := Machine.logged_finalChecked (machine fun _ => true) launchOk launchLog
    (start (fun _ => true) "DSN=Game" 1 : Conf Bool (Mem Bool Unit) (Frame Bool Unit))
    takeConnected (by decide)
  exact ⟨_, _, h, by decide, launch_on_live_connection h⟩

/-- The connection is lost and a reconnect fails; a request that is pushed in the back-off is
taken at once. -/
def takeInBackOff : List (Action Bool (Choice Bool Unit)) :=
  [.enter true (.callLaunch 0), .step true .go, .env (.lose 0), .step true .go,
    .step true (.clock 1000), .step true (.result false), .step true (.clock 1000),
    .enter false (.callPush 0 1 (some ⟨0, 1, ()⟩) ⟨[1]⟩), .step false .go, .step false .go,
    .step true .go, .step true .go, .step true (.clock 1001), .step true .go, .step true .go,
    .step true (.take [false])]

theorem taken_in_back_off :
    ¬∀ (s : Conf Bool (Mem Bool Unit) (Frame Bool Unit)) (log : List LaunchEvent),
      (machine fun _ => true).Logged (fun _ a => fromLaunch a = true) launchLog
        (start (fun _ => true) "DSN=Game" 1) s log → OnLiveConnection log := by
  intro claim
  have h := Machine.logged_finalChecked (machine fun _ => true) (fun _ a => fromLaunch a)
    launchLog (start (fun _ => true) "DSN=Game" 1 : Conf Bool (Mem Bool Unit) (Frame Bool Unit))
    takeInBackOff (by decide)
  have hlog : (machine fun _ => true).record launchLog
      (start (fun _ => true) "DSN=Game" 1 : Conf Bool (Mem Bool Unit) (Frame Bool Unit))
      takeInBackOff = [.tested 0 false, .tested 0 false] ++ .took 0 :: [] := by decide
  have hlast := (claim _ _ h _ 0 _ hlog).1
  exact absurd hlast (by decide)

end ServerCore.Database
