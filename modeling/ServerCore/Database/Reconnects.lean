import ServerCore.Database.Launch

namespace ServerCore.Database

open Framework

/-- The readings of the clock around a `Connect` of the loop of `Launch`: of the test that lets
service `i` reconnect, and of the back-off after it. -/
inductive ConnectEvent where
  | allowed (i : ℕ) (now : ℕ)
  | backedOff (i : ℕ) (now : ℕ)
  deriving DecidableEq

/-- The reading at the last back-off of service `i`. -/
def lastBackOff (i : ℕ) (log : List ConnectEvent) : Option ℕ :=
  log.foldl (fun r e =>
    match e with
    | .backedOff i' now => if i' = i then some now else r
    | .allowed .. => r) none

/-- A service reconnects only when `DBRECONNECTTIME` has passed since its last back-off. -/
def Spaced (log : List ConnectEvent) : Prop :=
  ∀ before i now after, log = before ++ .allowed i now :: after →
    ∀ last, lastBackOff i before = some last → (last + dbReconnectTime) % 2 ^ 64 < now

@[simp] theorem lastBackOff_append (i : ℕ) (log : List ConnectEvent) (e : ConnectEvent) :
    lastBackOff i (log ++ [e]) =
      match e with
      | .backedOff i' now => if i' = i then some now else lastBackOff i log
      | .allowed .. => lastBackOff i log := by
  simp only [lastBackOff, List.foldl_append, List.foldl_cons, List.foldl_nil]

theorem Spaced.append {log : List ConnectEvent} (h : Spaced log) {e : ConnectEvent}
    (he : ∀ i now, e = .allowed i now →
      ∀ last, lastBackOff i log = some last → (last + dbReconnectTime) % 2 ^ 64 < now) :
    Spaced (log ++ [e]) := by
  intro before i now after heq
  rcases Machine.mem_grown heq with ⟨rfl, hlast⟩ | ⟨rest, hlog⟩
  · exact he i now hlast
  · exact h before i now rest hlog

variable {T X : Type}

/-- What a step of a frame adds to the log. -/
def connectEvents (s : Mem T X) (t : T) : Frame T X → Choice T X → List ConnectEvent
  | .tickTest i, .clock now => if s.LEndTickCount t < now then [.allowed i now] else []
  | .backOff i, .clock now => [.backedOff i now]
  | _, _ => []

def connectLog (s : Conf T (Mem T X) (Frame T X)) : Action T (Choice T X) → List ConnectEvent
  | .step t c =>
      match s.frames t with
      | f :: _ => connectEvents s.mem t f c
      | [] => []
  | _ => []

variable [DecidableEq T]

/-- What one step of a frame means for `LEndTickCount` and the log. -/
theorem connectEvents_cases {s s' : Mem T X} {t : T} {f : Frame T X} {c : Choice T X}
    {new : List (Frame T X)} (h : step s t f c = some (s', new)) :
    (connectEvents s t f c = [] ∧ s'.LEndTickCount = s.LEndTickCount) ∨
    (∃ i now, f = .tickTest i ∧ s.LEndTickCount t < now ∧
      connectEvents s t f c = [.allowed i now] ∧ s'.LEndTickCount = s.LEndTickCount) ∨
    ∃ i now, f = .backOff i ∧ connectEvents s t f c = [.backedOff i now] ∧
      s'.LEndTickCount =
        Function.update s.LEndTickCount t ((now + dbReconnectTime) % 2 ^ 64) := by
  cases f with
  | tickTest i =>
    cases c <;> simp only [step, launchStep, reduceCtorEq] at h
    case clock now =>
    by_cases hdue : s.LEndTickCount t < now
    · rw [if_pos hdue] at h
      obtain ⟨rfl, _⟩ := Prod.mk.inj (Option.some.inj h)
      exact .inr (.inl ⟨i, now, rfl, hdue, if_pos hdue, rfl⟩)
    · rw [if_neg hdue] at h
      obtain ⟨rfl, _⟩ := Prod.mk.inj (Option.some.inj h)
      exact .inl ⟨if_neg hdue, rfl⟩
  | backOff i =>
    cases c <;> simp only [step, launchStep, reduceCtorEq] at h
    case clock now =>
    obtain ⟨rfl, _⟩ := Prod.mk.inj (Option.some.inj h)
    exact .inr (.inr ⟨i, now, rfl, rfl, rfl⟩)
  | _ =>
    refine .inl ⟨by cases c <;> rfl, ?_⟩
    cases step_spec h with
    | loop _ _ _ hl => cases hl <;> rfl
    | _ => rfl

/-- The loop of `Launch` is never left. -/
theorem Step.looping {s s' : Mem T X} {t : T} {f : Frame T X} {new : List (Frame T X)}
    (h : Step s t f s' new) {i : ℕ} (hf : f.looping i) : ∃ g ∈ new, g.looping i := by
  cases h with
  | refuse f hp _ => exact absurd hf (hp.not_looping i)
  | balance f _ _ _ _ hp _ => exact absurd hf (hp.not_looping i)
  | loop f s' new hl =>
    cases hl with
    | work j c => exact ⟨.sleep j c, by simp, hf⟩
    | _ j => exact ⟨_, List.mem_singleton_self _, hf⟩
  | _ => exact hf.elim

/-- What holds between any two atomic steps of the threads that reconnect. -/
structure BackedOff [Fintype T] (worker : ℕ → T) (s : Conf T (Mem T X) (Frame T X))
    (log : List ConnectEvent) : Prop where
  inv : Inv worker s
  last : ∀ i now, lastBackOff i log = some now →
    s.mem.LEndTickCount (worker i) = (now + dbReconnectTime) % 2 ^ 64 ∧
      ∃ f ∈ s.frames (worker i), f.looping i
  spaced : Spaced log

section Run

variable [Fintype T] {worker : ℕ → T} {s s' : Conf T (Mem T X) (Frame T X)}
  {log : List ConnectEvent}

omit [Fintype T] in
theorem looping_step {t : T} {c : Choice T X} {f : Frame T X} {fs new : List (Frame T X)}
    {mem : Mem T X} (hs : s.frames t = f :: fs) (hstep : Database.step s.mem t f c = some (mem, new))
    {u : T} {i : ℕ} (h : ∃ g ∈ s.frames u, g.looping i) :
    ∃ g ∈ Function.update s.frames t (new ++ fs) u, g.looping i := by
  obtain ⟨g, hg, hl⟩ := h
  by_cases hu : u = t
  · subst hu
    rw [Function.update_self]
    rw [hs] at hg
    rcases List.mem_cons.mp hg with rfl | hg
    · obtain ⟨g', hg', hl'⟩ := (step_spec hstep).looping hl
      exact ⟨g', List.mem_append_left _ hg', hl'⟩
    · exact ⟨g, List.mem_append_right _ hg, hl⟩
  · rw [Function.update_of_ne hu]
    exact ⟨g, hg, hl⟩

theorem BackedOff.step (h : BackedOff worker s log) {t : T} {c : Choice T X} {f : Frame T X}
    {fs new : List (Frame T X)} {mem : Mem T X} (hs : s.frames t = f :: fs)
    (hstep : Database.step s.mem t f c = some (mem, new))
    (hinv : Inv worker ⟨mem, Function.update s.frames t (new ++ fs)⟩) :
    BackedOff worker ⟨mem, Function.update s.frames t (new ++ fs)⟩
      (log ++ connectEvents s.mem t f c) := by
  have hstack : Stack worker t (f :: fs) := hs ▸ h.inv.stack t
  have hlooping (i : ℕ) (hi : ∃ g ∈ s.frames (worker i), g.looping i) :=
    looping_step hs hstep hi
  rcases connectEvents_cases hstep with ⟨hlog, htick⟩ | ⟨j, now, rfl, hdue, hlog, htick⟩ |
    ⟨j, now, rfl, hlog, htick⟩
  · rw [hlog, List.append_nil]
    refine ⟨hinv, ?_, h.spaced⟩
    intro i last hlast
    obtain ⟨hticks, hi⟩ := h.last i last hlast
    exact ⟨(congrFun htick _).trans hticks, hlooping i hi⟩
  · rw [hlog]
    obtain ⟨hw, _⟩ := hstack.of_looping (i := j) rfl
    refine ⟨hinv, ?_, h.spaced.append ?_⟩
    · intro i last hlast
      rw [lastBackOff_append] at hlast
      obtain ⟨hticks, hi⟩ := h.last i last hlast
      exact ⟨(congrFun htick _).trans hticks, hlooping i hi⟩
    · intro i now' he last hlast
      obtain ⟨rfl, rfl⟩ := ConnectEvent.allowed.inj he
      obtain ⟨hticks, _⟩ := h.last j last hlast
      rw [← hticks, hw]
      exact hdue
  · rw [hlog]
    obtain ⟨hw, rfl⟩ := hstack.of_looping (i := j) rfl
    refine ⟨hinv, ?_, h.spaced.append fun i now' he => nomatch he⟩
    intro i last hlast
    rw [lastBackOff_append] at hlast
    dsimp only at hlast
    by_cases hj : j = i
    · subst hj
      rw [if_pos rfl] at hlast
      obtain rfl := Option.some.inj hlast
      refine ⟨?_, hlooping j ⟨.backOff j, ?_, rfl⟩⟩
      · rw [hw]
        exact (congrFun htick t).trans (Function.update_self ..)
      · rw [hw, hs]
        exact List.mem_cons_self
    · rw [if_neg hj] at hlast
      obtain ⟨hticks, g, hg, hl⟩ := h.last i last hlast
      -- a thread that backs off for one service is in the loop of no other
      have hne : worker i ≠ t := by
        intro heq
        rw [heq, hs] at hg
        obtain rfl := List.mem_singleton.mp hg
        exact hj hl
      refine ⟨?_, hlooping i ⟨g, hg, hl⟩⟩
      exact ((congrFun htick _).trans (Function.update_of_ne hne _ _)).trans hticks

theorem BackedOff.next (h : BackedOff worker s log) {a : Action T (Choice T X)}
    (hs' : (machine worker).next s a = some s') : BackedOff worker s' (log ++ connectLog s a) := by
  have hinv := h.inv.next hs'
  rcases Machine.next_cases hs' with ⟨t, c, mem, f, rfl, he, rfl⟩ |
    ⟨t, c, f, fs, mem, new, rfl, hs, he, rfl⟩ | ⟨c, mem, rfl, he, rfl⟩
  · obtain ⟨hidle, hmem, _⟩ := enter_spec he
    obtain rfl : mem = s.mem := hmem
    have hlog : connectLog s (.enter t c) = [] := rfl
    rw [hlog, List.append_nil]
    refine ⟨hinv, ?_, h.spaced⟩
    intro i last hlast
    obtain ⟨hticks, g, hg, hl⟩ := h.last i last hlast
    exact ⟨hticks, g, push_mem t f hg, hl⟩
  · have hlog : connectLog s (.step t c) = connectEvents s.mem t f c := by simp [connectLog, hs]
    rw [hlog]
    exact h.step hs he hinv
  · obtain ⟨i, rfl⟩ := env_spec he
    have hlog : connectLog s (.env c) = [] := rfl
    rw [hlog, List.append_nil]
    exact ⟨hinv, h.last, h.spaced⟩

/-- Over every run of the threads that `Launch` starts, whatever the clocks read and whenever
connections are lost, no service reconnects within `DBRECONNECTTIME` of its last attempt. -/
theorem reconnects_spaced {connect : ℕ → Bool} {connectionString : String} {serviceCount : Int}
    {ok : Conf T (Mem T X) (Frame T X) → Action T (Choice T X) → Prop}
    (h : (machine worker).Logged ok connectLog (start connect connectionString serviceCount) s log) :
    Spaced log := by
  have hbacked : BackedOff worker s log := by
    apply h.invariant (BackedOff worker)
    · refine ⟨.start connect connectionString serviceCount, ?_, ?_⟩
      · intro i now hlast
        cases hlast
      · intro before i now after heq
        simp at heq
    · intro s a s' log _ hi _ hs'
      exact hi.next hs'
  exact hbacked.spaced

end Run

/-- The connection is lost and reconnects fail; a test within the reconnect time does not let the
thread try again, and a later one does. -/
def retryLater : List (Action Bool (Choice Bool Unit)) :=
  [.enter true (.callLaunch 0), .step true .go, .env (.lose 0), .step true .go,
    .step true (.clock 1000), .step true (.result false), .step true (.clock 1000),
    .step true .go, .step true .go, .step true (.clock 6000), .step true .go, .step true .go,
    .step true .go, .step true .go, .step true .go, .step true (.clock 6001)]

theorem reconnects_spaced_retryLater :
    ∃ (s : Conf Bool (Mem Bool Unit) (Frame Bool Unit)) (log : List ConnectEvent),
      (machine fun _ => true).Logged (fun _ _ => true = true) connectLog
        (start (fun _ => true) "DSN=Game" 1) s log ∧
      log = [.allowed 0 1000, .backedOff 0 1000, .allowed 0 6001] ∧ Spaced log := by
  have h := Machine.logged_finalChecked (machine fun _ => true) (fun _ _ => true) connectLog
    (start (fun _ => true) "DSN=Game" 1 : Conf Bool (Mem Bool Unit) (Frame Bool Unit))
    retryLater (by decide)
  exact ⟨_, _, h, by decide, reconnects_spaced h⟩

end ServerCore.Database
