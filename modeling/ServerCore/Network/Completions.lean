import ServerCore.Network.RegionIsolation

namespace ServerCore.Network

open Framework

variable {T S : Type} [DecidableEq T] [DecidableEq S]

/-- A receive completion that was dequeued finds its session in the context. -/
def recvDispatcher (x : S) : Assertion T S where
  session _ := True
  frame s f := ∀ n, f = .recv (.dispatch n) → s.recv.mRioRecvContext.mDispatcher = some x

/-- A send completion that was dequeued finds its session in the context. -/
def sendDispatcher (x : S) : Assertion T S where
  session _ := True
  frame s f := ∀ n, f = .send (.dispatch n) → s.send.mRioSendContext.mDispatcher = some x

/-- A receive completion of the session that was dequeued and not read yet. -/
def Frame.recvDequeued : Frame T → ℕ
  | .recv (.dispatch _) => 1
  | _ => 0

/-- A send completion of the session that was dequeued and not read yet. -/
def Frame.sendDequeued : Frame T → ℕ
  | .send (.dispatch _) => 1
  | _ => 0

/-- Each completion of session `x` finds it, and belongs to its one receive or one send. -/
structure CompletionsFind [Fintype T] (x : S) (s : SystemConf T S) : Prop where
  recv : ∀ t n, (x, .recv (.dispatch n)) ∈ s.frames t →
    (s.mem.session x).recv.mRioRecvContext.mDispatcher = some x
  send : ∀ t n, (x, .send (.dispatch n)) ∈ s.frames t →
    (s.mem.session x).send.mRioSendContext.mDispatcher = some x
  oneRecv : (s.mem.session x).recv.outstanding.length + count x Frame.recvDequeued s ≤ 1
  oneSend : (s.mem.session x).send.outstanding.length + count x Frame.sendDequeued s ≤ 1

section

variable [Fintype T] {m : Machine T (System T S) (SessionFrame T S) (Choice T S)} [Specified m]
  {recvPool sendPool : RegisteredBufferPool T}
  {ok : SystemConf T S → Action T (Choice T S) → Prop} {s : SystemConf T S}

theorem recvDispatcher_reach (h : m.Reach ok (start recvPool sendPool) s) (x : S) :
    (recvDispatcher x).Holds x s := by
  refine Assertion.reach h ?init ?step ?beside ?enter ?env
  case init => trivial
  case step =>
    intro s t c f fs mem new _ _ _ hstep _ _
    refine ⟨trivial, ?_⟩
    intro g hg n hn
    subst hn
    have heffect := hstep.recvSide
    generalize (mem.session x).recv = s' at heffect
    cases heffect with
    | recv f s' new h => cases h <;> simp at hg
    | buffer f b new _ hnew _ => exact absurd (hnew _ hg) (by simp [Frame.inRecv])
  case beside =>
    intro s t c f fs mem new u g hr _ _ hstep hb _ hg n hn
    subst hn
    have htoken := (hb recvToken).trans (recvToken_le hr x)
    have heffect := hstep.recvSide
    have hfind := hg n rfl
    simp only [recvToken] at htoken
    show (mem.session x).recv.mRioRecvContext.mDispatcher = some x
    generalize (mem.session x).recv = s' at heffect ⊢
    cases heffect with
    | recv f s' new h =>
      simp only [Frame.recvToken] at htoken
      omega
    | buffer f b new _ _ _ => exact hfind
  case enter =>
    intro s t c f mem hr _ hstep _
    refine ⟨trivial, ?_, ?_⟩
    · intro n hn
      subst hn
      cases hstep with
      | received this n region rest ho _ =>
        simpa using (recvContext_reach hr x).1 (by simp [ho])
    · intro u g _ hg n hn
      have hfind := hg n hn
      rcases hstep.sides with ⟨_, he⟩ | ⟨_, _, _, _, _, _, _, he⟩ | ⟨_, _, _, _, _, _, he, _⟩ <;>
        simpa only [he] using hfind
  case env =>
    intro s mem hstep _
    obtain ⟨_, _, he, _⟩ := hstep.session x
    refine ⟨trivial, ?_⟩
    intro u g _ hg n hn
    simpa only [he] using hg n hn

theorem sendDispatcher_reach (h : m.Reach ok (start recvPool sendPool) s) (x : S) :
    (sendDispatcher x).Holds x s := by
  refine Assertion.reach h ?init ?step ?beside ?enter ?env
  case init => trivial
  case step =>
    intro s t c f fs mem new _ _ _ hstep _ _
    refine ⟨trivial, ?_⟩
    intro g hg n hn
    subst hn
    have heffect := hstep.sendSide
    generalize (mem.session x).send = s' at heffect
    cases heffect with
    | send f c s' new h => cases h <;> simp at hg
    | packetCount c => simp at hg
    | buffer f c b new _ hnew _ => exact absurd (hnew _ hg) (by simp [Frame.inSend])
  case beside =>
    intro s t c f fs mem new u g hr _ _ hstep hb _ hg n hn
    subst hn
    have htoken := (hb sendToken).trans (sendToken_le hr x)
    have heffect := hstep.sendSide
    have hfind := hg n rfl
    have hdispatch : (Frame.send (.dispatch n) : Frame T).sendToken = 1 := rfl
    simp only [sendToken, hdispatch] at htoken
    show (mem.session x).send.mRioSendContext.mDispatcher = some x
    generalize (mem.session x).send = s' at heffect ⊢
    cases heffect with
    | send f c s' new h =>
      rw [(h.quiet (by simp only [Frame.sendToken] at htoken; omega)).2.1]
      exact hfind
    | packetCount c => exact hfind
    | buffer f c b new _ _ _ => exact hfind
  case enter =>
    intro s t c f mem hr _ hstep _
    refine ⟨trivial, ?_, ?_⟩
    · intro n hn
      subst hn
      cases hstep with
      | sent this n post rest ho _ =>
        simpa using (sendContext_reach hr x).1 (by simp [ho])
    · intro u g _ hg n hn
      have hfind := hg n hn
      rcases hstep.sides with ⟨he, _⟩ | ⟨_, _, _, _, _, _, he, _⟩ | ⟨_, _, _, _, _, _, _, he⟩ <;>
        simpa only [he] using hfind
  case env =>
    intro s mem hstep _
    obtain ⟨_, _, he, _⟩ := hstep.session x
    refine ⟨trivial, ?_⟩
    intro u g _ hg n hn
    simpa only [he] using hg n hn

/-- Every completion that is dequeued finds the session that posted the operation, and a session
has at most one receive and one send to complete. -/
theorem completions_find (h : machine.Reach ok (start recvPool sendPool) s) (x : S) :
    CompletionsFind x s := by
  refine ⟨fun t n hf => (recvDispatcher_reach h x).2 t _ hf n rfl,
    fun t n hf => (sendDispatcher_reach h x).2 t _ hf n rfl, ?_, ?_⟩
  · have hle := recvToken_le h x
    have hdequeued : count x Frame.recvDequeued s ≤ count x Frame.recvToken s := by
      apply count_mono x s
      intro f
      cases f with
      | recv f => cases f <;> simp [Frame.recvDequeued, Frame.recvToken]
      | _ => exact Nat.zero_le _
    simp only [Potential.total, recvToken] at hle
    omega
  · have hle := sendToken_le h x
    have hdequeued : count x Frame.sendDequeued s ≤ count x Frame.sendToken s := by
      apply count_mono x s
      intro f
      cases f with
      | send f => cases f <;> simp [Frame.sendDequeued, Frame.sendToken, SendFrame.token]
      | _ => exact Nat.zero_le _
    simp only [Potential.total, sendToken] at hle
    omega

end

/-- A batch of two completions: both are dequeued before the first is read. -/
def dequeueRun {T S : Type} (t : T) (x y : S) (n k : ℕ) : List (Action T (Choice T S)) :=
  [.enter t (.received x n), .enter t (.received y k)]

theorem completions_find_batch : ∃ s : SystemConf (Fin 2) Bool,
    s.frames 0 = [(true, .recv (.dispatch 7)), (false, .recv (.dispatch 5))] ∧
      CompletionsFind false s := by
  have hr := Machine.reach_final machine (initialStart (S := Bool) twoIds (fun _ => 2) (0 : Fin 2))
    (connectRun 0 0 false ++ connectRun 0 1 true ++ dequeueRun 0 false true 5 7) (by decide)
  exact ⟨_, by decide, completions_find hr false⟩

end ServerCore.Network
